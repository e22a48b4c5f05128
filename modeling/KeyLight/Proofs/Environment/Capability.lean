import KeyLight.Proofs.Environment.Poison
import KeyLight.Proofs.Machine.Confinement
import KeyLight.Proofs.World.Footprint
import KeyLight.Proofs.World.Reach

/-!
# What a script can do to an environment

When the host loads a script or calls a function (`Runs`), the script starts from the global
variables and from the arguments, and it gets at what these lead to (`Reaches`) and at what it
makes. So all that it can do to the environment is to change what it reaches, to start threads and
to print (`Leaves`): a render target gets other colours only if a live handle on it can be
reached, and nothing that the host or another thread relies on is changed at all.
-/

namespace KeyLight.Environment

variable {e e' : Environment} {args : List Value}

/-- The host has the code of a script run: it loads a script or calls a function with arguments. -/
inductive Runs (e : Environment) : List Value → Environment → Prop
  | load {fuel : Nat} {script : List Stmt} {result : Except HostError Unit} {e' : Environment}
      (h : e.load fuel script = some (result, e')) : Runs e [] e'
  | invoke {fuel : Nat} {name : String} {args : List Value} {result : Except HostError Bool}
      {e' : Environment} (h : e.invoke fuel name args = some (result, e')) : Runs e args e'

/-- What a script can get at: what the global variables and its arguments lead to through variables,
tables and functions. -/
def Reaches (e : Environment) (args : List Value) : Node → Prop :=
  Linked e.world.openLinks (e.world.globalNodes ++ args.flatMap Value.nodes)

/-- What the code of a script leaves as it is, and what it can change. -/
structure Leaves (e : Environment) (args : List Value) (e' : Environment) : Prop where
  config : e'.config = e.config
  /-- The attached controller, the clock and the generation of leases. -/
  context : e'.world.context = e.world.context
  board : e'.board = e.board
  lastRender : e'.lastRender = e.lastRender
  poison : e'.poison = e.poison
  failures : e'.world.scheduler.failures = e.world.scheduler.failures
  threads : ∀ id t, e.world.scheduler.thread? id = some t → e'.world.scheduler.thread? id = some t
  /-- New threads follow the others, in order, and are ready. -/
  live : ∃ ids, Numbered e.world.scheduler.threads.size ids e'.world.scheduler.threads.size ∧
    e'.world.scheduler.live = e.world.scheduler.live ++ ids ∧
    ∀ id ∈ ids, e'.world.scheduler.state? id = some .ready
  controllers : e'.world.host.controllers = e.world.host.controllers
  boards : e'.world.host.boards = e.world.host.boards
  /-- No target is added or dropped, and the host uses each of them as before. -/
  holds : ∀ id, (e'.world.host.target? id).map (·.hold) = (e.world.host.target? id).map (·.hold)
  /-- A target gets other colours only through a handle that can be reached and is not stale. -/
  targets : ∀ id, e'.world.host.target? id ≠ e.world.host.target? id → ∃ object handle held,
    e.Reaches args (.object object) ∧ e.world.heap.objects[object]? = some (.target handle) ∧
      handle.target = id ∧ e.world.hostTarget handle = .ok held ∧ held.hold = .free
  /-- No script can make a handle on a board or on a target. -/
  handles : ∀ (id : Nat) (o : Object), e'.world.heap.objects[id]? = some o →
    o.type = .board ∨ o.type = .target → e.world.heap.objects[id]? = some o
  /-- Variables and tables that cannot be reached keep what they hold. -/
  cells : ∀ id, e.world.Has (.cell id) → ¬e.Reaches args (.cell id) →
    e'.world.heap.readVariable id = e.world.heap.readVariable id
  tables : ∀ id, e.world.Has (.table id) → ¬e.Reaches args (.table id) →
    e'.world.heap.readTable id = e.world.heap.readTable id

/-! ### What can be reached is closed -/

/-- What a script may get at: what it reaches at the beginning, and what is not there yet. -/
def Known (e : Environment) (args : List Value) (n : Node) : Prop :=
  e.Reaches args n ∨ ¬e.world.Has n

theorem within_known (e : Environment) (args : List Value) : e.world.Within (e.Known args) where
  links := fun n hn m hm => by
    obtain hn | hn := hn
    · exact .inl (hn.step hm)
    · rw [World.openLinks_of_not_has hn] at hm
      cases hm
  globals := fun _ hn => .inl (.root (List.mem_append_left _ hn))
  fresh := fun _ hn => .inr hn

theorem known_of_args : ∀ n ∈ args.flatMap Value.nodes, e.Known args n :=
  fun _ hn => .inl (.root (List.mem_append_right _ hn))

/-! ### Acts of a script -/

/-- What acts within the known leave as it is, told of the environment. -/
theorem leaves_of_acts {w : World} (hacts : e.world.Acts (e.Known args) w) :
    e.Leaves args { e with world := w } := by
  have hspares := hacts.spares
  obtain ⟨ids, hgrows⟩ := hacts.changes.grows
  have reached {n : Node} (hn : e.Known args n) (hhas : e.world.Has n) : e.Reaches args n :=
    hn.resolve_right fun hfresh => hfresh hhas
  refine ⟨rfl, hspares.context, rfl, rfl, hgrows.poison_eq, hgrows.failures_eq, hspares.threads,
    ⟨ids, hgrows.numbered, hgrows.live_eq, ?_⟩, hspares.controllers, hspares.boards, hspares.holds,
    ?_, ?_, ?_, ?_⟩
  · intro id hid
    obtain ⟨t, ht, hstate, -⟩ := hgrows.thread?_new hid
    exact Scheduler.state?_eq_some.mpr ⟨t, ht, hstate⟩
  · intro id hne
    obtain ⟨object, handle, held, hknown, ho, hid, hheld, hfree⟩ := hspares.targets id hne
    have hhas : e.world.Has (.object object) := (Array.getElem?_eq_some_iff.mp ho).1
    exact ⟨object, handle, held, reached hknown hhas, ho, hid, hheld, hfree⟩
  · intro id o ho htype
    obtain hold | hmade := hspares.made id o ho
    · exact hold
    · -- neither is made by a script
      cases o with
      | board | target => exact hmade.elim
      | color | fade | thread | suspension | group | key => simp [Object.type] at htype
  · intro id hhas hunreached
    exact hspares.cells id hhas fun hknown => hunreached (reached hknown hhas)
  · intro id hhas hunreached
    exact hspares.tables id hhas fun hknown => hunreached (reached hknown hhas)

theorem leaves_load {fuel : Nat} {script : List Stmt} {result : Except HostError Unit}
    (h : e.load fuel script = some (result, e')) : e.Leaves [] e' := by
  obtain rfl | ⟨halt, w, hrun, rfl⟩ := load_cases h
  · exact leaves_of_acts (.refl e'.world)
  · exact leaves_of_acts (Machine.acts_runScript (within_known e []) hrun).1

theorem leaves_invoke {fuel : Nat} {name : String} {result : Except HostError Bool}
    (h : e.invoke fuel name args = some (result, e')) : e.Leaves args e' := by
  obtain rfl | ⟨notice, rfl⟩ | ⟨halt, w, hrun, rfl⟩ := invoke_cases h
  · exact leaves_of_acts (.refl e'.world)
  · -- a note of what is no function goes to the journal
    have hleaves : e.Leaves args e := leaves_of_acts (.refl e.world)
    exact { hleaves with }
  · have hwithin := within_known e args
    exact leaves_of_acts
      (Machine.acts_runCall hwithin (hwithin.global name) known_of_args hrun).1

/-- **The code of a script touches only what it can get at.** Whether it ends normally or with an
error, the context, the board, the last frame, the note of a violation and the failures are what
they were; the threads that were there keep their numbers, places and states, and new ones follow
them, ready; and of what the host has only render targets change, each through a live handle that
the script reaches. -/
theorem scripts_touch_what_they_reach (h : e.Runs args e') : e.Leaves args e' := by
  cases h with
  | load h => exact leaves_load h
  | invoke h => exact leaves_invoke h

/-- An environment whose scripts are given a target of one slot and a colour. -/
def painting : Environment :=
  let host : Host := { Host.empty with targets := #[some ⟨⟨[Rgba.clear]⟩, .free⟩] }
  ((start host {}).giveObject "target" (.target ⟨0, 0⟩)).giveObject "red" (.color ⟨255, 0, 0, 255⟩)

/-- A script that fills the target. -/
def fillScript : List Stmt := [.discard (.send (.name "target") "fill" [.name "red"])]

/-- The script changes the target through the handle that it was given. -/
theorem scripts_touch_what_they_reach_painting :
    ∃ e', painting.load 12 fillScript = some (.ok (), e') ∧
      e'.world.host.target? 0 = some ⟨⟨[⟨255, 0, 0, 255⟩]⟩, .free⟩ ∧
      ∃ object handle, painting.Reaches [] (.object object) ∧
        painting.world.heap.objects[object]? = some (.target handle) ∧ handle.target = 0 := by
  have hanswer : (painting.load 12 fillScript).map (fun a => (a.1, a.2.world.host.target? 0)) =
      some (.ok (), some ⟨⟨[⟨255, 0, 0, 255⟩]⟩, .free⟩) := by rfl
  obtain ⟨⟨answer, e'⟩, hload, heq⟩ := Option.map_eq_some_iff.mp hanswer
  obtain ⟨rfl, hpainted⟩ := Prod.mk.inj heq
  have hleaves := scripts_touch_what_they_reach (.load hload)
  have hchanged : e'.world.host.target? 0 ≠ painting.world.host.target? 0 := by
    rw [hpainted]
    decide
  obtain ⟨object, handle, held, hreached, ho, hid, -, -⟩ := hleaves.targets 0 hchanged
  exact ⟨e', hload, hpainted, object, handle, hreached, ho, hid⟩

end KeyLight.Environment
