import KeyLight.Proofs.Machine.Calm
import KeyLight.Proofs.Machine.Yield

/-!
# Moments

A *moment* is a call of a script from outside, one of its steps, or that the host gives a global
variable a value, together with the world in which it happens and with who is running then. The
moments of a run are its steps one after the other (`moments`, `Running`).

`World.Record` is an account of what has happened between two worlds: a list of moments, each of
which finds the world as the one before it has left it, up to what nobody notices. So all that was
sent, assigned and made in between is what the moments of the record did (`Record.sent`,
`Record.kept`, `Record.fades`).
-/

namespace KeyLight

/-- On whose behalf a script runs. -/
inductive Runner
  /-- The host, which runs a main script. -/
  | host
  /-- A thread that is resumed at the time `now`. -/
  | thread (id : ThreadId) (now : Float)
  deriving Repr, DecidableEq

/-- The place where the script runs. -/
def Runner.place : Runner → Place
  | .host => .main
  | .thread _ _ => .thread

/-- What happens at a moment. -/
inductive Act
  /-- A function is called from outside. -/
  | call (c : Invocation)
  | step (control : Control) (frames : List Frame)
  /-- The host gives a global variable a value. -/
  | endow (name : String) (d : Datum)

/-- Something that happens, and the world in which it does. -/
structure Moment where
  runner : Runner
  world : World
  act : Act

namespace Moment

/-- The world after a moment. -/
def after (m : Moment) : World :=
  match m.act with
  | .call c => (Machine.call m.runner.place m.world c.callee c.args c.frames).world
  | .step control frames => (Machine.step m.runner.place m.world control frames).world
  | .endow name d =>
    let (v, w) := m.world.realize d
    w.withRealm (w.setGlobal name v)

/-- The call of a function at a moment. -/
def invocation? (m : Moment) : Option Invocation :=
  match m.act with
  | .call c => some c
  | .step control frames => control.invocation? frames
  | .endow _ _ => none

/-- The world after a call is the one that the call leads to. -/
theorem after_of_invocation {m : Moment} {c : Invocation} (h : m.invocation? = some c) :
    m.after = (Machine.call m.runner.place m.world c.callee c.args c.frames).world := by
  obtain ⟨runner, w, act⟩ := m
  cases act with
  | call c' =>
    obtain rfl := Option.some.inj h
    rfl
  | step control frames =>
    have hc : control.invocation? frames = some c := h
    exact congrArg Next.world (Machine.step_of_invocation hc)
  | endow name d => cases h

/-- What others can notice of a moment. -/
def deed (m : Moment) : Deed :=
  match m.act with
  | .call c => c.deed m.world
  | .step control frames => control.deed m.world frames
  | .endow name d => ⟨none, d.fade?, some (.global name)⟩

/-- The deed of a moment with a call is that of the call. -/
theorem deed_of_invocation {m : Moment} {c : Invocation} (h : m.invocation? = some c) :
    m.deed = c.deed m.world := by
  obtain ⟨runner, w, act⟩ := m
  cases act with
  | call c' =>
    obtain rfl := Option.some.inj h
    rfl
  | step control frames =>
    change control.invocation? frames = some c at h
    simp only [deed, Control.deed, h]
  | endow name d => cases h

/-- Nothing is said without a call. -/
theorem said_of_not_invocation {m : Moment} (h : m.invocation? = none) : m.deed.said = none := by
  obtain ⟨runner, w, act⟩ := m
  cases act with
  | call c => cases h
  | step control frames =>
    change control.invocation? frames = none at h
    simp only [deed, Control.deed, h]
  | endow name d => rfl

/-- No fade is made without a call, unless the host gives it. -/
theorem made_of_not_invocation {m : Moment} (h : m.invocation? = none) :
    m.deed.made = none ∨ ∃ name d, m.act = .endow name d := by
  obtain ⟨runner, w, act⟩ := m
  cases act with
  | call c => cases h
  | step control frames =>
    change control.invocation? frames = none at h
    exact .inl (by simp only [deed, Control.deed, h])
  | endow name d => exact .inr ⟨name, d, rfl⟩

/-- **What a moment does** is its deed. -/
theorem does (m : Moment) : World.Does m.deed m.world m.after := by
  obtain ⟨runner, w, act⟩ := m
  cases act with
  | call c => exact Machine.does_call runner.place w c
  | step control frames => exact Machine.does_step runner.place w control frames
  | endow name d =>
    have hassign (w : World) (v : Value) :
        w.Calm (some (.global name)) (w.withRealm (w.setGlobal name v)) :=
      World.Calm.assign w [] name v
    cases d with
    | value v => exact (hassign w v).does
    | object o =>
      have hmade : World.Does ⟨none, (Datum.object o).fade?, none⟩ w (w.newObject o).2 :=
        (Effect.make o).does_reply
      have hgiven := hassign (w.newObject o).2 (w.newObject o).1
      refine ⟨hgiven.sent.trans hmade.sent, fun x hx => hgiven.has x (hmade.has x hx),
        fun x hx hne => ?_, fun id f hf => hmade.fades id f (hgiven.fades id f hf)⟩
      exact (hgiven.kept x (hmade.has x hx) hne).trans (hmade.kept x hx nofun)

end Moment

/-! ### Runs -/

namespace Machine

variable {runner : Runner} {w w' : World} {next : Next} {ms : List Moment} {halt : Halt}

/-- The moments of a run of at most `fuel` steps. -/
def moments (runner : Runner) : Nat → Next → List Moment
  | fuel + 1, .running w control frames =>
    ⟨runner, w, .step control frames⟩ :: moments runner fuel (step runner.place w control frames)
  | 0, .running .. | _, .halted .. => []

/-- A run with its moments, up to the point where the script stops. -/
inductive Running (runner : Runner) : Next → List Moment → Halt → World → Prop
  | halted (w : World) (halt : Halt) : Running runner (.halted w halt) [] halt w
  | step {w w' : World} {control : Control} {frames : List Frame} {ms : List Moment} {halt : Halt}
      (h : Running runner (step runner.place w control frames) ms halt w') :
      Running runner (.running w control frames) (⟨runner, w, .step control frames⟩ :: ms) halt w'

/-- A script that stops has run through its moments. -/
theorem running_of_run {fuel : Nat} (h : run runner.place fuel next = some (halt, w')) :
    Running runner next (moments runner fuel next) halt w' := by
  induction fuel generalizing next with
  | zero =>
    cases next with
    | running => cases h
    | halted w halt' =>
      obtain ⟨rfl, rfl⟩ := Prod.mk.inj (Option.some.inj h)
      exact .halted w _
  | succ fuel ih =>
    cases next with
    | running w control frames => exact .step (ih h)
    | halted w halt' =>
      obtain ⟨rfl, rfl⟩ := Prod.mk.inj (Option.some.inj h)
      exact .halted w _

theorem Running.runner_eq (h : Running runner next ms halt w') :
    ∀ m ∈ ms, m.runner = runner := by
  induction h with
  | halted => exact fun _ hm => absurd hm List.not_mem_nil
  | step _ ih => exact List.forall_mem_cons.mpr ⟨rfl, ih⟩

/-- A moment of a run is a step, and the run goes on from what it leads to. -/
theorem Running.split {before rest : List Moment} {m : Moment}
    (h : Running runner next (before ++ m :: rest) halt w') :
    ∃ control frames, m.act = .step control frames ∧
      Running runner (Machine.step runner.place m.world control frames) rest halt w' := by
  induction before generalizing next with
  | nil =>
    cases h with
    | step h => exact ⟨_, _, rfl, h⟩
  | cons first before ih =>
    cases h with
    | step h => exact ih h

/-- The run goes on from the call that is made at a moment. -/
theorem Running.after_invocation {before rest : List Moment} {m : Moment} {c : Invocation}
    (h : Running runner next (before ++ m :: rest) halt w') (hc : m.invocation? = some c) :
    Running runner (call runner.place m.world c.callee c.args c.frames) rest halt w' := by
  obtain ⟨control, frames, hact, hrest⟩ := h.split
  unfold Moment.invocation? at hc
  rw [hact] at hc
  rwa [step_of_invocation hc] at hrest

/-- A script with its moments, from where it begins to where it stops. It may begin with a call from
outside. -/
inductive Played (runner : Runner) : List Moment → Halt → World → Prop
  | steps {next : Next} {ms : List Moment} {halt : Halt} {w' : World}
      (h : Running runner next ms halt w') : Played runner ms halt w'
  | call {w w' : World} {c : Invocation} {ms : List Moment} {halt : Halt}
      (h : Running runner (Machine.call runner.place w c.callee c.args c.frames) ms halt w') :
      Played runner (⟨runner, w, .call c⟩ :: ms) halt w'

theorem Played.runner_eq (h : Played runner ms halt w') : ∀ m ∈ ms, m.runner = runner := by
  cases h with
  | steps h => exact h.runner_eq
  | call h => exact List.forall_mem_cons.mpr ⟨rfl, h.runner_eq⟩

/-- The script goes on from the call that is made at a moment. -/
theorem Played.after_invocation {before rest : List Moment} {m : Moment} {c : Invocation}
    (h : Played runner (before ++ m :: rest) halt w') (hc : m.invocation? = some c) :
    Running runner (Machine.call runner.place m.world c.callee c.args c.frames) rest halt w' := by
  generalize hms : before ++ m :: rest = ms at h
  -- the call from outside is a moment like the steps, and it comes first
  cases h with
  | steps h =>
    subst hms
    exact h.after_invocation hc
  | call h =>
    cases before with
    | nil =>
      obtain ⟨rfl, rfl⟩ := List.cons.inj hms
      obtain rfl := Option.some.inj hc
      exact h
    | cons first before =>
      obtain ⟨-, rfl⟩ := List.cons.inj hms
      exact h.after_invocation hc

end Machine

/-! ### Records -/

namespace World

variable {w w' w'' : World} {ms ms' : List Moment} {m : Moment}

/-- What has happened between two worlds. -/
inductive Record : World → List Moment → World → Prop
  | nil {w w' : World} (h : w.Calm none w') : Record w [] w'
  | cons {w w' : World} {m : Moment} {ms : List Moment} (h : w.Calm none m.world)
      (hrest : Record m.after ms w') : Record w (m :: ms) w'

namespace Record

protected theorem refl (w : World) : Record w [] w := .nil (.refl w)

/-- A record may begin where nothing that matters has happened yet. -/
theorem of_calm (h : w.Calm none w') (hrecord : Record w' ms w'') : Record w ms w'' := by
  cases hrecord with
  | nil h' => exact .nil (h.trans h')
  | cons h' hrest => exact .cons (h.trans h') hrest

protected theorem trans (h : Record w ms w') (h' : Record w' ms' w'') :
    Record w (ms ++ ms') w'' := by
  induction h with
  | nil h => exact of_calm h h'
  | cons h _ ih => exact .cons h (ih h')

/-- A record is one of what was before a moment and one of what came after it. -/
theorem split {before : List Moment} (h : Record w (before ++ m :: ms) w') :
    Record w before m.world ∧ Record m.after ms w' := by
  induction before generalizing w with
  | nil =>
    cases h with
    | cons h hrest => exact ⟨.nil h, hrest⟩
  | cons first before ih =>
    cases h with
    | cons h hrest =>
      obtain ⟨hbefore, hafter⟩ := ih hrest
      exact ⟨.cons h hbefore, hafter⟩

/-- **What is sent is what is said at the moments**, in their order. -/
theorem sent (h : Record w ms w') : w'.sent = w.sent ++ ms.filterMap fun m => m.deed.said := by
  -- nothing is sent between two moments, and each of them sends what it says
  induction h with
  | nil h => exact h.sent.trans (List.append_nil _).symm
  | @cons w w' m ms h _ ih =>
    rw [ih, m.does.sent, h.sent, List.append_assoc, List.filterMap_cons]
    cases m.deed.said <;> rfl

/-- **A variable keeps its value** unless there is a moment at which it is given another. -/
theorem kept (h : Record w ms w') {x : Variable} (hx : w.HasVariable x)
    (hne : ∀ m ∈ ms, m.deed.touched ≠ some x) : w'.valueOf x = w.valueOf x := by
  induction h with
  | nil h => exact h.kept x hx nofun
  | @cons w w' m ms h _ ih =>
    obtain ⟨hm, hne⟩ := List.forall_mem_cons.mp hne
    have hx' := h.has x hx
    rw [ih (m.does.has x hx') hne, m.does.kept x hx' hm, h.kept x hx nofun]

/-- **Every fade was there before or is made at a moment.** -/
theorem fades (h : Record w ms w') {id : Nat} {f : Interpolator}
    (hf : w'.heap.objects[id]? = some (.fade f)) :
    w.heap.objects[id]? = some (.fade f) ∨ ∃ m ∈ ms, m.deed.made = some f := by
  induction h with
  | nil h => exact .inl (h.fades id f hf)
  | @cons w w' m ms h _ ih =>
    obtain hbefore | ⟨m', hm', hmade⟩ := ih hf
    · obtain hbefore | hmade := m.does.fades id f hbefore
      · exact .inl (h.fades id f hbefore)
      · exact .inr ⟨m, List.mem_cons_self, hmade⟩
    · exact .inr ⟨m', List.mem_cons_of_mem m hm', hmade⟩

end Record

/-- A run is recorded by its moments. -/
theorem record_of_running {runner : Runner} {next : Next} {halt : Halt}
    (h : Machine.Running runner next ms halt w') : Record next.world ms w' := by
  induction h with
  | halted w halt => exact .refl w
  | @step w w' control frames ms halt _ ih => exact .cons (.refl w) ih

end World

end KeyLight
