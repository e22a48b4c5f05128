import KeyLight.Proofs.Machine.Plain
import KeyLight.Proofs.Scheduler.Visit

/-!
# How a thread gives up control

`Reaches` leads from a point in the course of a script to a later one. A thread that comes back with
something that is no request has reached a statement of its script that gives up control, and one
that reached such a statement comes back so, whatever values it gave (`isStray_outcome_iff`). This
holds of scripts that cannot get hold of a suspension. A thread that only waits never reaches such a
statement.
-/

namespace KeyLight.Machine

open Relation

variable {place : Place} {w w' : World} {halt : Halt} {frames : List Frame}

/-! ### Points in the course of a script -/

/-- One step leads from one point to the other. -/
inductive Steps (place : Place) : Next → Next → Prop
  | step (w : World) (control : Control) (frames : List Frame) :
      Steps place (.running w control frames) (step place w control frames)

theorem Steps.eq_step {next next' : Next} (h : Steps place next next') :
    ∃ w control frames, next = .running w control frames ∧
      next' = Machine.step place w control frames := by
  cases h with
  | step w control frames => exact ⟨w, control, frames, rfl, rfl⟩

/-- Steps lead from one point to the other. -/
def Reaches (place : Place) : Next → Next → Prop := ReflTransGen (Steps place)

theorem Steps.rightUnique (place : Place) : Relator.RightUnique (Steps place) := by
  rintro _ _ _ ⟨w, control, frames⟩ ⟨⟩
  rfl

/-- A script that stopped has no other point ahead. -/
theorem Reaches.eq_of_halted {next : Next} (h : Reaches place (.halted w halt) next) :
    next = .halted w halt := by
  obtain heq | ⟨_, hstep, -⟩ := ReflTransGen.cases_head h
  · exact heq.symm
  · cases hstep

/-- A script that stops reaches the point where it did. -/
theorem reaches_of_run {fuel : Nat} {next : Next} (h : run place fuel next = some (halt, w)) :
    Reaches place next (.halted w halt) := by
  induction fuel generalizing next with
  | zero =>
    cases next with
    | running => cases h
    | halted w' halt' =>
      obtain ⟨rfl, rfl⟩ := Prod.mk.inj (Option.some.inj h)
      exact .refl
  | succ fuel ih =>
    cases next with
    | running w control frames => exact (ih h).head (.step w control frames)
    | halted w' halt' =>
      obtain ⟨rfl, rfl⟩ := Prod.mk.inj (Option.some.inj h)
      exact .refl

/-- All points of a script that stops are before the point where it does. -/
theorem Reaches.halted {first next : Next} (hlast : Reaches place first (.halted w halt))
    (h : Reaches place first next) : Reaches place next (.halted w halt) := by
  rcases ReflTransGen.total_of_right_unique (Steps.rightUnique place) h hlast with hbefore | hafter
  · exact hbefore
  · rw [Reaches.eq_of_halted hafter]
    exact .refl

/-- **No point in the course of a script has a suspension at hand**, if the first one has none. -/
theorem Reaches.plain {first next : Next} (h : Reaches place first next) (hfirst : first.Plain) :
    next.Plain := by
  induction h with
  | refl => exact hfirst
  | tail _ hstep ih =>
    cases hstep with
    | step w control frames =>
      obtain ⟨hcontrol, hframes⟩ := Heap.plain_append.mp ih.nodes
      exact (plain_step ih.world hcontrol hframes).toPlain

/-- The objects are kept in the course of a script. -/
theorem Reaches.keeps {first next : Next} (h : Reaches place first next) (hfirst : first.Plain) :
    first.world.heap.Keeps next.world.heap := by
  induction h with
  | refl => exact .refl _
  | tail hreaches hstep ih =>
    have hplain := Reaches.plain hreaches hfirst
    cases hstep with
    | step w control frames =>
      obtain ⟨hcontrol, hframes⟩ := Heap.plain_append.mp hplain.nodes
      exact ih.trans (plain_step hplain.world hcontrol hframes).keeps

/-! ### Threads -/

/-- The point at which a thread goes on. -/
def entry (w : World) (routine : Coroutine) : Next := goOn w routine.passed routine

theorem entry_fresh (w : World) (f : Value) (args : List Value) :
    entry w (.fresh f args) = call .thread w f args [] :=
  congrArg (fun values => call .thread w f values []) (Coroutine.passed_fresh f args)

theorem runCoroutine_eq (fuel : Nat) (w : World) (routine : Coroutine) :
    runCoroutine fuel w routine = run .thread fuel (entry w routine) := rfl

/-- A thread whose routine is plain begins with nothing else at hand. -/
theorem plain_entry (hw : w.Plain) {routine : Coroutine}
    (hroutine : w.heap.Plain routine.nodes) : (entry w routine).PlainAfter w.heap false := by
  have hkeeps := Heap.Keeps.refl w.heap
  cases routine with
  | fresh f args =>
    rw [Coroutine.nodes_fresh] at hroutine
    obtain ⟨hf, hargs⟩ := Heap.plain_append.mp hroutine
    rw [entry_fresh]
    exact plain_call hkeeps hw (Heap.plain_nil _) hf hargs
  | suspended frames kept =>
    obtain ⟨hframes, -⟩ := Heap.plain_append.mp hroutine
    exact .running hkeeps hw (Heap.plain_nil _) hframes

/-- A statement that gives up control stops a thread. -/
theorem exists_step_of_yields {control : Control} (h : control.yields frames = true) :
    ∃ vs rest, step .thread w control frames = .halted w (.yielded vs rest []) := by
  unfold Control.yields at h
  split at h
  · exact ⟨_, _, rfl⟩
  · rename_i op done scope rest
    cases op with
    | yield => exact ⟨_, _, rfl⟩
    | call | send | apply | index | length | not | binary | table | assign | put | discard | raise
    | finish | branch | loop | count => cases h
  · cases h

/-- A thread that gives up control with a request is resumed later. -/
theorem isStray_outcome_of_requests {h : Heap} {vs kept : List Value} (hvs : h.Requests vs) :
    (World.outcome h (.yielded vs frames kept)).isStray = false := by
  obtain ⟨s, hs⟩ := hvs
  simp only [World.outcome, hs]
  rfl

/-- A thread that gives up control with anything else breaks the rules. -/
theorem isStray_outcome_of_plain {h : Heap} {vs kept : List Value}
    (hvs : h.Plain (vs.flatMap Value.nodes)) :
    (World.outcome h (.yielded vs frames kept)).isStray = true := by
  have hrequest : ∀ s, vs.head?.bind h.object? ≠ some (.suspension s) := fun s hs => by
    obtain ⟨v, hv, hobject⟩ := Option.bind_eq_some_iff.mp hs
    exact (Heap.plain_flatMap.mp hvs v (List.mem_of_head? hv)).type_ne hobject rfl
  -- by `hrequest` the other case does not apply
  have houtcome : World.outcome h (.yielded vs frames kept) = .stray (World.firstKind vs) := by
    simp only [World.outcome]
  rw [houtcome]
  rfl

/-- A thread that stops, but not by a statement that gives up control, does not break the rules. -/
theorem isStray_outcome_of_implicit {h : Heap}
    (hafter : (Next.halted w halt).PlainAfter h false) :
    (World.outcome w.heap halt).isStray = false := by
  cases halt with
  | returned v => rfl
  | raised f => rfl
  | yielded vs rest kept => exact isStray_outcome_of_requests (hafter.yielded w vs rest kept rfl)

/-- The thread reaches a statement of its script that gives up control. -/
def YieldsExplicitly (w : World) (routine : Coroutine) : Prop :=
  ∃ w' control frames, Reaches .thread (entry w routine) (.running w' control frames) ∧
    control.yields frames = true

/-- **A thread breaks the rules just if it reaches a statement that gives up control.** -/
theorem isStray_outcome_iff (hw : w.Plain) {routine : Coroutine}
    (hroutine : w.heap.Plain routine.nodes) {fuel : Nat}
    (h : runCoroutine fuel w routine = some (halt, w')) :
    (World.outcome w'.heap halt).isStray = true ↔ YieldsExplicitly w routine := by
  rw [runCoroutine_eq] at h
  have hlast := reaches_of_run h
  have hfirst := plain_entry hw hroutine
  -- what holds after the step from a point of the course, if it is the last one
  have last {w₁ : World} {control : Control} {rest : List Frame}
      (hreaches : Reaches .thread (entry w routine) (.running w₁ control rest))
      (hstep : step .thread w₁ control rest = .halted w' halt) :
      (Next.halted w' halt).PlainAfter w₁.heap (control.yields rest) := by
    have hplain := hreaches.plain hfirst.toPlain
    obtain ⟨hcontrol, hrest⟩ := Heap.plain_append.mp hplain.nodes
    exact hstep ▸ plain_step hplain.world hcontrol hrest
  constructor
  · intro hstray
    obtain heq | ⟨next, hreaches, hsteps⟩ := ReflTransGen.cases_tail hlast
    · rw [← heq] at hfirst
      rw [isStray_outcome_of_implicit hfirst] at hstray
      cases hstray
    · obtain ⟨w₁, control, rest, rfl, hstep⟩ := hsteps.eq_step
      refine ⟨w₁, control, rest, hreaches, ?_⟩
      cases hyields : control.yields rest with
      | true => rfl
      | false =>
        rw [isStray_outcome_of_implicit (hyields ▸ last hreaches hstep.symm)] at hstray
        cases hstray
  · rintro ⟨w₁, control, rest, hreaches, hyields⟩
    obtain ⟨vs, rest', hstep⟩ := exists_step_of_yields (w := w₁) hyields
    -- the thread stops at this step, so this is how it came back
    have hstops : Reaches .thread (entry w routine) (.halted w₁ (.yielded vs rest' [])) :=
      hstep ▸ hreaches.tail (.step w₁ control rest)
    obtain ⟨rfl, rfl⟩ := Next.halted.inj (hlast.halted hstops).eq_of_halted
    have hafter := last hreaches hstep
    rw [hyields] at hafter
    exact isStray_outcome_of_plain (hafter.yielded _ vs rest' [] rfl)

/-! ### Threads that only wait -/

/-- How a script goes on that waits: the attempt fails, or the thread is suspended with a request,
and goes on with nil in its place. -/
def WaitsForNil (place : Place) (frames : List Frame) (next : Next) : Prop :=
  (∃ w f, next = .running w (.raise f) frames) ∨
    place = .thread ∧ ∃ w vs kept, next = .halted w (.yielded vs frames kept) ∧
      w.heap.Requests vs ∧ ∀ w', entry w' (.suspended frames kept) = .running w' (.give .nil) frames

/-- **A call of the capability to wait gives nil.** On the main script it always fails. -/
theorem waitsForNil_callCapability (hw : w.Plain) {args : List Value}
    (hargs : w.heap.Plain (args.flatMap Value.nodes)) (frames : List Frame) :
    WaitsForNil place frames (callCapability place w .wait args frames) := by
  unfold callCapability
  cases hentry : entryPoint Capability.wait.body w args with
  | mk result w' =>
    obtain ⟨-, -, hresults⟩ := hw.entryPoint hargs .wait hentry
    cases result with
    | error f => exact .inl ⟨w', f, rfl⟩
    | ok vs =>
      cases place with
      | main => exact .inl ⟨w', _, rfl⟩
      | thread => exact .inr ⟨rfl, w', vs, args, rfl, hresults vs rfl, fun _ => rfl⟩

/-- A point after which the thread stops is the last one. -/
theorem Reaches.yields_eq_false {control control' : Control} {frames' : List Frame}
    (hyields : control.yields frames = false)
    (hstep : step .thread w control frames = .halted w halt) {w' : World}
    (h : Reaches .thread (.running w control frames) (.running w' control' frames')) :
    control'.yields frames' = false := by
  obtain heq | ⟨next, hsteps, hreaches⟩ := ReflTransGen.cases_head h
  · obtain ⟨-, rfl, rfl⟩ := Next.running.inj heq
    exact hyields
  · cases hsteps
    rw [hstep] at hreaches
    cases Reaches.eq_of_halted hreaches

/-- A thread whose routine is the capability to wait never reaches a statement that gives up
control. -/
theorem not_yieldsExplicitly_wait (hw : w.Plain) {args : List Value}
    (hargs : w.heap.Plain (args.flatMap Value.nodes)) :
    ¬ YieldsExplicitly w (.fresh (.builtin (.capability .wait)) args) := by
  rintro ⟨w₁, control, frames, hreaches, hyields⟩
  rw [entry_fresh] at hreaches
  change Reaches .thread (callCapability .thread w .wait args []) _ at hreaches
  have hwait : WaitsForNil .thread [] (callCapability .thread w .wait args []) :=
    waitsForNil_callCapability hw hargs []
  obtain ⟨w', f, hfails⟩ | ⟨-, w', vs, kept, hwaits, -⟩ := hwait
  · rw [hfails] at hreaches
    rw [Reaches.yields_eq_false rfl rfl hreaches] at hyields
    cases hyields
  · rw [hwaits] at hreaches
    cases Reaches.eq_of_halted hreaches

/-- Nor does it when it goes on, since nothing is left to do. -/
theorem not_yieldsExplicitly_suspended_nil (w : World) (kept : List Value) :
    ¬ YieldsExplicitly w (.suspended [] kept) := by
  rintro ⟨w₁, control, frames, hreaches, hyields⟩
  rw [Reaches.yields_eq_false rfl rfl hreaches] at hyields
  cases hyields

end KeyLight.Machine
