import KeyLight.Proofs.Machine.Moment
import KeyLight.Proofs.Machine.Native
import KeyLight.Proofs.Number.Float
import KeyLight.Proofs.World.Thread

/-!
# Faults that scripts catch, and calls that wait

A fault gives up the frames of a script, one after the other, up to the innermost one that guards,
and the script goes on there (`Machine.Running.caught`). Without one the script stops
(`Machine.Running.uncaught`).

The capability to wait raises a fault if its first argument holds no finite number, and leaves the
world as it is. Otherwise it suspends a thread around the call, for as many seconds or for none if
the number is negative. On the main script it fails then as well, and does nothing to the scheduler.
-/

namespace KeyLight

/-! ### Faults -/

namespace Machine

variable {place : Place} {runner : Runner} {w w' : World} {f : Fault} {frames : List Frame}
  {ms : List Moment} {halt : Halt}

theorem step_raise {frame : Frame} (h : frame ≠ .guard) :
    step place w (.raise f) (frame :: frames) = .running w (.raise f) frames := by
  cases frame with
  | guard => exact absurd rfl h
  | operands | block | loop | count | call => rfl

/-- **A fault is caught at the innermost frame that guards.** Nothing happens to the world until
then. -/
theorem Running.caught {inner outer : List Frame} (hinner : Frame.guard ∉ inner)
    (h : Running runner (.running w (.raise f) (inner ++ .guard :: outer)) ms halt w') :
    ∃ unwinding later,
      ms = unwinding ++ ⟨runner, w, .step (.give (.ofString f.guardedText)) outer⟩ :: later ∧
      ∀ u ∈ unwinding, u.runner = runner ∧ u.world = w := by
  -- each frame above the guard is given up in a step of its own
  induction inner generalizing ms with
  | nil =>
    cases h with
    | step h =>
      change Running runner (.running w (.give (.ofString f.guardedText)) outer) _ halt w' at h
      cases h with
      | step h => exact ⟨[_], _, rfl, List.forall_mem_singleton.mpr ⟨rfl, rfl⟩⟩
  | cons frame inner ih =>
    obtain ⟨hframe, hinner⟩ := List.ne_and_not_mem_of_not_mem_cons hinner
    cases h with
    | step h =>
      change Running runner (Machine.step _ _ _ (frame :: (inner ++ _))) _ halt w' at h
      rw [step_raise (Ne.symm hframe)] at h
      obtain ⟨unwinding, later, rfl, hunwinding⟩ := ih hinner h
      exact ⟨_ :: unwinding, later, rfl, List.forall_mem_cons.mpr ⟨⟨rfl, rfl⟩, hunwinding⟩⟩

/-- A fault that no frame guards against stops the script. -/
theorem Running.uncaught (hframes : Frame.guard ∉ frames)
    (h : Running runner (.running w (.raise f) frames) ms halt w') : halt = .raised f := by
  induction frames generalizing ms with
  | nil =>
    cases h with
    | step h =>
      change Running runner (.halted w (.raised f)) _ halt w' at h
      cases h
      rfl
  | cons frame frames ih =>
    obtain ⟨hframe, hframes⟩ := List.ne_and_not_mem_of_not_mem_cons hframes
    cases h with
    | step h =>
      rw [step_raise (Ne.symm hframe)] at h
      exact ih hframes h

end Machine

/-- The call at a moment raises a fault. If a frame guards, the script goes on at the innermost one
with the text of the fault, and nothing happens until then. -/
structure Moment.Raises (m : Moment) (c : Invocation) (f : Fault) (rest : List Moment) : Prop where
  raised : Machine.call m.runner.place m.world c.callee c.args c.frames =
    .running m.after (.raise f) c.frames
  caught : ∀ inner outer, c.frames = inner ++ .guard :: outer → Frame.guard ∉ inner →
    ∃ unwinding later,
      rest = unwinding ++ ⟨m.runner, m.after, .step (.give (.ofString f.guardedText)) outer⟩ ::
        later ∧
      ∀ u ∈ unwinding, u.runner = m.runner ∧ u.world = m.after

theorem Moment.raises_of_running {m : Moment} {c : Invocation} {f : Fault} {w w' : World}
    {ms : List Moment} {halt : Halt} (later : List Moment) (hc : m.invocation? = some c)
    (hcall : Machine.call m.runner.place m.world c.callee c.args c.frames =
      .running w (.raise f) c.frames)
    (h : Machine.Running m.runner (Machine.call m.runner.place m.world c.callee c.args c.frames)
      ms halt w') : m.after = w ∧ m.Raises c f (ms ++ later) := by
  obtain rfl : m.after = w := by rw [after_of_invocation hc, hcall]; rfl
  refine ⟨rfl, hcall, fun inner outer hframes hinner => ?_⟩
  rw [hcall, hframes] at h
  obtain ⟨unwinding, more, rfl, hunwinding⟩ := h.caught hinner
  exact ⟨unwinding, more ++ later, by rw [List.append_assoc, List.cons_append], hunwinding⟩

/-! ### Calls that wait -/

/-- The number of seconds that a thread waits for is not negative. -/
theorem Binary64.toRat?_seconds {x : Float} {q : Rat} (h : toRat? x = some q) :
    toRat? (if 0.0 < x then x else 0.0) = some (max q 0) := by
  by_cases hpos : 0 < q
  · rw [if_pos ((zero_lt_iff h).mpr hpos), h, max_eq_left (le_of_lt hpos)]
  · rw [if_neg fun hx => hpos ((zero_lt_iff h).mp hx), max_eq_right (not_lt.mp hpos),
      toRat?_zero]

namespace Machine

variable {args : List Value} {x : Float} {q : Rat}

/-- The fault of the capability to wait if its first argument holds no finite number. -/
def waitFault (args : List Value) : Fault :=
  .call (.argument "wait" 1 ("number expected, got " ++ Value.describe args[0]?))

theorem call_wait_of_not (place : Place) (w : World) (frames : List Frame)
    (h : ∀ x q, ¬HoldsNumber args[0]? x q) :
    call place w (.builtin (.capability .wait)) args frames =
      .running w (.raise (waitFault args)) frames := by
  have heffect : Capability.wait.effect w (.ofArguments args) = .error (waitFault args) := by
    simp only [Capability.effect, Stack.finiteNumber_of_not h]
    rfl
  exact callCapability_of_refused place frames heffect

/-- A thread is suspended around the call. -/
theorem call_wait_thread (w : World) (frames : List Frame) (h : HoldsNumber args[0]? x q) :
    ∃ vs w', call .thread w (.builtin (.capability .wait)) args frames =
        .halted w' (.yielded vs frames args) ∧
      World.outcome w'.heap (.yielded vs frames args) =
        .suspended (if 0.0 < x then x else 0.0) (.suspended frames args) := by
  have hx : (Stack.ofArguments args).finiteNumber 1 "wait" = .ok x :=
    Stack.finiteNumber_eq_ok.mpr ⟨q, h⟩
  obtain ⟨vs, w', hcall, houtcome, -⟩ := @World.callCapability_wait w args frames x hx
  exact ⟨vs, w', hcall, houtcome⟩

/-- A thread that waits raises the fault just if the first argument holds no finite number. -/
theorem call_wait_thread_iff (w : World) (frames : List Frame) :
    call .thread w (.builtin (.capability .wait)) args frames =
      .running w (.raise (waitFault args)) frames ↔ ∀ x q, ¬HoldsNumber args[0]? x q := by
  refine ⟨fun hraise x q hx => ?_, call_wait_of_not .thread w frames⟩
  obtain ⟨vs, w', hcall, -⟩ := call_wait_thread w frames hx
  rw [hcall] at hraise
  cases hraise

/-- On the main script waiting always fails, and nothing happens to the scheduler or the clock. -/
theorem call_wait_main (w : World) (args : List Value) (frames : List Frame) :
    ∃ f w', call .main w (.builtin (.capability .wait)) args frames =
        .running w' (.raise f) frames ∧
      w'.scheduler = w.scheduler ∧ w'.context = w.context := by
  by_cases h : ∃ x q, HoldsNumber args[0]? x q
  · obtain ⟨x, q, hx⟩ := h
    have hfinite : (Stack.ofArguments args).finiteNumber 1 "wait" = .ok x :=
      Stack.finiteNumber_eq_ok.mpr ⟨q, hx⟩
    have heffect : Capability.wait.effect w (.ofArguments args) =
        .ok (.make (.suspension ⟨if 0.0 < x then x else 0.0⟩)) := by
      simp only [Capability.effect, hfinite]
      rfl
    exact ⟨_, _, callCapability_wait_of_ok .main frames heffect, rfl, rfl⟩
  · have hnot : ∀ x q, ¬HoldsNumber args[0]? x q := fun x q hx => h ⟨x, q, hx⟩
    exact ⟨waitFault args, w, call_wait_of_not .main w frames hnot, rfl, rfl⟩

end Machine

end KeyLight
