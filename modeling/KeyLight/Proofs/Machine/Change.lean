import KeyLight.Proofs.Machine.Confinement

/-!
# What running scripts changes

A step changes the world only in the ways of `World.Change`, and so does a run of a script. A
script that may get at anything acts within what it can get at, so this is the confinement of steps
and runs (`acts_step`, `acts_run`) with no more said than what is changed.
-/

namespace KeyLight.Machine

variable (place : Place) (w : World) (frames : List Frame)

theorem changes_call (f : Value) (args : List Value) :
    w.Changes (call place w f args frames).world :=
  (after_call (fun _ _ => trivial) w.within_true (fun _ _ => trivial)
    fun _ _ => trivial).acts.changes

/-- **What a step changes.** -/
theorem changes_step (control : Control) : w.Changes (step place w control frames).world :=
  (acts_step w.within_true (fun _ _ => trivial) fun _ _ => trivial).acts.changes

variable {place} {w} {fuel : Nat} {w' : World} {halt : Halt}

/-- What a script changes. -/
theorem changes_runScript {script : List Stmt} (h : runScript fuel w script = some (halt, w')) :
    w.Changes w' :=
  (acts_runScript w.within_true h).1.changes

theorem changes_evaluate {e : Expr} (h : evaluate fuel w e = some (halt, w')) : w.Changes w' :=
  (acts_evaluate w.within_true h).1.changes

theorem changes_runCall {f : Value} {args : List Value}
    (h : runCall fuel w f args = some (halt, w')) : w.Changes w' :=
  (acts_runCall w.within_true (fun _ _ => trivial) (fun _ _ => trivial) h).1.changes

/-- What a thread changes when it goes on. -/
theorem changes_runCoroutine {routine : Coroutine}
    (h : runCoroutine fuel w routine = some (halt, w')) : w.Changes w' :=
  (acts_runCoroutine w.within_true (fun _ _ => trivial) h).1.changes

end KeyLight.Machine
