import KeyLight.Proofs.Environment.History
import KeyLight.Proofs.Scheduler.Delivery

/-!
# Threads that have stopped, and their failures

Whatever the host does, a thread that has stopped stays as it is and is not resumed any more, and
the host gets the failure of each thread that an error stopped exactly once, in the order in which
the threads stopped.
-/

namespace KeyLight.Environment

open Scheduler (Event Ended Final)

variable {e₁ e₂ : Environment} {host : Host} {config : Config}
  {earlier later : List (Event Coroutine)}

/-- **Threads stop for good, and each failure is handed over once.** The first three parts are about
what happens `later`: threads that have stopped keep their state, also while other threads run, and
are not visited; so do those that stop in the meantime. The other parts are about the whole history:
the failures that were handed over and those still to be taken are those of the threads that an
error stopped, in the order of stopping, no thread has two of them, and a thread that finished, was
cancelled or broke the rules has none. -/
theorem stopped_threads_stay_and_fail_once (h₁ : (start host config).Trace earlier e₁)
    (h₂ : e₁.Trace later e₂) :
    (∀ id state, e₁.world.scheduler.state? id = some state → state.isTerminal = true →
      e₂.world.scheduler.state? id = some state ∧
      ∀ v ∈ later.flatMap Event.visits, v.id ≠ id ∧ ∀ m, v.Meets m → m.state? id = some state) ∧
    (∀ v ∈ later.flatMap Event.visits, Ended v e₂.world.scheduler ∧
      ∀ m, v.Meets m → m.Final e₂.world.scheduler) ∧
    ((later.flatMap Event.visits).Pairwise fun u v =>
      (u.outcome.isSuspended = false → v.id ≠ u.id) ∧
      ∀ m', v.Meets m' → Ended u m' ∧ ∀ m, u.Meets m → m.Final m' ∧
        ∀ id state, m.state? id = some state → state.isTerminal = true → v.id ≠ id) ∧
    (earlier ++ later).flatMap Event.delivered ++ e₂.world.scheduler.failures =
      ((earlier ++ later).flatMap Event.visits).filterMap Visit.failure? ∧
    (((earlier ++ later).flatMap Event.delivered ++ e₂.world.scheduler.failures).map
      Failure.thread).Nodup ∧
    ∀ f ∈ (earlier ++ later).flatMap Event.delivered ++ e₂.world.scheduler.failures,
      e₂.world.scheduler.state? f.thread = some .errored ∧
      ∀ x, e₂.world.scheduler.poison = some x → f.thread ≠ x.thread := by
  have hidle : (start host config).world.scheduler.Idle := Scheduler.idle_empty
  have hidle₁ : e₁.world.scheduler.Idle := h₁.run.idle hidle
  have hall : Scheduler.Run (start host config).world.scheduler (earlier ++ later)
      e₂.world.scheduler := h₁.run.trans h₂.run
  have hlater := h₂.run.lasts hidle₁
  have hlasts := hall.lasts hidle
  have hfailures := hall.failures_eq hidle
  rw [show (start host config).world.scheduler.failures = [] from rfl, List.nil_append]
    at hfailures
  refine ⟨fun id state hstate hterminal => ⟨hlater.final id state hstate hterminal,
    fun v hv => ⟨hlater.id_ne hstate hterminal hv, ?_⟩⟩, fun v hv => ⟨(hlater.after v hv).2, ?_⟩,
    ?_, hfailures, ?_, fun f hf => ⟨?_, fun x hx => ?_⟩⟩
  · rintro m ⟨new, hgrows⟩
    exact hgrows.final id state (hlater.before v hv id state hstate hterminal) hterminal
  · rintro m ⟨new, hgrows⟩
    exact hgrows.final_before.trans (hlater.after v hv).1
  · exact hlater.stops_once.and hlater.between_meets
  · rw [hfailures]
    exact hlasts.nodup_failures
  · rw [hfailures] at hf
    exact hlasts.state?_of_failure hf
  · rw [hfailures] at hf
    rw [hall.poison_eq hidle, show (start host config).world.scheduler.poison = none from rfl,
      Option.or_none] at hx
    obtain ⟨v, hv, hviolation⟩ := List.mem_filterMap.mp (List.mem_of_getLast? hx)
    obtain ⟨hid, hstray⟩ := Visit.outcome_of_violation? hviolation
    rw [← hid]
    exact hlasts.thread_ne_of_isStray hf hv (by rw [hstray]; rfl)

/-- An environment with one thread, which fails because it tries to start a thread without saying
what that does. -/
def failing : Environment :=
  let e := start .empty {}
  { e with world := (Effect.startThread e.world (.builtin (.capability .thread)) []).2 }

/-- The thread fails in the first tick. Its failure is handed over then, and the second tick does
not resume it. -/
theorem stopped_threads_stay_and_fail_once_failing :
    ∃ earlier later e₁ e₂, (start .empty {}).Trace earlier e₁ ∧ e₁.Trace later e₂ ∧
      (later.flatMap Event.delivered).map Failure.thread = [1] ∧
      e₂.world.scheduler.failures = [] ∧ e₂.world.scheduler.state? 1 = some .errored ∧
      ∀ v ∈ later.flatMap Event.visits, v.id ≠ 1 := by
  have hruns : (failing.tick 5 0.0).map (fun r =>
      (r.2.takeFailures.1.map Failure.thread, r.2.world.scheduler.state? 1,
        (r.2.takeFailures.2.tick 5 1.0).map fun r => r.2.world.scheduler.failures)) =
      some ([1], some .errored, some []) := rfl
  obtain ⟨⟨result, e₁⟩, htick, heq⟩ := Option.map_eq_some_iff.mp hruns
  obtain ⟨htaken, herrored, hagain⟩ : e₁.takeFailures.1.map Failure.thread = [1] ∧
      e₁.world.scheduler.state? 1 = some .errored ∧
      (e₁.takeFailures.2.tick 5 1.0).map (fun r => r.2.world.scheduler.failures) = some [] := by
    simpa using heq
  obtain ⟨⟨result', e₂⟩, htick', hfailures⟩ := Option.map_eq_some_iff.mp hagain
  have hspawn : (start .empty {}).world.spawn (.builtin (.capability .thread)) [] .object =
      .ok (Effect.startThread (start .empty {}).world (.builtin (.capability .thread)) []) := rfl
  obtain ⟨earlier, h₁⟩ := exists_trace (.tail (.single (.spawn hspawn)) (.tick htick))
  obtain ⟨events, hrun⟩ := run_tick htick'
  have h₂ : e₁.Trace ([] ++ [.taken e₁.takeFailures.1] ++ events) e₂ :=
    (Trace.nil.snoc .take).snoc (.other (.tick htick') hrun)
  have hquiet : events.flatMap Event.delivered = [] := List.flatMap_eq_nil_iff.mpr hrun.quiet
  obtain ⟨hstay, -⟩ := stopped_threads_stay_and_fail_once h₁ h₂
  obtain ⟨hstate, hunvisited⟩ := hstay 1 .errored herrored rfl
  refine ⟨earlier, _, e₁, e₂, h₁, h₂, ?_, hfailures, hstate, fun v hv => (hunvisited v hv).1⟩
  rw [List.flatMap_append, hquiet, List.append_nil]
  exact (congrArg (List.map Failure.thread) (List.append_nil _)).trans htaken

end KeyLight.Environment
