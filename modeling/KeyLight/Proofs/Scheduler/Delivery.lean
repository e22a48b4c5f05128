import Mathlib.Data.List.Pairwise
import KeyLight.Proofs.Scheduler.Final

/-!
# How failures are handed over

The failures that were handed over in the course of a run, and those that are still to be taken, are
the failures of its visits, in their order (`Run.failures_eq`). A thread stops in one visit only, so
no thread has two of them (`Lasts.nodup_failures`), and a thread that broke the rules has none
(`Lasts.thread_ne_of_isStray`).
-/

namespace KeyLight

variable {ρ : Type}

/-- A thread that comes back without asking to be resumed again has stopped. -/
theorem Outcome.exists_last? {o : Outcome ρ} (h : o.isSuspended = false) :
    ∃ state, o.last? = some state ∧ state.isTerminal = true := by
  cases o with
  | finished | failed _ | stray _ => exact ⟨_, rfl, rfl⟩
  | suspended _ _ => cases h

namespace Visit

theorem outcome_of_failure? {v : Visit ρ} {f : Failure} (h : v.failure? = some f) :
    v.outcome = .failed f.message := by
  unfold failure? at h
  cases ho : v.outcome with
  | failed message =>
    rw [ho, Outcome.failure?, Option.some.injEq] at h
    rw [← h]
  | finished | suspended _ _ | stray _ =>
    rw [ho] at h
    cases h

theorem outcome_of_violation? {v : Visit ρ} {x : Violation} (h : v.violation? = some x) :
    v.id = x.thread ∧ v.outcome = .stray x.found := by
  unfold violation? at h
  cases ho : v.outcome with
  | stray found =>
    rw [ho, Outcome.violation?, Option.some.injEq] at h
    rw [← h]
    exact ⟨rfl, rfl⟩
  | finished | suspended _ _ | failed _ =>
    rw [ho] at h
    cases h

end Visit

namespace Scheduler

variable {s s' : Scheduler ρ} {visits : List (Visit ρ)} {e : Event ρ} {events : List (Event ρ)}

/-! ### What is noted in a run -/

/-- What is handed over and what is left are what was there before and what the visits failed
with. -/
theorem Step.failures_eq (hidle : s.Idle) (h : Step s e s') :
    e.delivered ++ s'.failures = s.failures ++ e.visits.filterMap Visit.failure? := by
  cases h with
  | start routine => exact (Grows.refl.spawn routine).failures_eq.trans (List.append_nil _).symm
  | collect held => exact (Grows.refl.collect held).failures_eq.trans (List.append_nil _).symm
  | take => rfl
  | cancel =>
    rw [cancelAll_eq, failures_reap, failures_updateAll]
    exact (List.append_nil _).symm
  | tick h hstarted hholds =>
    obtain ⟨-, -, -, rfl, -, rfl⟩ | ⟨-, hticked⟩ :=
      Step.tick_cases hidle (.tick h hstarted hholds)
    · exact (List.append_nil _).symm
    · exact hticked.failures_eq

/-- **No failure is lost and none is made up**: what was handed over in a run, followed by what is
left, is what the visits of the run failed with. -/
theorem Run.failures_eq (hidle : s.Idle) (h : Run s events s') :
    events.flatMap Event.delivered ++ s'.failures =
      s.failures ++ (events.flatMap Event.visits).filterMap Visit.failure? := by
  induction h with
  | nil => exact (List.append_nil _).symm
  | @snoc events e s₁ s₂ hrun hstep ih =>
    simp only [List.flatMap_append, List.flatMap_singleton, List.filterMap_append]
    rw [List.append_assoc, hstep.failures_eq (hrun.idle hidle), ← List.append_assoc, ih,
      List.append_assoc]

theorem Step.poison_eq (hidle : s.Idle) (h : Step s e s') :
    s'.poison = (e.visits.filterMap Visit.violation?).getLast?.or s.poison := by
  cases h with
  | start routine => exact (Grows.refl.spawn routine).poison_eq
  | collect held => exact (Grows.refl.collect held).poison_eq
  | take => rfl
  | cancel => rw [cancelAll_eq, poison_reap, poison_updateAll]; rfl
  | tick h hstarted hholds =>
    obtain ⟨-, -, -, rfl, -, rfl⟩ | ⟨hpoison, hticked⟩ :=
      Step.tick_cases hidle (.tick h hstarted hholds)
    · rfl
    · rw [hticked.poison_eq, hpoison, Option.or_none]
      rfl

/-- If a thread has broken the rules, it did so before the run or in one of its visits. -/
theorem Run.poison_eq (hidle : s.Idle) (h : Run s events s') :
    s'.poison =
      ((events.flatMap Event.visits).filterMap Visit.violation?).getLast?.or s.poison := by
  induction h with
  | nil => rfl
  | @snoc events e s₁ s₂ hrun hstep ih =>
    rw [hstep.poison_eq (hrun.idle hidle), ih, ← Option.or_assoc, ← List.getLast?_append,
      ← List.filterMap_append, List.flatMap_append, List.flatMap_singleton]

/-! ### Threads stop once -/

namespace Lasts

/-- A thread is not visited again after the visit in which it stopped. -/
theorem stops_once (h : Lasts s visits s') :
    visits.Pairwise fun u v => u.outcome.isSuspended = false → v.id ≠ u.id :=
  h.between.imp_of_mem fun {u v} _ hv ⟨_, hended⟩ hstopped heq => by
    obtain ⟨state, hlast, hterminal⟩ := Outcome.exists_last? hstopped
    have hstate := hended state hlast
    rw [← heq, h.running v hv] at hstate
    obtain rfl := Option.some.inj hstate
    cases hterminal

/-- So the visits in which one thread stopped are one visit. -/
theorem outcome_eq (h : Lasts s visits s') {u v : Visit ρ} (hu : u ∈ visits) (hv : v ∈ visits)
    (hid : u.id = v.id) (hstopped : u.outcome.isSuspended = false)
    (hstopped' : v.outcome.isSuspended = false) : u.outcome = v.outcome := by
  let Same (u v : Visit ρ) : Prop := u.id = v.id → u.outcome.isSuspended = false →
    v.outcome.isSuspended = false → u.outcome = v.outcome
  have hforward : visits.Pairwise Same :=
    h.stops_once.imp fun honce hid hstopped _ => absurd hid.symm (honce hstopped)
  have hbackward : visits.Pairwise (flip Same) :=
    hforward.imp fun hsame hid hv hu => (hsame hid.symm hu hv).symm
  have hall := List.Pairwise.forall_of_forall_of_flip (fun _ _ _ _ _ => rfl) hforward hbackward
  exact hall hu hv hid hstopped hstopped'

/-- **No thread fails twice.** -/
theorem nodup_failures (h : Lasts s visits s') :
    ((visits.filterMap Visit.failure?).map Failure.thread).Nodup := by
  rw [List.Nodup, List.pairwise_map, List.pairwise_filterMap]
  refine h.stops_once.imp fun {u v} honce f hf g hg => ?_
  rw [Visit.id_of_failure? hf, Visit.id_of_failure? hg]
  exact (honce (by rw [Visit.outcome_of_failure? hf]; rfl)).symm

/-- A thread that failed is in the state that tells so. -/
theorem state?_of_failure (h : Lasts s visits s') {f : Failure}
    (hf : f ∈ visits.filterMap Visit.failure?) : s'.state? f.thread = some .errored := by
  obtain ⟨v, hv, hfailure⟩ := List.mem_filterMap.mp hf
  rw [Visit.id_of_failure? hfailure]
  exact (h.after v hv).2 .errored (by rw [Visit.outcome_of_failure? hfailure]; rfl)

/-- A thread that broke the rules has no failure. -/
theorem thread_ne_of_isStray (h : Lasts s visits s') {f : Failure}
    (hf : f ∈ visits.filterMap Visit.failure?) {v : Visit ρ} (hv : v ∈ visits)
    (hstray : v.outcome.isStray = true) : f.thread ≠ v.id := fun heq => by
  obtain ⟨u, hu, hfailure⟩ := List.mem_filterMap.mp hf
  have hfailed := Visit.outcome_of_failure? hfailure
  have hstopped : v.outcome.isSuspended = false := by
    cases ho : v.outcome with
    | finished | failed _ | stray _ => rfl
    | suspended _ _ =>
      rw [ho] at hstray
      cases hstray
  have hsame := h.outcome_eq hu hv ((Visit.id_of_failure? hfailure).symm.trans heq)
    (by rw [hfailed]; rfl) hstopped
  rw [← hsame, hfailed] at hstray
  cases hstray

end Lasts

end Scheduler

end KeyLight
