import KeyLight.Proofs.Scheduler.Effect

/-!
# The invariant of the scheduler

`Idle` holds of a scheduler between two calls of the host: the live threads stand in the order of
starting, each of them has something left to do and has not stopped, every other thread has stopped
or lost its handle, and no thread is running. Inside a tick threads stop before they are dropped, so
there only `Sound` holds, which says the same but that live threads may have stopped.

Whatever threads do while they are visited keeps `Sound` (`Sound.effect`), and dropping the threads
that are done makes a sound scheduler idle again (`Sound.reap`).
-/

namespace KeyLight.Scheduler

variable {ρ : Type}

/-- What holds between two visits. -/
structure Sound (s : Scheduler ρ) : Prop where
  ordered : s.live.Pairwise (· < ·)
  known : ∀ id ∈ s.live, ∃ t, s.thread? id = some t ∧ t.routine.isSome = true
  gone : ∀ id t, s.thread? id = some t → id ∉ s.live →
    t.state.isTerminal = true ∨ t.collected = true
  failed : ∀ f ∈ s.failures, s.state? f.thread = some .errored
  still : ∀ id, s.state? id ≠ some .running

/-- What holds between two calls of the host. -/
structure Idle (s : Scheduler ρ) : Prop extends Sound s where
  pending : ∀ id ∈ s.live, ∀ t, s.thread? id = some t → t.state.isTerminal = false

variable {s s' : Scheduler ρ}

theorem isDone_of_thread? {id : ThreadId} {t : Thread ρ} (h : s.thread? id = some t) :
    s.isDone id = (t.collected || t.state.isTerminal) := by
  simp [isDone, h]

/-- Dropping the threads that are done changes nothing about a thread but its routine. -/
theorem thread?_of_reap {id : ThreadId} {t' : Thread ρ} (h : s.reap.thread? id = some t') :
    ∃ t, s.thread? id = some t ∧ t'.state = t.state ∧ t'.collected = t.collected ∧
      (id ∈ s.reap.live → t'.routine = t.routine) := by
  rw [thread?_reap] at h
  by_cases hdone : id ∈ s.live.filter s.isDone
  · rw [if_pos hdone, Option.map_eq_some_iff] at h
    obtain ⟨t, ht, rfl⟩ := h
    refine ⟨t, ht, rfl, rfl, fun hlive => ?_⟩
    have hnot := (List.mem_filter.mp hlive).2
    rw [(List.mem_filter.mp hdone).2] at hnot
    cases hnot
  · rw [if_neg hdone] at h
    exact ⟨t', h, rfl, rfl, fun _ => rfl⟩

theorem exists_thread?_reap {id : ThreadId} {t : Thread ρ} (h : s.thread? id = some t) :
    ∃ t', s.reap.thread? id = some t' ∧ t'.state = t.state ∧ t'.collected = t.collected ∧
      (id ∈ s.reap.live → t'.routine = t.routine) := by
  obtain ⟨t', ht'⟩ := exists_thread? (s := s.reap) (pos_of_thread? h)
    (by rw [size_reap]; exact le_size_of_thread? h)
  obtain ⟨t₁, ht₁, hsame⟩ := thread?_of_reap ht'
  obtain rfl : t₁ = t := Option.some.inj (ht₁.symm.trans h)
  exact ⟨t', ht', hsame⟩

@[simp] theorem isDone_reap (s : Scheduler ρ) (id : ThreadId) : s.reap.isDone id = s.isDone id := by
  cases h : s.thread? id with
  | none =>
    have hnone : s.reap.thread? id = none := by
      rw [thread?_reap, h]
      exact ite_self none
    simp [isDone, h, hnone]
  | some t =>
    obtain ⟨t', ht', hstate, hcollected, -⟩ := exists_thread?_reap h
    rw [isDone_of_thread? h, isDone_of_thread? ht', hstate, hcollected]

/-! ### What is kept -/

theorem idle_empty : (empty : Scheduler ρ).Idle where
  ordered := .nil
  known := fun _ h => absurd h List.not_mem_nil
  gone := fun id t h => by
    have hpos := pos_of_thread? h
    have hle := le_size_of_thread? h
    exact absurd hpos (Nat.not_lt.mpr hle)
  failed := fun _ h => absurd h List.not_mem_nil
  still := fun id h => by
    obtain ⟨t, ht, -⟩ := state?_eq_some.mp h
    exact absurd (pos_of_thread? ht) (Nat.not_lt.mpr (le_size_of_thread? ht))
  pending := fun _ h => absurd h List.not_mem_nil

theorem Sound.le_size (h : s.Sound) {id : ThreadId} (hid : id ∈ s.live) : id ≤ s.threads.size := by
  obtain ⟨t, ht, -⟩ := h.known id hid
  exact le_size_of_thread? ht

/-- New numbers come after the live ones. -/
theorem Sound.ordered_append (h : s.Sound) {ids : List ThreadId} {n : Nat}
    (hids : Numbered s.threads.size ids n) : (s.live ++ ids).Pairwise (· < ·) := by
  rw [List.pairwise_append]
  refine ⟨h.ordered, hids.pairwise, fun a ha b hb => ?_⟩
  exact Nat.lt_of_le_of_lt (h.le_size ha) (hids.mem_iff.mp hb).1

/-- Visits to live threads that have not stopped keep the scheduler sound. -/
theorem Sound.effect {now : Float} {visits : List (Visit ρ)} {ids : List ThreadId} (h : s.Sound)
    (heffect : Effect now s visits ids s') (hlive : ∀ v ∈ visits, v.id ∈ s.live)
    (hpending : ∀ v ∈ visits, ∀ t, s.thread? v.id = some t → t.state.isTerminal = false) :
    s'.Sound where
  ordered := by
    rw [heffect.live_eq]
    exact h.ordered_append heffect.numbered
  known := fun id hid => by
    rw [heffect.live_eq] at hid
    rcases List.mem_append.mp hid with hold | hnew
    · obtain ⟨t, ht, hroutine⟩ := h.known id hold
      by_cases hvisited : id ∈ visits.map Visit.id
      · obtain ⟨v, hv, rfl⟩ := List.mem_map.mp hvisited
        obtain ⟨t', ht', -, hrest, -⟩ := heffect.visited v hv t ht
        exact ⟨t', ht', by rw [hrest, Option.isSome_or, hroutine, Bool.or_true]⟩
      · obtain ⟨t', ht', hp⟩ := heffect.unvisited id t ht hvisited
        exact ⟨t', ht', hp.routine ▸ hroutine⟩
    · obtain ⟨t', ht', -, hroutine⟩ := heffect.started id hnew
      exact ⟨t', ht', hroutine⟩
  gone := fun id t' ht' hid => by
    rw [heffect.live_eq, List.mem_append, not_or] at hid
    obtain ⟨v, hv, rfl, -⟩ | ⟨t, ht, hp⟩ | ⟨hnew, -⟩ := heffect.thread?_cases ht'
    · exact absurd (hlive v hv) hid.1
    · rw [hp.state]
      exact (h.gone id t ht hid.1).imp_right hp.collected
    · exact absurd hnew hid.2
  failed := fun f hf => by
    rw [heffect.failures_eq] at hf
    rcases List.mem_append.mp hf with hold | hnew
    · obtain ⟨t, ht, herrored⟩ := state?_eq_some.mp (h.failed f hold)
      -- a thread that failed before has stopped, so it is not visited
      have hvisited : f.thread ∉ visits.map Visit.id := fun hmem => by
        obtain ⟨v, hv, hid⟩ := List.mem_map.mp hmem
        have hnot := hpending v hv t (hid ▸ ht)
        rw [herrored] at hnot
        cases hnot
      obtain ⟨t', ht', hp⟩ := heffect.unvisited _ t ht hvisited
      exact state?_eq_some.mpr ⟨t', ht', hp.state.trans herrored⟩
    · obtain ⟨v, hv, hfailure⟩ := List.mem_filterMap.mp hnew
      obtain ⟨t, ht, -⟩ := h.known v.id (hlive v hv)
      obtain ⟨t', ht', hstate, -⟩ := heffect.visited v hv t ht
      cases ho : v.outcome with
      | failed message =>
        rw [Visit.failure?, ho, Outcome.failure?, Option.some.injEq] at hfailure
        subst hfailure
        exact state?_eq_some.mpr ⟨t', ht', by rw [hstate, ho]; rfl⟩
      | finished | suspended _ _ | stray _ =>
        rw [Visit.failure?, ho] at hfailure
        cases hfailure
  still := fun id hrunning => by
    obtain ⟨t', ht', hstate⟩ := state?_eq_some.mp hrunning
    obtain ⟨v, -, -, hback⟩ | ⟨t, ht, hp⟩ | ⟨-, hready⟩ := heffect.thread?_cases ht'
    · exact v.outcome.state_ne_running now (hback.symm.trans hstate)
    · exact h.still id (state?_eq_some.mpr ⟨t, ht, hp.state.symm.trans hstate⟩)
    · rw [hready] at hstate
      cases hstate

/-- Cancelling threads that have not stopped keeps the scheduler sound. -/
theorem Sound.cancel (h : s.Sound) {ids : List ThreadId}
    (hpending : ∀ id ∈ ids, ∀ t, s.thread? id = some t → t.state.isTerminal = false) :
    (s.updateAll ids Thread.cancel).Sound := by
  have hthread := thread?_updateAll (f := Thread.cancel) (fun _ => rfl) s ids
  refine ⟨?_, ?_, ?_, ?_, ?_⟩
  · rw [live_updateAll]
    exact h.ordered
  · intro id hid
    rw [live_updateAll] at hid
    obtain ⟨t, ht, hroutine⟩ := h.known id hid
    rw [hthread, ht]
    split
    · exact ⟨t.cancel, rfl, hroutine⟩
    · exact ⟨t, rfl, hroutine⟩
  · intro id t' ht' hid
    rw [live_updateAll] at hid
    obtain ⟨t, ht, rfl | rfl⟩ := thread?_of_cancel ht'
    · exact h.gone id t' ht hid
    · exact .inl rfl
  · intro f hf
    rw [failures_updateAll] at hf
    obtain ⟨t, ht, herrored⟩ := state?_eq_some.mp (h.failed f hf)
    -- a thread that failed has stopped, so it is not cancelled
    have hid : f.thread ∉ ids := fun hid => by
      have hnot := hpending _ hid t ht
      rw [herrored] at hnot
      cases hnot
    exact state?_eq_some.mpr ⟨t, by rw [hthread, if_neg hid, ht], herrored⟩
  · intro id hrunning
    obtain ⟨t', ht', hstate'⟩ := state?_eq_some.mp hrunning
    obtain ⟨t, ht, rfl | rfl⟩ := thread?_of_cancel ht'
    · exact h.still id (state?_eq_some.mpr ⟨t', ht, hstate'⟩)
    · cases hstate'

/-- Once the threads that are done are dropped, a sound scheduler is idle. -/
theorem Sound.reap (h : s.Sound) : s.reap.Idle where
  ordered := h.ordered.filter _
  known := fun id hid => by
    obtain ⟨hlive, hdone⟩ := List.mem_filter.mp hid
    obtain ⟨t, ht, hroutine⟩ := h.known id hlive
    have hnot : id ∉ s.live.filter s.isDone := fun hmem => by
      rw [(List.mem_filter.mp hmem).2] at hdone
      cases hdone
    exact ⟨t, by rw [thread?_reap, if_neg hnot, ht], hroutine⟩
  gone := fun id t' ht' hid => by
    obtain ⟨t, ht, hstate, hcollected, -⟩ := thread?_of_reap ht'
    rw [hstate, hcollected]
    by_cases hlive : id ∈ s.live
    · have hdone : s.isDone id = true := by simpa [hlive] using hid
      rw [isDone_of_thread? ht, Bool.or_eq_true] at hdone
      exact hdone.symm
    · exact h.gone id t ht hlive
  failed := fun f hf => by
    rw [failures_reap] at hf
    rw [state?_reap]
    exact h.failed f hf
  still := fun id => by
    rw [state?_reap]
    exact h.still id
  pending := fun id hid t' ht' => by
    obtain ⟨t, ht, hstate, -⟩ := thread?_of_reap ht'
    have hdone := (List.mem_filter.mp hid).2
    rw [isDone_of_thread? ht, Bool.not_eq_true', Bool.or_eq_false_iff] at hdone
    rw [hstate]
    exact hdone.2

/-- Starting threads and collecting handles is what a row of no visits does. -/
theorem Grows.effect {ids : List ThreadId} (h : s.Grows ids s') (now : Float) :
    Effect now s [] ids s' where
  numbered := h.numbered
  live_eq := h.live_eq
  failures_eq := h.failures_eq.trans (List.append_nil _).symm
  poison_eq := h.poison_eq
  visited := fun _ hv => absurd hv List.not_mem_nil
  unvisited := fun _ _ ht _ => h.thread?_old ht
  started := fun _ hid => h.thread?_new hid

/-- While one thread of a sound scheduler runs and starts others, it is the only one that does. -/
theorem Sound.state?_eq_running (h : s.Sound) {ids : List ThreadId} {visited id : ThreadId}
    {t : Thread ρ} (ht : s.thread? visited = some t)
    (hgrows : (s.setState visited .running).Grows ids s') :
    s'.state? id = some .running ↔ id = visited := by
  constructor
  · intro hrunning
    obtain ⟨t', ht', hstate⟩ := state?_eq_some.mp hrunning
    obtain ⟨_, hnone, -⟩ | ⟨t₁, ht₁, hp⟩ | ⟨-, hready⟩ := (hgrows.effect 0).thread?_cases ht'
    · exact absurd hnone List.not_mem_nil
    · by_cases hid : id = visited
      · exact hid
      · rw [thread?_setState, if_neg hid] at ht₁
        exact absurd (state?_eq_some.mpr ⟨t₁, ht₁, hp.state.symm.trans hstate⟩) (h.still id)
    · rw [hready] at hstate
      cases hstate
  · rintro rfl
    have hrun : (s.setState id .running).thread? id = some { t with state := .running } := by
      rw [thread?_setState, if_pos rfl, ht]
      rfl
    obtain ⟨t', ht', hp⟩ := hgrows.thread?_old hrun
    exact state?_eq_some.mpr ⟨t', ht', hp.state⟩

/-- Between two calls of the host, threads can be started and handles collected. -/
theorem Idle.grows {ids : List ThreadId} (h : s.Idle) (hgrows : s.Grows ids s') : s'.Idle where
  toSound := h.toSound.effect (hgrows.effect 0) (fun _ hv => absurd hv List.not_mem_nil)
    fun _ hv => absurd hv List.not_mem_nil
  pending := fun id hid t' ht' => by
    rw [hgrows.live_eq] at hid
    rcases List.mem_append.mp hid with hold | hnew
    · obtain ⟨t, ht, -⟩ := h.known id hold
      obtain ⟨t₁, ht₁, hp⟩ := hgrows.thread?_old ht
      obtain rfl : t₁ = t' := Option.some.inj (ht₁.symm.trans ht')
      rw [hp.state]
      exact h.pending id hold t ht
    · obtain ⟨t₁, ht₁, hready, -⟩ := hgrows.thread?_new hnew
      obtain rfl : t₁ = t' := Option.some.inj (ht₁.symm.trans ht')
      rw [hready]
      rfl

theorem Idle.cancelAll (h : s.Idle) : s.cancelAll.2.Idle :=
  (h.toSound.cancel h.pending).reap

theorem Idle.takeFailures (h : s.Idle) : s.takeFailures.2.Idle where
  ordered := h.ordered
  known := h.known
  gone := h.gone
  failed := fun _ hf => absurd hf List.not_mem_nil
  still := h.still
  pending := h.pending

/-- A live thread is ready or waits. -/
theorem Idle.ready_or_waiting (h : s.Idle) {id : ThreadId} (hid : id ∈ s.live) :
    ∃ t, s.thread? id = some t ∧ (t.state = .ready ∨ ∃ wakeAt, t.state = .waiting wakeAt) := by
  obtain ⟨t, ht, -⟩ := h.known id hid
  have hpending := h.pending id hid t ht
  have hstill := h.still id
  rw [state?_of_thread? ht] at hstill
  refine ⟨t, ht, ?_⟩
  cases hstate : t.state with
  | ready => exact .inl rfl
  | waiting wakeAt => exact .inr ⟨wakeAt, rfl⟩
  | running => exact absurd (congrArg some hstate) hstill
  | finished | errored | cancelled =>
    rw [hstate] at hpending
    cases hpending

end KeyLight.Scheduler
