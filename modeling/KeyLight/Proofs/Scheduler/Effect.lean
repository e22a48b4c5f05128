import KeyLight.Proofs.Scheduler.Visit

/-!
# What a row of visits does

`Effect now s visits ids s'` says all that can be said of the scheduler `s'` after some visits that
begin with `s` and in which threads with the numbers `ids` were started: the visited threads are in
the state they came back with, the other threads persist, the new ones are ready and stand at the
end of the list, and each failure is noted once. `Visits.effect` proves it of visits to different
threads. What later modules say of a tick is read off `Effect` and not off the loop.
-/

namespace KeyLight.Scheduler

variable {ρ : Type}

/-- What visits at the time `now` do, in which the threads `ids` are started. -/
structure Effect (now : Float) (s : Scheduler ρ) (visits : List (Visit ρ)) (ids : List ThreadId)
    (s' : Scheduler ρ) : Prop where
  numbered : Numbered s.threads.size ids s'.threads.size
  live_eq : s'.live = s.live ++ ids
  failures_eq : s'.failures = s.failures ++ visits.filterMap Visit.failure?
  poison_eq : s'.poison = (visits.filterMap Visit.violation?).getLast?.or s.poison
  visited : ∀ v ∈ visits, ∀ t, s.thread? v.id = some t → ∃ t', s'.thread? v.id = some t' ∧
    t'.state = v.outcome.state now ∧ t'.routine = v.outcome.rest?.or t.routine ∧
    (t.collected = true → t'.collected = true)
  unvisited : ∀ id t, s.thread? id = some t → id ∉ visits.map Visit.id →
    ∃ t', s'.thread? id = some t' ∧ t.Persists t'
  started : ∀ id ∈ ids, ∃ t', s'.thread? id = some t' ∧ t'.state = .ready ∧
    t'.routine.isSome = true

namespace Effect

variable {now : Float} {s s₁ s' : Scheduler ρ} {visits : List (Visit ρ)} {v : Visit ρ}
  {ids first : List ThreadId} {id : ThreadId}

theorem nil (now : Float) (s : Scheduler ρ) : Effect now s [] [] s where
  numbered := .refl _
  live_eq := (List.append_nil s.live).symm
  failures_eq := (List.append_nil s.failures).symm
  poison_eq := rfl
  visited := fun _ hv => absurd hv List.not_mem_nil
  unvisited := fun _ t ht _ => ⟨t, ht, .refl t⟩
  started := fun _ hid => absurd hid List.not_mem_nil

/-- A thread of the new scheduler was visited, was there and not visited, or was started. -/
theorem thread?_cases (h : Effect now s visits ids s') {t' : Thread ρ}
    (ht' : s'.thread? id = some t') :
    (∃ v ∈ visits, v.id = id ∧ t'.state = v.outcome.state now) ∨
      (∃ t, s.thread? id = some t ∧ t.Persists t') ∨
      (id ∈ ids ∧ t'.state = .ready) := by
  rcases Nat.lt_or_ge s.threads.size id with hlt | hge
  · have hid := h.numbered.mem_iff.mpr ⟨hlt, le_size_of_thread? ht'⟩
    obtain ⟨t₁, ht₁, hready, -⟩ := h.started id hid
    obtain rfl : t₁ = t' := Option.some.inj (ht₁.symm.trans ht')
    exact .inr (.inr ⟨hid, hready⟩)
  obtain ⟨t, ht⟩ := exists_thread? (pos_of_thread? ht') hge
  by_cases hvisited : id ∈ visits.map Visit.id
  · obtain ⟨v, hv, rfl⟩ := List.mem_map.mp hvisited
    obtain ⟨t₁, ht₁, hstate, -⟩ := h.visited v hv t ht
    obtain rfl : t₁ = t' := Option.some.inj (ht₁.symm.trans ht')
    exact .inl ⟨v, hv, rfl, hstate⟩
  · obtain ⟨t₁, ht₁, hp⟩ := h.unvisited id t ht hvisited
    obtain rfl : t₁ = t' := Option.some.inj (ht₁.symm.trans ht')
    exact .inr (.inl ⟨t, ht, hp⟩)

/-- What one visit does. -/
theorem single (now : Float) (hbefore : v.before = s.setState v.id .running)
    (hgrows : v.before.Grows ids v.after) (hknown : v.id ≤ s.threads.size) :
    Effect now s [v] ids (v.after.settle now v.id v.outcome) := by
  have hsize : v.before.threads.size = s.threads.size := by rw [hbefore, size_setState]
  refine ⟨?_, ?_, ?_, ?_, ?_, ?_, ?_⟩
  · rw [← hsize, size_settle]
    exact hgrows.numbered
  · rw [live_settle, hgrows.live_eq, hbefore, live_setState]
  · rw [failures_settle, hgrows.failures_eq, hbefore, failures_setState]
    cases hf : v.outcome.failure? v.id <;> simp [Visit.failure?, hf]
  · rw [poison_settle, hgrows.poison_eq, hbefore, poison_setState]
    cases hv : v.outcome.violation? v.id <;> simp [Visit.violation?, hv]
  · intro u hu t ht
    obtain rfl : u = v := List.mem_singleton.mp hu
    have hrun : u.before.thread? u.id = some { t with state := .running } := by
      rw [hbefore, thread?_setState, if_pos rfl, ht]
      rfl
    obtain ⟨t', ht', hp⟩ := hgrows.thread?_old hrun
    refine ⟨{ t' with
      state := u.outcome.state now
      routine := u.outcome.rest?.or t'.routine }, ?_, rfl, ?_, hp.collected⟩
    · rw [thread?_settle, if_pos rfl, ht']
      rfl
    · exact congrArg u.outcome.rest?.or hp.routine
  · intro other t ht hother
    have hne : other ≠ v.id := by simpa using hother
    have hsame : v.before.thread? other = some t := by
      rw [hbefore, thread?_setState, if_neg hne, ht]
    obtain ⟨t', ht', hp⟩ := hgrows.thread?_old hsame
    exact ⟨t', by rw [thread?_settle, if_neg hne, ht'], hp⟩
  · intro new hnew
    obtain ⟨t', ht', hready⟩ := hgrows.thread?_new hnew
    -- a new thread has a number that no thread had, so it is not the visited one
    have hne : new ≠ v.id := by
      have hlt := (hgrows.numbered.mem_iff.mp hnew).1
      rw [hsize] at hlt
      exact Nat.ne_of_gt (Nat.lt_of_le_of_lt hknown hlt)
    exact ⟨t', by rw [thread?_settle, if_neg hne, ht'], hready⟩

/-- What a visit and the visits after it do. -/
theorem cons (h₁ : Effect now s [v] first s₁) (h₂ : Effect now s₁ visits ids s')
    (hv : v.id ∉ visits.map Visit.id) (hknown : ∀ u ∈ visits, u.id ≤ s.threads.size) :
    Effect now s (v :: visits) (first ++ ids) s' := by
  refine ⟨h₁.numbered.append h₂.numbered, ?_, ?_, ?_, ?_, ?_, ?_⟩
  · rw [h₂.live_eq, h₁.live_eq, List.append_assoc]
  · rw [h₂.failures_eq, h₁.failures_eq, List.append_assoc, ← List.filterMap_append]
    rfl
  · rw [h₂.poison_eq, h₁.poison_eq, ← Option.or_assoc, ← List.getLast?_append,
      ← List.filterMap_append]
    rfl
  · intro u hu t ht
    rcases List.mem_cons.mp hu with rfl | hu
    · obtain ⟨t₁, ht₁, hstate, hroutine, hcollected⟩ :=
        h₁.visited u (List.mem_singleton_self u) t ht
      -- it is not visited again
      obtain ⟨t', ht', hp⟩ := h₂.unvisited u.id t₁ ht₁ hv
      exact ⟨t', ht', hp.state.trans hstate, hp.routine.trans hroutine,
        fun h => hp.collected (hcollected h)⟩
    · have hne : u.id ∉ [v].map Visit.id := fun h => by
        rw [List.map_singleton, List.mem_singleton] at h
        exact hv (h ▸ List.mem_map_of_mem hu)
      obtain ⟨t₁, ht₁, hp⟩ := h₁.unvisited u.id t ht hne
      obtain ⟨t', ht', hstate, hroutine, hcollected⟩ := h₂.visited u hu t₁ ht₁
      exact ⟨t', ht', hstate, hp.routine ▸ hroutine, fun h => hcollected (hp.collected h)⟩
  · intro other t ht hother
    rw [List.map_cons, List.mem_cons, not_or] at hother
    obtain ⟨t₁, ht₁, hp₁⟩ := h₁.unvisited other t ht (by simpa using hother.1)
    obtain ⟨t', ht', hp₂⟩ := h₂.unvisited other t₁ ht₁ hother.2
    exact ⟨t', ht', hp₁.trans hp₂⟩
  · intro new hnew
    rcases List.mem_append.mp hnew with hnew | hnew
    · obtain ⟨t₁, ht₁, hready, hroutine⟩ := h₁.started new hnew
      -- who is visited later was there before the first visit
      have hother : new ∉ visits.map Visit.id := fun h => by
        obtain ⟨u, hu, rfl⟩ := List.mem_map.mp h
        exact Nat.not_lt.mpr (hknown u hu) (h₁.numbered.mem_iff.mp hnew).1
      obtain ⟨t', ht', hp⟩ := h₂.unvisited new t₁ ht₁ hother
      exact ⟨t', ht', hp.state.trans hready, hp.routine ▸ hroutine⟩
    · exact h₂.started new hnew

end Effect

/-- **What a row of visits does**, if they are to different threads of the first scheduler. -/
theorem Visits.effect {now : Float} {s s' : Scheduler ρ} {visits : List (Visit ρ)}
    {ids : List ThreadId} (h : Visits now s visits s') (hstarted : Started visits ids)
    (hnodup : (visits.map Visit.id).Nodup) (hknown : ∀ v ∈ visits, v.id ≤ s.threads.size) :
    Effect now s visits ids s' := by
  induction h generalizing ids with
  | @nil s =>
    obtain rfl : ids = [] := hstarted
    exact .nil now s
  | @cons s s' v visits hbefore _ ih =>
    obtain ⟨first, rest, rfl, hgrows, hrest⟩ := hstarted
    rw [List.map_cons, List.nodup_cons] at hnodup
    have hfirst := Effect.single now hbefore hgrows (hknown v List.mem_cons_self)
    have hrestKnown : ∀ u ∈ visits, u.id ≤ s.threads.size := fun u hu =>
      hknown u (List.mem_cons_of_mem v hu)
    exact hfirst.cons
      (ih hrest hnodup.2 fun u hu => Nat.le_trans (hrestKnown u hu) hfirst.numbered.le)
      hnodup.1 hrestKnown

/-! ### Answers -/

/-- A thread that does not break the rules finishes, fails or asks to be resumed again. -/
theorem length_eq_of_not_stray {visits : List (Visit ρ)}
    (h : ∀ v ∈ visits, v.outcome.isStray = false) :
    visits.length = (visits.countP fun v => v.outcome.isFinished) +
      (visits.filterMap Visit.failure?).length + visits.countP fun v => v.outcome.isSuspended := by
  induction visits with
  | nil => rfl
  | cons v visits ih =>
    have hrest := ih fun u hu => h u (List.mem_cons_of_mem v hu)
    have hstray := h v List.mem_cons_self
    cases hv : v.outcome with
    | stray found => simp [hv, Outcome.isStray] at hstray
    | finished | failed _ | suspended _ _ =>
      simp +arith [hv, hrest, Visit.failure?, Outcome.failure?, Outcome.isFinished,
        Outcome.isSuspended]

namespace Answers

variable {agenda : List (ThreadId × ρ)} {n m : TickSummary} {visits : List (Visit ρ)}
  {answer : Except Violation TickSummary} {x : Violation}

/-- Threads are visited in the order of the agenda. -/
theorem exists_agenda_eq (h : Answers agenda n visits answer) :
    ∃ later, agenda = visits.map (fun v => (v.id, v.routine)) ++ later := by
  induction h with
  | nil => exact ⟨[], rfl⟩
  | @stray agenda _ v _ _ => exact ⟨agenda, rfl⟩
  | cons _ _ ih =>
    obtain ⟨later, rfl⟩ := ih
    exact ⟨later, rfl⟩

theorem mem_agenda (h : Answers agenda n visits answer) {v : Visit ρ} (hv : v ∈ visits) :
    (v.id, v.routine) ∈ agenda := by
  obtain ⟨later, rfl⟩ := h.exists_agenda_eq
  exact List.mem_append_left later (List.mem_map_of_mem hv)

/-- If no thread breaks the rules, all are visited. -/
theorem agenda_eq (h : Answers agenda n visits (.ok m)) :
    agenda = visits.map fun v => (v.id, v.routine) := by
  generalize hok : Except.ok m = answer at h
  induction h with
  | nil => rfl
  | stray => cases hok
  | cons _ _ ih => rw [ih hok]; rfl

theorem isStray_eq_false (h : Answers agenda n visits (.ok m)) {v : Visit ρ} (hv : v ∈ visits) :
    v.outcome.isStray = false := by
  generalize hok : Except.ok m = answer at h
  induction h with
  | nil => cases hv
  | stray => cases hok
  | cons hstray _ ih =>
    rcases List.mem_cons.mp hv with rfl | hv
    · exact hstray
    · exact ih hv hok

/-- If a thread breaks the rules, it is the last one visited. -/
theorem exists_stray (h : Answers agenda n visits (.error x)) :
    ∃ earlier v, visits = earlier ++ [v] ∧ v.id = x.thread ∧ v.outcome = .stray x.found ∧
      ∀ u ∈ earlier, u.outcome.isStray = false := by
  generalize herror : Except.error x = answer at h
  induction h with
  | nil => cases herror
  | @stray _ _ v _ hv =>
    cases herror
    exact ⟨[], v, rfl, rfl, hv, fun _ hu => absurd hu List.not_mem_nil⟩
  | @cons _ _ v _ _ hstray _ ih =>
    obtain ⟨earlier, last, rfl, hid, hlast, hearlier⟩ := ih herror
    refine ⟨v :: earlier, last, rfl, hid, hlast, fun u hu => ?_⟩
    rcases List.mem_cons.mp hu with rfl | hu
    · exact hstray
    · exact hearlier u hu

/-- The numbers of a tick are those of the visits by the way they ended. -/
theorem summary_eq (h : Answers agenda n visits (.ok m)) :
    m = ⟨n.resumed + visits.length,
      n.finished + visits.countP fun v => v.outcome.isFinished,
      n.errored + (visits.filterMap Visit.failure?).length,
      n.waiting + visits.countP fun v => v.outcome.isSuspended⟩ := by
  generalize hok : Except.ok m = answer at h
  induction h with
  | nil => cases hok; rfl
  | stray => cases hok
  | @cons _ n v visits _ hstray _ ih =>
    rw [ih hok]
    cases hv : v.outcome with
    | stray found => simp [hv, Outcome.isStray] at hstray
    | finished | failed _ | suspended _ _ =>
      simp +arith [TickSummary.count, hv, Visit.failure?, Outcome.failure?,
        Outcome.isFinished, Outcome.isSuspended]

end Answers

end KeyLight.Scheduler
