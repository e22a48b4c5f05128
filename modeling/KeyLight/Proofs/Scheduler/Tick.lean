import KeyLight.Proofs.Scheduler.Invariant

/-!
# What a tick does

The threads that are due at a time (`Due`) are settled before the first of them runs; the agenda of
a tick is a list of exactly these (`mem_dueIds`, `map_fst_agenda`). `Ticked` says what a tick does
to a scheduler that is idle and in which no thread has broken the rules, and `ticked` proves it. A
tick leaves the scheduler idle again, whatever its answer. What threads find while they run is said
by `Meanwhile`.
-/

namespace KeyLight

variable {ρ σ : Type}

theorem ThreadState.isDue_iff {now : Float} {state : ThreadState} :
    state.isDue now = true ↔
      state = .ready ∨ ∃ wakeAt, state = .waiting wakeAt ∧ wakeAt ≤ now := by
  cases state <;> simp [ThreadState.isDue]

namespace Scheduler

/-! ### Which threads are due -/

/-- A thread is due at a time if it is ready, or waits for no later time, and its handle is not
collected. -/
def Due (s : Scheduler ρ) (now : Float) (id : ThreadId) : Prop :=
  ∃ t, s.thread? id = some t ∧ t.collected = false ∧
    (t.state = .ready ∨ ∃ wakeAt, t.state = .waiting wakeAt ∧ wakeAt ≤ now)

/-- The handles of the threads that a tick has still to resume are not collected, since the tick
holds them. -/
def Holds (s : Scheduler ρ) (now : Float) (visits : List (Visit ρ)) : Prop :=
  ∀ v ∈ visits, ∀ id, s.Due now id → v.id < id →
    v.before.isCollected id = false → v.after.isCollected id = false

/-- The live threads that are due. -/
def dueIds (s : Scheduler ρ) (now : Float) : List ThreadId :=
  s.live.filter fun id => s.isDue now id && !s.isCollected id

variable {s s' : Scheduler ρ} {now : Float} {id : ThreadId}

theorem isDue_of_thread? {t : Thread ρ} (h : s.thread? id = some t) :
    s.isDue now id = t.state.isDue now := by
  simp [isDue, h]

theorem Due.isTerminal_eq_false (h : s.Due now id) {t : Thread ρ} (ht : s.thread? id = some t) :
    t.state.isTerminal = false := by
  obtain ⟨t', ht', -, hready | ⟨wakeAt, hwaiting, -⟩⟩ := h
  · obtain rfl : t' = t := Option.some.inj (ht'.symm.trans ht)
    rw [hready]
    rfl
  · obtain rfl : t' = t := Option.some.inj (ht'.symm.trans ht)
    rw [hwaiting]
    rfl

/-- A thread that is due is live. -/
theorem Due.mem_live (h : s.Due now id) (hsound : s.Sound) : id ∈ s.live := by
  have ⟨t, ht, hcollected, _⟩ := h
  by_cases hlive : id ∈ s.live
  · exact hlive
  · rcases hsound.gone id t ht hlive with hterminal | hgone
    · rw [h.isTerminal_eq_false ht] at hterminal
      cases hterminal
    · rw [hcollected] at hgone
      cases hgone

theorem mem_dueIds (hsound : s.Sound) : id ∈ s.dueIds now ↔ s.Due now id := by
  rw [dueIds, List.mem_filter]
  constructor
  · rintro ⟨hlive, hdue⟩
    obtain ⟨t, ht, -⟩ := hsound.known id hlive
    rw [isDue_of_thread? ht, isCollected_of_thread? ht, Bool.and_eq_true, Bool.not_eq_true'] at hdue
    exact ⟨t, ht, hdue.2, ThreadState.isDue_iff.mp hdue.1⟩
  · intro h
    have hlive := h.mem_live hsound
    obtain ⟨t, ht, hcollected, hstate⟩ := h
    refine ⟨hlive, ?_⟩
    rw [isDue_of_thread? ht, isCollected_of_thread? ht, ThreadState.isDue_iff.mpr hstate,
      hcollected]
    rfl

theorem pairwise_dueIds (hsound : s.Sound) (now : Float) : (s.dueIds now).Pairwise (· < ·) :=
  hsound.ordered.filter _

/-- What a thread of the agenda is resumed with is what it has left to do. -/
theorem routine_of_mem_agenda {routine : ρ} (h : (id, routine) ∈ s.agenda now) :
    ∃ t, s.thread? id = some t ∧ t.routine = some routine := by
  obtain ⟨other, -, hother⟩ := List.mem_filterMap.mp h
  obtain ⟨routine', hroutine, heq⟩ := Option.map_eq_some_iff.mp hother
  obtain ⟨rfl, rfl⟩ := Prod.mk.inj heq
  exact Option.bind_eq_some_iff.mp hroutine

/-- The agenda is of the threads that are due, in their order. -/
theorem map_fst_agenda (hsound : s.Sound) (now : Float) :
    (s.agenda now).map Prod.fst = s.dueIds now := by
  have hknown : ∀ id ∈ s.dueIds now, ∃ t, s.thread? id = some t ∧ t.routine.isSome = true :=
    fun id hid => hsound.known id ((List.mem_filter.mp hid).1)
  -- a live thread has something left to do, so none is left out
  change (List.filterMap _ (s.dueIds now)).map Prod.fst = s.dueIds now
  generalize s.dueIds now = ids at hknown
  induction ids with
  | nil => rfl
  | cons first ids ih =>
    obtain ⟨t, ht, hroutine⟩ := hknown first List.mem_cons_self
    obtain ⟨routine, hroutine⟩ := Option.isSome_iff_exists.mp hroutine
    rw [List.filterMap_cons_some (by rw [ht]; simp [hroutine]; rfl), List.map_cons,
      ih fun id hid => hknown id (List.mem_cons_of_mem first hid)]

/-! ### Cancelling what is collected -/

theorem live_cancelCollected (s : Scheduler ρ) (now : Float) :
    (s.cancelCollected now).live = s.live := by
  rw [cancelCollected_eq, live_updateAll]

theorem size_cancelCollected (s : Scheduler ρ) (now : Float) :
    (s.cancelCollected now).threads.size = s.threads.size := by
  rw [cancelCollected_eq, size_updateAll]

/-- The state of a thread changes only if its handle is collected. -/
theorem thread?_cancelCollected (now : Float) {t : Thread ρ} (ht : s.thread? id = some t) :
    ∃ t', (s.cancelCollected now).thread? id = some t' ∧ t'.collected = t.collected ∧
      t'.routine = t.routine ∧ (t.collected = false → t' = t) := by
  rw [cancelCollected_eq, thread?_updateAll (f := Thread.cancel) fun _ => rfl, ht]
  split
  · rename_i hid
    have hcollected := (Bool.and_eq_true_iff.mp (List.mem_filter.mp hid).2).2
    rw [isCollected_of_thread? ht] at hcollected
    refine ⟨t.cancel, rfl, rfl, rfl, fun hnot => ?_⟩
    rw [hcollected] at hnot
    cases hnot
  · exact ⟨t, rfl, rfl, rfl, fun _ => rfl⟩

/-- So a thread rests while the collected ones are cancelled. -/
theorem rests_cancelCollected (now : Float) {t : Thread ρ} (ht : s.thread? id = some t) :
    ∃ t', (s.cancelCollected now).thread? id = some t' ∧ t.Rests t' := by
  obtain ⟨t', ht', hcollected, -, heq⟩ := thread?_cancelCollected now ht
  refine ⟨t', ht', fun h => hcollected.trans h, fun h => ?_⟩
  rw [heq (hcollected.symm.trans h)]

theorem isCollected_cancelCollected (s : Scheduler ρ) (now : Float) (id : ThreadId) :
    (s.cancelCollected now).isCollected id = s.isCollected id := by
  rw [cancelCollected_eq]
  exact isCollected_updateAll (f := Thread.cancel) (fun _ => rfl) s _ id

theorem Idle.cancelCollected (h : s.Idle) (now : Float) : (s.cancelCollected now).Sound := by
  rw [cancelCollected_eq]
  exact h.toSound.cancel fun id hid => h.pending id ((List.mem_filter.mp hid).1)

/-! ### Visits to threads that are due -/

namespace Answers

variable {n : TickSummary} {visits : List (Visit ρ)} {answer : Except Violation TickSummary}

/-- The visits of a tick are to threads that are due, in their order. -/
theorem exists_dueIds_eq (hsound : s.Sound) (h : Answers (s.agenda now) n visits answer) :
    ∃ later, s.dueIds now = visits.map Visit.id ++ later := by
  obtain ⟨later, heq⟩ := h.exists_agenda_eq
  refine ⟨later.map Prod.fst, ?_⟩
  rw [← map_fst_agenda hsound now, heq, List.map_append, List.map_map]
  rfl

/-- A tick that breaks no rule visits all the threads that are due. -/
theorem dueIds_eq (hsound : s.Sound) {k : TickSummary}
    (h : Answers (s.agenda now) n visits (.ok k)) : s.dueIds now = visits.map Visit.id := by
  rw [← map_fst_agenda hsound now, h.agenda_eq, List.map_map]
  rfl

theorem due (hsound : s.Sound) (h : Answers (s.agenda now) n visits answer) {v : Visit ρ}
    (hv : v ∈ visits) : s.Due now v.id := by
  obtain ⟨later, heq⟩ := h.exists_dueIds_eq hsound
  rw [← mem_dueIds hsound, heq]
  exact List.mem_append_left later (List.mem_map_of_mem hv)

theorem pairwise (hsound : s.Sound) (h : Answers (s.agenda now) n visits answer) :
    (visits.map Visit.id).Pairwise (· < ·) := by
  obtain ⟨later, heq⟩ := h.exists_dueIds_eq hsound
  have hpairwise := pairwise_dueIds hsound now
  rw [heq] at hpairwise
  exact (List.pairwise_append.mp hpairwise).1

end Answers

/-- Visits to threads that are due, after the cancelling, have their effect and keep the scheduler
sound. -/
theorem Idle.visits {t : Scheduler ρ} {visits : List (Visit ρ)} {ids : List ThreadId}
    (hidle : s.Idle) (hdue : ∀ v ∈ visits, s.Due now v.id)
    (hordered : (visits.map Visit.id).Pairwise (· < ·))
    (hvisits : Visits now (s.cancelCollected now) visits t) (hstarted : Started visits ids) :
    Effect now (s.cancelCollected now) visits ids t ∧ t.Sound := by
  have hlive : ∀ v ∈ visits, v.id ∈ s.live := fun v hv => (hdue v hv).mem_live hidle.toSound
  -- what is due is not collected, so it is the same before and after the cancelling
  have hsame : ∀ v ∈ visits, ∀ t, (s.cancelCollected now).thread? v.id = some t →
      s.thread? v.id = some t := fun v hv t ht => by
    obtain ⟨t₀, ht₀, hcollected, -⟩ := hdue v hv
    obtain ⟨t₁, ht₁, -, -, heq⟩ := thread?_cancelCollected now ht₀
    obtain rfl : t₁ = t := Option.some.inj (ht₁.symm.trans ht)
    rw [heq hcollected]
    exact ht₀
  have heffect : Effect now (s.cancelCollected now) visits ids t := by
    refine hvisits.effect hstarted (hordered.imp Nat.ne_of_lt) fun v hv => ?_
    rw [size_cancelCollected]
    exact hidle.toSound.le_size (hlive v hv)
  refine ⟨heffect, (hidle.cancelCollected now).effect heffect (fun v hv => ?_) fun v hv t ht => ?_⟩
  · rw [live_cancelCollected]
    exact hlive v hv
  · exact (hdue v hv).isTerminal_eq_false (hsame v hv t ht)

/-! ### While a thread runs -/

/-- What holds of a scheduler while the visit `v` is paid in the course of a tick: its thread is the
only one that runs, the threads visited before it are in the state they came back with, and the
others rest. -/
structure Meanwhile (now : Float) (s : Scheduler ρ) (visits : List (Visit ρ)) (v : Visit ρ)
    (m : Scheduler ρ) : Prop where
  running : ∀ id, m.state? id = some .running ↔ id = v.id
  earlier : ∀ u ∈ visits, u.id < v.id → m.state? u.id = some (u.outcome.state now)
  resting : ∀ id t, s.thread? id = some t → (∀ u ∈ visits, u.id = id → v.id < id) →
    ∃ t', m.thread? id = some t' ∧ t.Rests t'

/-- When a thread is visited, the visits to those before it have had their effect. -/
theorem Idle.exists_earlier {t : Scheduler ρ} {visits : List (Visit ρ)} {ids : List ThreadId}
    {v : Visit ρ} (hidle : s.Idle) (hdue : ∀ v ∈ visits, s.Due now v.id)
    (hordered : (visits.map Visit.id).Pairwise (· < ·))
    (hvisits : Visits now (s.cancelCollected now) visits t) (hstarted : Started visits ids)
    (hv : v ∈ visits) :
    ∃ earlier first m, Effect now (s.cancelCollected now) earlier first m ∧ m.Sound ∧
      v.before = m.setState v.id .running ∧
      ∀ u, u ∈ earlier ↔ u ∈ visits ∧ u.id < v.id := by
  obtain ⟨earlier, later, first, m, rfl, hearlier, hfirst, hbefore⟩ :=
    hvisits.exists_earlier hstarted hv
  rw [List.map_append, List.map_cons, List.pairwise_append, List.pairwise_cons] at hordered
  obtain ⟨hordered, ⟨hlater, -⟩, hlt⟩ := hordered
  obtain ⟨heffect, hsound⟩ := hidle.visits (fun u hu => hdue u (List.mem_append_left _ hu))
    hordered hearlier hfirst
  refine ⟨earlier, first, m, heffect, hsound, hbefore, fun u => ⟨fun hu => ?_, ?_⟩⟩
  · exact ⟨List.mem_append_left _ hu,
      hlt u.id (List.mem_map_of_mem hu) v.id List.mem_cons_self⟩
  · rintro ⟨hu, hbefore⟩
    rcases List.mem_append.mp hu with hu | hu
    · exact hu
    · rcases List.mem_cons.mp hu with rfl | hu
      · exact absurd hbefore (Nat.lt_irrefl _)
      · exact absurd hbefore (Nat.lt_asymm (hlater u.id (List.mem_map_of_mem hu)))

theorem Idle.meanwhile {t m : Scheduler ρ} {visits : List (Visit ρ)} {ids new : List ThreadId}
    {v : Visit ρ} (hidle : s.Idle) (hdue : ∀ v ∈ visits, s.Due now v.id)
    (hordered : (visits.map Visit.id).Pairwise (· < ·))
    (hvisits : Visits now (s.cancelCollected now) visits t) (hstarted : Started visits ids)
    (hv : v ∈ visits) (hgrows : v.before.Grows new m) : Meanwhile now s visits v m := by
  obtain ⟨earlier, first, s₁, heffect, hsound, hbefore, hmem⟩ :=
    hidle.exists_earlier hdue hordered hvisits hstarted hv
  rw [hbefore] at hgrows
  -- a thread other than the visited one is the same as before the visit
  have hother {id : ThreadId} {t₁ : Thread ρ} (hne : id ≠ v.id) (ht₁ : s₁.thread? id = some t₁) :
      ∃ t', m.thread? id = some t' ∧ t₁.Persists t' := by
    refine hgrows.thread?_old ?_
    rw [thread?_setState, if_neg hne, ht₁]
  have hunvisited {id : ThreadId} (hid : ∀ u ∈ visits, u.id = id → v.id ≤ id) :
      id ∉ earlier.map Visit.id := fun hmap => by
    obtain ⟨u, hu, rfl⟩ := List.mem_map.mp hmap
    obtain ⟨hu, hlt⟩ := (hmem u).mp hu
    exact Nat.not_lt.mpr (hid u hu rfl) hlt
  refine ⟨fun id => ?_, fun u hu hlt => ?_, fun id t₀ ht₀ hid => ?_⟩
  · obtain ⟨t₀, ht₀, -⟩ := hdue v hv
    obtain ⟨t₁, ht₁, -⟩ := thread?_cancelCollected now ht₀
    obtain ⟨t₂, ht₂, -⟩ := heffect.unvisited v.id t₁ ht₁ (hunvisited fun _ _ _ => Nat.le_refl _)
    exact hsound.state?_eq_running ht₂ hgrows
  · obtain ⟨t₀, ht₀, -⟩ := hdue u hu
    obtain ⟨t₁, ht₁, -⟩ := thread?_cancelCollected now ht₀
    obtain ⟨t₂, ht₂, hstate, -⟩ := heffect.visited u ((hmem u).mpr ⟨hu, hlt⟩) t₁ ht₁
    obtain ⟨t', ht', hp⟩ := hother (Nat.ne_of_lt hlt) ht₂
    exact state?_eq_some.mpr ⟨t', ht', hp.state.trans hstate⟩
  · have hne : id ≠ v.id := fun h => Nat.lt_irrefl id (h ▸ hid v hv h.symm)
    obtain ⟨t₁, ht₁, hrests⟩ := rests_cancelCollected now ht₀
    obtain ⟨t₂, ht₂, hp₁⟩ := heffect.unvisited id t₁ ht₁
      (hunvisited fun u hu h => Nat.le_of_lt (hid u hu h))
    obtain ⟨t', ht', hp₂⟩ := hother hne ht₂
    exact ⟨t', ht', hrests.persists (hp₁.trans hp₂)⟩

/-! ### Ticks -/

/-- What a tick at the time `now` does that visits threads, in which the threads `ids` are
started. -/
structure Ticked (now : Float) (s : Scheduler ρ) (visits : List (Visit ρ)) (ids : List ThreadId)
    (answer : Except Violation TickSummary) (s' : Scheduler ρ) : Prop where
  answers : Answers (s.agenda now) .zero visits answer
  numbered : Numbered s.threads.size ids s'.threads.size
  live_eq : s'.live = (s.live ++ ids).filter fun id => !s'.isDone id
  failures_eq : s'.failures = s.failures ++ visits.filterMap Visit.failure?
  poison_eq : s'.poison = (visits.filterMap Visit.violation?).getLast?
  visited : ∀ v ∈ visits, ∃ t', s'.thread? v.id = some t' ∧
    t'.state = v.outcome.state now ∧
    (v.id ∈ s'.live → ∀ rest, v.outcome.rest? = some rest → t'.routine = some rest)
  unvisited : ∀ id t, s.thread? id = some t → id ∉ visits.map Visit.id →
    ∃ t', s'.thread? id = some t' ∧ t.Rests t' ∧ (id ∈ s'.live → t'.routine = t.routine)
  started : ∀ id ∈ ids, ∃ t', s'.thread? id = some t' ∧ t'.state = .ready
  meanwhile : ∀ v ∈ visits, ∀ new m, v.before.Grows new m → Meanwhile now s visits v m
  held : ∀ id, s.isCollected id = false →
    (∀ v ∈ visits, v.before.isCollected id = false → v.after.isCollected id = false) →
    s'.isCollected id = false
  idle : s'.Idle

/-- **What a tick does**, unless a thread has broken the rules before. -/
theorem ticked {resume : Resume ρ σ} {w w' : σ} {visits : List (Visit ρ)} {ids : List ThreadId}
    {answer : Except Violation TickSummary} (hidle : s.Idle) (hpoison : s.poison = none)
    (h : tick resume.recorded now (w, []) s = some (answer, (w', visits), s'))
    (hstarted : Started visits ids) : Ticked now s visits ids answer s' := by
  obtain ⟨v, hv, -⟩ | ⟨-, hanswers, -, t, hvisits, rfl⟩ := visits_of_tick h
  · rw [hpoison] at hv
    cases hv
  have hdue : ∀ v ∈ visits, s.Due now v.id := fun v hv => hanswers.due hidle.toSound hv
  have hordered := hanswers.pairwise hidle.toSound
  obtain ⟨heffect, hsound⟩ := hidle.visits hdue hordered hvisits hstarted
  refine ⟨hanswers, ?_, ?_, ?_, ?_, fun v hv => ?_, fun id t₀ ht₀ hid => ?_, fun id hid => ?_,
    fun v hv new m hgrows => hidle.meanwhile hdue hordered hvisits hstarted hv hgrows,
    fun id hfirst hkept => ?_, hsound.reap⟩
  · rw [size_reap, ← size_cancelCollected s now]
    exact heffect.numbered
  · simp only [isDone_reap, live_reap]
    rw [heffect.live_eq, live_cancelCollected]
  · rw [failures_reap, heffect.failures_eq, cancelCollected_eq, failures_updateAll]
  · rw [poison_reap, heffect.poison_eq, cancelCollected_eq, poison_updateAll, hpoison,
      Option.or_none]
  · obtain ⟨t₀, ht₀, -⟩ := hdue v hv
    obtain ⟨t₁, ht₁, -⟩ := thread?_cancelCollected now ht₀
    obtain ⟨t₂, ht₂, hstate, hrest, -⟩ := heffect.visited v hv t₁ ht₁
    obtain ⟨t', ht', hstate', -, hroutine⟩ := exists_thread?_reap ht₂
    refine ⟨t', ht', hstate'.trans hstate, fun hlive rest heq => ?_⟩
    rw [hroutine hlive, hrest, heq, Option.some_or]
  · obtain ⟨t₁, ht₁, hrests⟩ := rests_cancelCollected now ht₀
    obtain ⟨t₂, ht₂, hp⟩ := heffect.unvisited id t₁ ht₁ hid
    obtain ⟨t', ht', hstate', hcollected', hroutine'⟩ := exists_thread?_reap ht₂
    obtain ⟨t₁', ht₁', -, hroutine₁, -⟩ := thread?_cancelCollected now ht₀
    obtain rfl : t₁' = t₁ := Option.some.inj (ht₁'.symm.trans ht₁)
    refine ⟨t', ht', (hrests.persists hp).congr hstate' hcollected', fun hlive => ?_⟩
    rw [hroutine' hlive, hp.routine, hroutine₁]
  · obtain ⟨t₂, ht₂, hready, -⟩ := heffect.started id hid
    obtain ⟨t', ht', hstate', -⟩ := exists_thread?_reap ht₂
    exact ⟨t', ht', hstate'.trans hready⟩
  · rw [isCollected_reap]
    refine hvisits.isCollected_eq_false ?_ hkept
    rw [isCollected_cancelCollected, hfirst]

/-! ### Ticks that come to an answer -/

theorem exists_resumeAll_eq_some {resume : Resume ρ σ}
    (hresume : ∀ id routine w s, ∃ result, resume id routine w s = some result) (now : Float)
    (agenda : List (ThreadId × ρ)) (n : TickSummary) (w : σ) (s : Scheduler ρ) :
    ∃ result, resumeAll resume now agenda n w s = some result := by
  induction agenda generalizing n w s with
  | nil => exact ⟨_, rfl⟩
  | cons task agenda ih =>
    obtain ⟨id, routine⟩ := task
    obtain ⟨⟨outcome, w', after⟩, hback⟩ := hresume id routine w (s.setState id .running)
    simp only [resumeAll, hback]
    cases outcome with
    | stray found => exact ⟨_, rfl⟩
    | finished | failed _ | suspended _ _ => exact ih ..

/-- A tick comes to an answer if every thread comes back. -/
theorem exists_tick_eq_some {resume : Resume ρ σ}
    (hresume : ∀ id routine w s, ∃ result, resume id routine w s = some result) (now : Float)
    (w : σ) (s : Scheduler ρ) : ∃ result, tick resume now w s = some result := by
  unfold tick
  cases s.poison with
  | some v => exact ⟨_, rfl⟩
  | none =>
    obtain ⟨result, hall⟩ :=
      exists_resumeAll_eq_some hresume now (s.agenda now) .zero w (s.cancelCollected now)
    exact ⟨_, congrArg (Option.map _) hall⟩

end Scheduler

end KeyLight
