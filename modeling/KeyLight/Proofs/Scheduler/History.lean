import KeyLight.Proofs.Scheduler.Tick

/-!
# Histories

The host and the scripts that it runs do five things to a scheduler: threads are started, handles
are collected, failures are taken, all threads are cancelled, and time is made to tick. `Step` is
one of them and tells what happened by an `Event`; `Run` is any number of them in any order. A
scheduler is `Reachable` if a run leads to it from one without threads.

Every scheduler that is reachable is idle (`Reachable.idle`), and what a tick does to it is said by
`Ticked`, unless a thread has broken the rules before (`Step.tick_cases`).
-/

namespace KeyLight.Scheduler

variable {ρ σ : Type}

/-- What happens to a scheduler. -/
inductive Event (ρ : Type)
  /-- A thread is started and given a number. -/
  | started (id : ThreadId)
  | collected
  | taken (failures : List Failure)
  /-- A number of threads is cancelled. -/
  | cancelled (count : Nat)
  /-- A tick pays some visits, in which some threads are started, and gives an answer. -/
  | ticked (now : Float) (visits : List (Visit ρ)) (ids : List ThreadId)
      (answer : Except Violation TickSummary)

namespace Event

/-- The numbers that are given to threads. -/
def ids : Event ρ → List ThreadId
  | .started id => [id]
  | .ticked _ _ ids _ => ids
  | .collected | .taken _ | .cancelled _ => []

/-- The visits that are paid. -/
def visits : Event ρ → List (Visit ρ)
  | .ticked _ visits _ _ => visits
  | .started _ | .collected | .taken _ | .cancelled _ => []

/-- The failures that are handed over to the host. -/
def delivered : Event ρ → List Failure
  | .taken failures => failures
  | .started _ | .collected | .cancelled _ | .ticked .. => []

end Event

/-- One thing that happens. The threads that are resumed by a tick start other threads, and do
nothing else to the scheduler; handles are collected in the meantime, but not those that the tick
holds. -/
inductive Step (s : Scheduler ρ) : Event ρ → Scheduler ρ → Prop
  | start (routine : ρ) : Step s (.started (s.spawn routine).1) (s.spawn routine).2
  | collect (held : ThreadId → Bool) : Step s .collected (s.collect held)
  | take : Step s (.taken s.takeFailures.1) s.takeFailures.2
  | cancel : Step s (.cancelled s.cancelAll.1) s.cancelAll.2
  | tick {σ : Type} {resume : Resume ρ σ} {now : Float} {w w' : σ} {visits : List (Visit ρ)}
      {ids : List ThreadId} {answer : Except Violation TickSummary} {s' : Scheduler ρ}
      (h : tick resume.recorded now (w, []) s = some (answer, (w', visits), s'))
      (hstarted : Started visits ids) (hholds : s.Holds now visits) :
      Step s (.ticked now visits ids answer) s'

/-- Things that happen one after the other. -/
inductive Run (s : Scheduler ρ) : List (Event ρ) → Scheduler ρ → Prop
  | nil : Run s [] s
  | snoc {events : List (Event ρ)} {e : Event ρ} {s' s'' : Scheduler ρ} (h : Run s events s')
      (hstep : Step s' e s'') : Run s (events ++ [e]) s''

/-- Something that can come about, beginning with no threads. -/
def Reachable (s : Scheduler ρ) : Prop := ∃ events, Run empty events s

variable {s s' s'' : Scheduler ρ} {e : Event ρ} {events events' : List (Event ρ)}

/-! ### Runs -/

theorem Run.single (h : Step s e s') : Run s [e] s' := Run.nil.snoc h

protected theorem Run.trans (h : Run s events s') (h' : Run s' events' s'') :
    Run s (events ++ events') s'' := by
  induction h' with
  | nil => rwa [List.append_nil]
  | snoc _ hstep ih =>
    rw [← List.append_assoc]
    exact ih.snoc hstep

theorem Reachable.run (hreachable : s.Reachable) (h : Run s events s') : s'.Reachable := by
  obtain ⟨earlier, hrun⟩ := hreachable
  exact ⟨earlier ++ events, hrun.trans h⟩

/-- What holds at first and is kept by every step holds after a run. -/
theorem Run.invariant {I : Scheduler ρ → Prop} (hfirst : I s)
    (hkept : ∀ {s e s'}, I s → Step s e s' → I s') (h : Run s events s') : I s' := by
  induction h with
  | nil => exact hfirst
  | snoc _ hstep ih => exact hkept ih hstep

/-- Each thing that happens is a step from a scheduler that the run leads to. -/
theorem Run.exists_step (h : Run s events s') (he : e ∈ events) :
    ∃ earlier later s₁ s₂, events = earlier ++ e :: later ∧ Run s earlier s₁ ∧ Step s₁ e s₂ := by
  induction h with
  | nil => cases he
  | @snoc events last s₁ s₂ hrun hstep ih =>
    rcases List.mem_append.mp he with he | he
    · obtain ⟨earlier, later, t₁, t₂, rfl, hearlier, hstep'⟩ := ih he
      exact ⟨earlier, later ++ [last], t₁, t₂, by simp, hearlier, hstep'⟩
    · obtain rfl := List.mem_singleton.mp he
      exact ⟨events, [], s₁, s₂, rfl, hrun, hstep⟩

/-- Starting threads and collecting handles is a run in which nothing is visited and nothing is
handed over. -/
theorem Grows.run {ids : List ThreadId} (h : s.Grows ids s') :
    ∃ events, Run s events s' ∧ events.flatMap Event.ids = ids ∧
      ∀ e ∈ events, e.visits = [] ∧ e.delivered = [] := by
  induction h with
  | refl => exact ⟨[], .nil, rfl, fun _ he => absurd he List.not_mem_nil⟩
  | @spawn ids s₁ _ routine ih =>
    obtain ⟨events, hrun, hids, hquiet⟩ := ih
    refine ⟨events ++ [.started (s₁.spawn routine).1], hrun.snoc (.start routine), ?_, ?_⟩
    · rw [List.flatMap_append, hids]
      rfl
    · exact List.forall_mem_append.mpr ⟨hquiet, List.forall_mem_singleton.mpr ⟨rfl, rfl⟩⟩
  | collect _ held ih =>
    obtain ⟨events, hrun, hids, hquiet⟩ := ih
    refine ⟨events ++ [.collected], hrun.snoc (.collect held), ?_, ?_⟩
    · rw [List.flatMap_append, hids]
      exact List.append_nil _
    · exact List.forall_mem_append.mpr ⟨hquiet, List.forall_mem_singleton.mpr ⟨rfl, rfl⟩⟩

/-! ### Ticks of a history -/

/-- The visits of a tick are what resuming the threads came to. -/
theorem paid_of_tick {resume : Resume ρ σ} {now : Float} {w w' : σ} {visits : List (Visit ρ)}
    {answer : Except Violation TickSummary}
    (h : tick resume.recorded now (w, []) s = some (answer, (w', visits), s')) :
    ∀ v ∈ visits, v.PaidBy resume := by
  obtain ⟨-, -, -, rfl, -⟩ | ⟨-, -, hpaid, -⟩ := visits_of_tick h
  · exact fun _ hv => absurd hv List.not_mem_nil
  · exact hpaid

/-- A tick that comes to an answer has visits in which threads are started, if threads only start
other threads. -/
theorem exists_visits_of_tick {resume : Resume ρ σ} (hresume : resume.StartsOnly) {now : Float}
    {w w' : σ} {answer : Except Violation TickSummary}
    (h : tick resume now w s = some (answer, w', s')) :
    ∃ visits ids, tick resume.recorded now (w, []) s = some (answer, (w', visits), s') ∧
      Started visits ids ∧ ∀ v ∈ visits, v.PaidBy resume := by
  rw [tick_recorded, Option.map_eq_some_iff] at h
  obtain ⟨⟨answer', ⟨w₁, visits⟩, s₁⟩, hrecorded, heq⟩ := h
  obtain ⟨rfl, rfl, rfl⟩ : answer' = answer ∧ w₁ = w' ∧ s₁ = s' := by simpa using heq
  have hpaid : ∀ v ∈ visits, v.PaidBy resume := paid_of_tick hrecorded
  obtain ⟨ids, hstarted⟩ := exists_started hresume hpaid
  exact ⟨visits, ids, hrecorded, hstarted, hpaid⟩

/-- Such a tick is a step if no handle is collected in the meantime. -/
theorem Step.of_tick {resume : Resume ρ σ} (hresume : resume.StartsOnly)
    (hkeeps : resume.KeepsHandles) {now : Float} {w w' : σ}
    {answer : Except Violation TickSummary}
    (h : Scheduler.tick resume now w s = some (answer, w', s')) :
    ∃ visits ids, Scheduler.tick resume.recorded now (w, []) s = some (answer, (w', visits), s') ∧
      Step s (.ticked now visits ids answer) s' := by
  obtain ⟨visits, ids, hrecorded, hstarted, hpaid⟩ := exists_visits_of_tick hresume h
  refine ⟨visits, ids, hrecorded, .tick hrecorded hstarted fun v hv id _ _ hbefore => ?_⟩
  obtain ⟨w₁, w₂, hv⟩ := hpaid v hv
  exact hkeeps v.id v.routine w₁ v.before v.outcome w₂ v.after hv id hbefore

/-- What a tick does: nothing if a thread has broken the rules before, and what `Ticked` says
otherwise. -/
theorem Step.tick_cases {now : Float} {visits : List (Visit ρ)} {ids : List ThreadId}
    {answer : Except Violation TickSummary} (hidle : s.Idle)
    (h : Step s (.ticked now visits ids answer) s') :
    (∃ x, s.poison = some x ∧ answer = .error x ∧ visits = [] ∧ ids = [] ∧ s' = s) ∨
      s.poison = none ∧ Ticked now s visits ids answer s' := by
  cases h with
  | tick h hstarted hholds =>
    obtain ⟨x, hx, rfl, rfl, rfl⟩ | ⟨hpoison, -⟩ := visits_of_tick h
    · exact .inl ⟨x, hx, rfl, rfl, hstarted, rfl⟩
    · exact .inr ⟨hpoison, ticked hidle hpoison h hstarted⟩

/-! ### The invariant -/

theorem Step.idle (hidle : s.Idle) (h : Step s e s') : s'.Idle := by
  cases h with
  | start routine => exact hidle.grows (Grows.refl.spawn routine)
  | collect held => exact hidle.grows (Grows.refl.collect held)
  | take => exact hidle.takeFailures
  | cancel => exact hidle.cancelAll
  | tick h hstarted hholds =>
    obtain ⟨-, -, -, -, -, rfl⟩ | ⟨-, hticked⟩ := Step.tick_cases hidle (.tick h hstarted hholds)
    · exact hidle
    · exact hticked.idle

theorem Run.idle (hidle : s.Idle) (h : Run s events s') : s'.Idle :=
  h.invariant hidle fun hidle hstep => hstep.idle hidle

/-- **Every scheduler that can come about is idle.** -/
theorem Reachable.idle (h : s.Reachable) : s.Idle := by
  obtain ⟨events, hrun⟩ := h
  exact hrun.idle idle_empty

end KeyLight.Scheduler
