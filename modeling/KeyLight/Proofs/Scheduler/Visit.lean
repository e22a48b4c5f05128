import KeyLight.Proofs.Scheduler.Growth

/-!
# Visits

A tick pays one visit to each thread that it resumes. A `Visit` tells which thread was resumed, with
what to do, how it came back, and what the scheduler was before and after it ran. `Resume.recorded`
is a way of resuming that keeps a record of its visits, and a tick that is recorded does the same as
one that is not (`tick_recorded`); so it is with any record of what is done (`tick_noting`).

`Effect` says all that a row of visits does to the scheduler, and `Visits.effect` proves it; how the
answer of a tick is read off the visits is said by `Answers`.
-/

namespace KeyLight

variable {ρ σ : Type}

/-! ### How a thread comes back -/

namespace Outcome

/-- The state of a thread that came back at the time `now`. -/
def state (now : Float) : Outcome ρ → ThreadState
  | .finished => .finished
  | .failed _ => .errored
  | .suspended seconds _ => .waiting (now + seconds)
  | .stray _ => .errored

/-- What a thread that came back has left to do. -/
def rest? : Outcome ρ → Option ρ
  | .suspended _ rest => some rest
  | .finished | .failed _ | .stray _ => none

/-- Whether a thread that came back asked to be resumed again. -/
def isSuspended : Outcome ρ → Bool
  | .suspended .. => true
  | .finished | .failed _ | .stray _ => false

/-- Whether a thread that came back had nothing left to do. -/
def isFinished : Outcome ρ → Bool
  | .finished => true
  | .suspended .. | .failed _ | .stray _ => false

/-- Whether a thread that came back broke the rules. -/
def isStray : Outcome ρ → Bool
  | .stray _ => true
  | .finished | .failed _ | .suspended .. => false

/-- The failure of a thread that came back with an error. -/
def failure? (id : ThreadId) : Outcome ρ → Option Failure
  | .failed message => some ⟨id, message⟩
  | .finished | .suspended .. | .stray _ => none

/-- The violation of a thread that came back with something that is no request. -/
def violation? (id : ThreadId) : Outcome ρ → Option Violation
  | .stray found => some ⟨id, found⟩
  | .finished | .failed _ | .suspended .. => none

theorem state_ne_running (now : Float) (o : Outcome ρ) : o.state now ≠ .running := by
  cases o <;> simp [state]

theorem isTerminal_state (now : Float) (o : Outcome ρ) :
    (o.state now).isTerminal = !o.isSuspended := by
  cases o <;> rfl

end Outcome

namespace Scheduler

/-- A thread that came back has its new state, and the others are as they were. -/
theorem thread?_settle (s : Scheduler ρ) (now : Float) (id : ThreadId) (o : Outcome ρ)
    (other : ThreadId) :
    (s.settle now id o).thread? other =
      if other = id then
        (s.thread? id).map fun t => { t with
          state := o.state now
          routine := o.rest?.or t.routine }
      else s.thread? other := by
  cases o with
  | finished => exact thread?_update ..
  | failed message => exact thread?_update ..
  | suspended seconds rest => exact thread?_update ..
  | stray found => exact thread?_update ..

@[simp] theorem live_settle (s : Scheduler ρ) (now : Float) (id : ThreadId) (o : Outcome ρ) :
    (s.settle now id o).live = s.live := by
  cases o <;> exact live_update ..

@[simp] theorem size_settle (s : Scheduler ρ) (now : Float) (id : ThreadId) (o : Outcome ρ) :
    (s.settle now id o).threads.size = s.threads.size := by
  cases o <;> exact size_update ..

theorem failures_settle (s : Scheduler ρ) (now : Float) (id : ThreadId) (o : Outcome ρ) :
    (s.settle now id o).failures = s.failures ++ (o.failure? id).toList := by
  cases o <;> simp [settle, setState, Outcome.failure?]

theorem poison_settle (s : Scheduler ρ) (now : Float) (id : ThreadId) (o : Outcome ρ) :
    (s.settle now id o).poison = (o.violation? id).or s.poison := by
  cases o <;> simp [settle, setState, Outcome.violation?]

@[simp] theorem isCollected_setState (s : Scheduler ρ) (id other : ThreadId)
    (state : ThreadState) : (s.setState id state).isCollected other = s.isCollected other :=
  isCollected_update (f := fun t => { t with state }) (fun _ => rfl) s id other

@[simp] theorem isCollected_settle (s : Scheduler ρ) (now : Float) (id : ThreadId) (o : Outcome ρ)
    (other : ThreadId) : (s.settle now id o).isCollected other = s.isCollected other := by
  cases o with
  | finished => exact isCollected_setState s id other .finished
  | failed message => exact isCollected_setState s id other .errored
  | suspended seconds rest =>
    exact isCollected_update (f := fun t => { t with
      state := .waiting (now + seconds)
      routine := some rest }) (fun _ => rfl) s id other
  | stray found => exact isCollected_setState s id other .errored

theorem thread?_setState (s : Scheduler ρ) (id other : ThreadId) (state : ThreadState) :
    (s.setState id state).thread? other =
      if other = id then (s.thread? id).map fun t => { t with state } else s.thread? other :=
  thread?_update ..

@[simp] theorem live_setState (s : Scheduler ρ) (id : ThreadId) (state : ThreadState) :
    (s.setState id state).live = s.live := live_update ..

@[simp] theorem size_setState (s : Scheduler ρ) (id : ThreadId) (state : ThreadState) :
    (s.setState id state).threads.size = s.threads.size := size_update ..

@[simp] theorem failures_setState (s : Scheduler ρ) (id : ThreadId) (state : ThreadState) :
    (s.setState id state).failures = s.failures := failures_update ..

@[simp] theorem poison_setState (s : Scheduler ρ) (id : ThreadId) (state : ThreadState) :
    (s.setState id state).poison = s.poison := poison_update ..

end Scheduler

/-! ### Records of visits -/

/-- One resume of a thread. -/
structure Visit (ρ : Type) where
  id : ThreadId
  /-- What the thread had left to do. -/
  routine : ρ
  /-- The scheduler when the thread begins to run. -/
  before : Scheduler ρ
  outcome : Outcome ρ
  /-- The scheduler when the thread comes back. -/
  after : Scheduler ρ

namespace Visit

/-- The failure that a visit ends with. -/
def failure? (v : Visit ρ) : Option Failure := v.outcome.failure? v.id

/-- The violation that a visit ends with. -/
def violation? (v : Visit ρ) : Option Violation := v.outcome.violation? v.id

theorem id_of_failure? {v : Visit ρ} {f : Failure} (h : v.failure? = some f) : f.thread = v.id := by
  unfold failure? at h
  cases ho : v.outcome with
  | failed message =>
    rw [ho, Outcome.failure?, Option.some.injEq] at h
    rw [← h]
  | finished | suspended _ _ | stray _ =>
    rw [ho] at h
    cases h

/-- The visit is what resuming the thread in the given way came to. -/
def PaidBy (v : Visit ρ) (resume : Resume ρ σ) : Prop :=
  ∃ w w', resume v.id v.routine w v.before = some (v.outcome, w', v.after)

end Visit

/-- Resuming in the same way, with a record of what there is to note of each thread. -/
def Resume.noting {τ : Type} (resume : Resume ρ σ)
    (note : ThreadId → ρ → σ → Scheduler ρ → Outcome ρ → Scheduler ρ → τ) : Resume ρ (σ × List τ) :=
  fun id routine (w, notes) s =>
    (resume id routine w s).map fun (outcome, w', after) =>
      (outcome, (w', notes ++ [note id routine w s outcome after]), after)

/-- Resuming in the same way, with a record of the visits. -/
def Resume.recorded (resume : Resume ρ σ) : Resume ρ (σ × List (Visit ρ)) :=
  fun id routine (w, visits) s =>
    (resume id routine w s).map fun (outcome, w, after) =>
      (outcome, (w, visits ++ [⟨id, routine, s, outcome, after⟩]), after)

namespace Scheduler

/-- The numbers of the threads that were started in the course of some visits, in which nothing else
was done to the scheduler. -/
def Started : List (Visit ρ) → List ThreadId → Prop
  | [], ids => ids = []
  | v :: visits, ids => ∃ first rest, ids = first ++ rest ∧ v.before.Grows first v.after ∧
      Started visits rest

/-- Threads that only start other threads have visits that do. -/
theorem exists_started {resume : Resume ρ σ} (hresume : resume.StartsOnly)
    {visits : List (Visit ρ)} (hpaid : ∀ v ∈ visits, v.PaidBy resume) :
    ∃ ids, Started visits ids := by
  induction visits with
  | nil => exact ⟨[], rfl⟩
  | cons v visits ih =>
    obtain ⟨w, w', hv⟩ := hpaid v List.mem_cons_self
    obtain ⟨first, hgrows⟩ := hresume v.id v.routine w v.before v.outcome w' v.after hv
    obtain ⟨rest, hrest⟩ := ih fun u hu => hpaid u (List.mem_cons_of_mem v hu)
    exact ⟨first ++ rest, first, rest, rfl, hgrows, hrest⟩

/-- The visits that lead from one scheduler to another at the time `now`. Each thread is running
when it is visited, and its state is settled when it comes back. -/
inductive Visits (now : Float) : Scheduler ρ → List (Visit ρ) → Scheduler ρ → Prop
  | nil {s : Scheduler ρ} : Visits now s [] s
  | cons {s s' : Scheduler ρ} {v : Visit ρ} {visits : List (Visit ρ)}
      (hbefore : v.before = s.setState v.id .running)
      (h : Visits now (v.after.settle now v.id v.outcome) visits s') : Visits now s (v :: visits) s'

/-- A handle that is not collected in any of the visits is not collected. -/
theorem Visits.isCollected_eq_false {now : Float} {s s' : Scheduler ρ} {visits : List (Visit ρ)}
    {id : ThreadId} (h : Visits now s visits s') (hfirst : s.isCollected id = false)
    (hkept : ∀ v ∈ visits, v.before.isCollected id = false → v.after.isCollected id = false) :
    s'.isCollected id = false := by
  induction h with
  | nil => exact hfirst
  | @cons s s' v visits hbefore _ ih =>
    refine ih ?_ fun u hu => hkept u (List.mem_cons_of_mem v hu)
    rw [isCollected_settle]
    refine hkept v List.mem_cons_self ?_
    rw [hbefore, isCollected_setState, hfirst]

/-- A thread is visited when those before it have come back and those after it are still to run. -/
theorem Visits.exists_earlier {now : Float} {s s' : Scheduler ρ} {visits : List (Visit ρ)}
    {ids : List ThreadId} (h : Visits now s visits s') (hstarted : Started visits ids)
    {v : Visit ρ} (hv : v ∈ visits) :
    ∃ earlier later first m, visits = earlier ++ v :: later ∧ Visits now s earlier m ∧
      Started earlier first ∧ v.before = m.setState v.id .running := by
  induction h generalizing ids with
  | nil => cases hv
  | @cons s s' u visits hbefore _ ih =>
    obtain ⟨first, rest, -, hgrows, hrest⟩ := hstarted
    rcases List.mem_cons.mp hv with rfl | hv
    · exact ⟨[], visits, [], s, rfl, .nil, rfl, hbefore⟩
    · obtain ⟨earlier, later, new, m, rfl, hvisits, hnew, hm⟩ := ih hrest hv
      exact ⟨u :: earlier, later, first ++ new, m, rfl, .cons hbefore hvisits,
        ⟨first, new, rfl, hgrows, hnew⟩, hm⟩

/-- How the answer of a tick comes about: the threads of the agenda are visited in order, up to one
that breaks the rules, and counted. -/
inductive Answers : List (ThreadId × ρ) → TickSummary → List (Visit ρ) →
    Except Violation TickSummary → Prop
  | nil {n : TickSummary} : Answers [] n [] (.ok n)
  | stray {agenda : List (ThreadId × ρ)} {n : TickSummary} {v : Visit ρ} {found : String}
      (h : v.outcome = .stray found) :
      Answers ((v.id, v.routine) :: agenda) n [v] (.error ⟨v.id, found⟩)
  | cons {agenda : List (ThreadId × ρ)} {n : TickSummary} {v : Visit ρ} {visits : List (Visit ρ)}
      {answer : Except Violation TickSummary} (hstray : v.outcome.isStray = false)
      (h : Answers agenda (n.count v.outcome) visits answer) :
      Answers ((v.id, v.routine) :: agenda) n (v :: visits) answer

/-- A record does not change what is done. -/
theorem resumeAll_noting {τ : Type} (resume : Resume ρ σ)
    (note : ThreadId → ρ → σ → Scheduler ρ → Outcome ρ → Scheduler ρ → τ) (now : Float)
    (agenda : List (ThreadId × ρ)) (n : TickSummary) (w : σ) (notes : List τ) (s : Scheduler ρ) :
    resumeAll resume now agenda n w s =
      (resumeAll (resume.noting note) now agenda n (w, notes) s).map
        fun (answer, (w, _), s) => (answer, w, s) := by
  induction agenda generalizing n w notes s with
  | nil => rfl
  | cons task agenda ih =>
    obtain ⟨id, routine⟩ := task
    simp only [resumeAll, Resume.noting]
    cases resume id routine w (s.setState id .running) with
    | none => rfl
    | some result =>
      obtain ⟨outcome, w', after⟩ := result
      cases outcome with
      | stray found => rfl
      | finished => exact ih ..
      | failed message => exact ih ..
      | suspended seconds rest => exact ih ..

/-- What is recorded are the visits that lead to the new scheduler and to the answer. -/
theorem visits_of_resumeAll {resume : Resume ρ σ} {now : Float} {agenda : List (ThreadId × ρ)}
    {n : TickSummary} {w w' : σ} {record record' : List (Visit ρ)} {s s' : Scheduler ρ}
    {answer : Except Violation TickSummary}
    (h : resumeAll resume.recorded now agenda n (w, record) s =
      some (answer, (w', record'), s')) :
    ∃ visits, record' = record ++ visits ∧ Visits now s visits s' ∧
      Answers agenda n visits answer ∧ ∀ v ∈ visits, v.PaidBy resume := by
  induction agenda generalizing n w record s with
  | nil =>
    simp only [resumeAll, Option.some.injEq, Prod.mk.injEq] at h
    obtain ⟨rfl, ⟨-, rfl⟩, rfl⟩ := h
    exact ⟨[], (List.append_nil record).symm, .nil, .nil, fun _ hv => absurd hv List.not_mem_nil⟩
  | cons task agenda ih =>
    obtain ⟨id, routine⟩ := task
    simp only [resumeAll, Resume.recorded] at h
    cases hresume : resume id routine w (s.setState id .running) with
    | none => simp [hresume] at h
    | some result =>
      obtain ⟨outcome, w₁, after⟩ := result
      let v : Visit ρ := ⟨id, routine, s.setState id .running, outcome, after⟩
      have hpaid : v.PaidBy resume := ⟨w, w₁, hresume⟩
      -- unless the thread broke the rules, the rest of the agenda is visited after it
      have hrest (hstray : v.outcome.isStray = false)
          (h : resumeAll resume.recorded now agenda (n.count outcome) (w₁, record ++ [v])
            (after.settle now id outcome) = some (answer, (w', record'), s')) :
          ∃ visits, record' = record ++ visits ∧ Visits now s visits s' ∧
            Answers ((id, routine) :: agenda) n visits answer ∧ ∀ v ∈ visits, v.PaidBy resume := by
        obtain ⟨visits, rfl, hvisits, hanswers, hrest⟩ := ih h
        exact ⟨v :: visits, by simp, .cons (v := v) rfl hvisits, .cons (v := v) hstray hanswers,
          List.forall_mem_cons.mpr ⟨hpaid, hrest⟩⟩
      simp only [hresume, Option.map_some] at h
      cases outcome with
      | stray found =>
        simp only [Option.some.injEq, Prod.mk.injEq] at h
        obtain ⟨rfl, ⟨-, rfl⟩, rfl⟩ := h
        exact ⟨[v], rfl, .cons (v := v) rfl .nil, .stray (v := v) rfl,
          List.forall_mem_singleton.mpr hpaid⟩
      | finished => exact hrest rfl h
      | failed message => exact hrest rfl h
      | suspended seconds rest => exact hrest rfl h

theorem tick_noting {τ : Type} (resume : Resume ρ σ)
    (note : ThreadId → ρ → σ → Scheduler ρ → Outcome ρ → Scheduler ρ → τ) (now : Float) (w : σ)
    (s : Scheduler ρ) :
    tick resume now w s =
      (tick (resume.noting note) now (w, []) s).map fun (answer, (w, _), s) => (answer, w, s) := by
  unfold tick
  cases s.poison with
  | some v => rfl
  | none =>
    simp only
    rw [resumeAll_noting resume note now _ _ w []]
    cases resumeAll (resume.noting note) now (s.agenda now) .zero (w, []) (s.cancelCollected now)
      <;> rfl

/-- A tick that is recorded does the same as one that is not. -/
theorem tick_recorded (resume : Resume ρ σ) (now : Float) (w : σ) (s : Scheduler ρ) :
    tick resume now w s =
      (tick resume.recorded now (w, []) s).map fun (answer, (w, _), s) => (answer, w, s) :=
  tick_noting resume (fun id routine _ s outcome after => Visit.mk id routine s outcome after)
    now w s

/-- A tick does nothing if a thread has broken the rules before. Otherwise it resumes the threads of
the agenda and drops those that are done. -/
theorem resumeAll_of_tick {resume : Resume ρ σ} {now : Float} {w w' : σ} {s s' : Scheduler ρ}
    {answer : Except Violation TickSummary} (h : tick resume now w s = some (answer, w', s')) :
    (∃ v, s.poison = some v ∧ answer = .error v ∧ w' = w ∧ s' = s) ∨
      s.poison = none ∧ ∃ t, resumeAll resume now (s.agenda now) .zero w (s.cancelCollected now) =
        some (answer, w', t) ∧ s' = t.reap := by
  unfold tick at h
  cases hpoison : s.poison with
  | some v =>
    simp only [hpoison, Option.some.injEq, Prod.mk.injEq] at h
    obtain ⟨rfl, rfl, rfl⟩ := h
    exact .inl ⟨v, rfl, rfl, rfl, rfl⟩
  | none =>
    simp only [hpoison] at h
    obtain ⟨⟨answer, w', t⟩, hall, heq⟩ := Option.map_eq_some_iff.mp h
    obtain ⟨rfl, rfl, rfl⟩ : answer = _ ∧ w' = _ ∧ t.reap = _ := by simpa using heq
    exact .inr ⟨rfl, t, hall, rfl⟩

/-- So a tick visits the threads of the agenda, if it does anything. -/
theorem visits_of_tick {resume : Resume ρ σ} {now : Float} {w w' : σ} {visits : List (Visit ρ)}
    {s s' : Scheduler ρ} {answer : Except Violation TickSummary}
    (h : tick resume.recorded now (w, []) s = some (answer, (w', visits), s')) :
    (∃ v, s.poison = some v ∧ answer = .error v ∧ visits = [] ∧ s' = s) ∨
      s.poison = none ∧ Answers (s.agenda now) .zero visits answer ∧
        (∀ v ∈ visits, v.PaidBy resume) ∧
        ∃ t, Visits now (s.cancelCollected now) visits t ∧ s' = t.reap := by
  obtain ⟨v, hpoison, rfl, heq, rfl⟩ | ⟨hpoison, t, hall, rfl⟩ := resumeAll_of_tick h
  · exact .inl ⟨v, hpoison, rfl, (Prod.mk.inj heq).2, rfl⟩
  · obtain ⟨visits, hrecord, hvisits, hanswers, hpaid⟩ := visits_of_resumeAll hall
    obtain rfl := hrecord
    exact .inr ⟨hpoison, hanswers, hpaid, t, hvisits, rfl⟩

end Scheduler

end KeyLight
