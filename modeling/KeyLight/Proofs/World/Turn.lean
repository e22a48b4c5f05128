import KeyLight.Proofs.Machine.Yield
import KeyLight.Proofs.Scheduler.Tick

/-!
# The turns of a tick

A tick gives each thread that it resumes a turn. A `Turn` is the world in which the thread begins to
run, and how it comes back; `World.turns` are those of a tick, in their order. A tick of a plain
world leaves the world plain, and it answers with a violation just if the script of a thread gives
up control in its turn (`plain_tick`).
-/

namespace KeyLight

/-- One resume of a thread. -/
structure Turn where
  id : ThreadId
  /-- What the thread had left to do. -/
  routine : Coroutine
  /-- The world in which the thread begins to run. -/
  world : World
  outcome : Outcome Coroutine

/-- A statement of a script gives up control in the turn. -/
def Turn.YieldsExplicitly (t : Turn) : Prop := Machine.YieldsExplicitly t.world t.routine

namespace World

/-- Resuming threads with a record of the turns. -/
def turnwise (fuel : Nat) : Resume Coroutine (Realm × List Turn) :=
  (resumeThread fuel).noting fun id routine r s outcome _ => Turn.mk id routine ⟨r, s⟩ outcome

/-- The turns of a tick at the time `now`. -/
def turns (fuel : Nat) (now : Float) (w : World) : Option (List Turn) :=
  (Scheduler.tick (turnwise fuel) now (w.toRealm, []) w.scheduler).map fun (_, (_, turns), _) =>
    turns

variable {w : World} {r r' : Realm} {s s' : Scheduler Coroutine} {id : ThreadId} {fuel : Nat}
  {now : Float} {routine : Coroutine} {o : Outcome Coroutine}

/-! ### What the scheduler does to a plain world -/

/-- Threads that have nothing left to do but what they had before. -/
theorem Plain.withScheduler (hw : Plain ⟨r, s⟩)
    (h : ∀ id t' routine, s'.thread? id = some t' → t'.routine = some routine →
      ∃ t, s.thread? id = some t ∧ t.routine = some routine) : Plain ⟨r, s'⟩ where
  locals := hw.locals
  tables := hw.tables
  globals := hw.globals
  threads := fun id t' routine ht' hroutine => by
    obtain ⟨t, ht, hsame⟩ := h id t' routine ht' hroutine
    exact hw.threads id t routine ht hsame

theorem Plain.setState (hw : Plain ⟨r, s⟩) (id : ThreadId) (state : ThreadState) :
    Plain ⟨r, s.setState id state⟩ :=
  hw.withScheduler fun other t' routine ht' hroutine => by
    rw [Scheduler.thread?_setState] at ht'
    split at ht'
    · rename_i heq
      obtain ⟨t, ht, rfl⟩ := Option.map_eq_some_iff.mp ht'
      exact ⟨t, heq ▸ ht, hroutine⟩
    · exact ⟨t', ht', hroutine⟩

theorem Plain.cancel (hw : Plain ⟨r, s⟩) (ids : List ThreadId) :
    Plain ⟨r, s.updateAll ids Thread.cancel⟩ :=
  hw.withScheduler fun id t' routine ht' hroutine => by
    obtain ⟨t, ht, rfl | rfl⟩ := Scheduler.thread?_of_cancel ht'
    · exact ⟨t', ht, hroutine⟩
    · exact ⟨t, ht, hroutine⟩

theorem Plain.cancelCollected (hw : w.Plain) (now : Float) :
    Plain ⟨w.toRealm, w.scheduler.cancelCollected now⟩ := by
  rw [Scheduler.cancelCollected_eq]
  exact cancel hw _

theorem Plain.agenda (hw : w.Plain) (now : Float) :
    ∀ task ∈ w.scheduler.agenda now, w.heap.Plain task.2.nodes := fun task htask => by
  obtain ⟨t, ht, hroutine⟩ := Scheduler.routine_of_mem_agenda htask
  exact hw.threads task.1 t task.2 ht hroutine

theorem Plain.reap (hw : Plain ⟨r, s⟩) : Plain ⟨r, s.reap⟩ :=
  hw.withScheduler fun id t' routine ht' hroutine => by
    rw [Scheduler.thread?_reap] at ht'
    split at ht'
    · obtain ⟨t, -, rfl⟩ := Option.map_eq_some_iff.mp ht'
      cases hroutine
    · exact ⟨t', ht', hroutine⟩

theorem Plain.settle (hw : Plain ⟨r, s⟩) (now : Float) (id : ThreadId)
    (hrest : ∀ rest, o.rest? = some rest → r.heap.Plain rest.nodes) :
    Plain ⟨r, s.settle now id o⟩ where
  locals := hw.locals
  tables := hw.tables
  globals := hw.globals
  threads := fun other t' routine ht' hroutine => by
    rw [Scheduler.thread?_settle] at ht'
    split at ht'
    · obtain ⟨t, ht, rfl⟩ := Option.map_eq_some_iff.mp ht'
      obtain hnew | ⟨-, hold⟩ := Option.or_eq_some_iff.mp hroutine
      · exact hrest routine hnew
      · exact hw.threads id t routine ht hold
    · exact hw.threads other t' routine ht' hroutine

/-! ### Turns -/

/-- What a thread does in its turn. -/
theorem plain_resumeThread (hw : Plain ⟨r, s⟩) (hroutine : r.heap.Plain routine.nodes)
    (h : resumeThread fuel id routine r s = some (o, r', s')) :
    Plain ⟨r', s'⟩ ∧ r.heap.Keeps r'.heap ∧
      (∀ rest, o.rest? = some rest → r'.heap.Plain rest.nodes) ∧
      (o.isStray = true ↔ Machine.YieldsExplicitly ⟨r, s⟩ routine) := by
  unfold resumeThread at h
  cases hrun : Machine.runCoroutine fuel ⟨r, s⟩ routine with
  | none => simp [hrun] at h
  | some stop =>
    obtain ⟨halt, w⟩ := stop
    simp only [hrun, Option.some.injEq, Prod.mk.injEq] at h
    obtain ⟨rfl, rfl, rfl⟩ := h
    have hstray := Machine.isStray_outcome_iff hw hroutine hrun
    rw [Machine.runCoroutine_eq] at hrun
    have hfirst := Machine.plain_entry hw hroutine
    have hreaches := Machine.reaches_of_run hrun
    have hlast := hreaches.plain hfirst.toPlain
    have hkeeps := hfirst.keeps.trans (hreaches.keeps hfirst.toPlain)
    have hheap (o : Outcome Coroutine) : (noteOutcome w.toRealm id o).heap = w.heap := by
      cases o <;> rfl
    have hglobals (o : Outcome Coroutine) : (noteOutcome w.toRealm id o).globals = w.globals := by
      cases o <;> rfl
    refine ⟨hlast.world.congr (hheap _) (hglobals _) rfl, ?_, fun rest hrest => ?_, hstray⟩
    · rw [hheap]
      exact hkeeps
    rw [hheap]
    cases halt with
    | returned v => cases hrest
    | raised f => cases hrest
    | yielded vs frames kept =>
      unfold outcome at hrest
      simp only at hrest
      split at hrest
      · obtain rfl := Option.some.inj hrest
        exact hlast.nodes
      · cases hrest

/-- What there is to say of the turns of an agenda: each of them begins in a plain world and with a
plain routine, the threads are those of the agenda in order, and the answer is a violation just if
one of them broke the rules. -/
structure Played (agenda : List (ThreadId × Coroutine)) (turns : List Turn)
    (answer : Except Violation TickSummary) : Prop where
  plain : ∀ t ∈ turns, t.world.Plain ∧ t.world.heap.Plain t.routine.nodes
  strays : ∀ t ∈ turns, t.outcome.isStray = true ↔ t.YieldsExplicitly
  answers : (∃ x, answer = .error x) ↔ ∃ t ∈ turns, t.outcome.isStray = true
  ordered : ∃ later, agenda = turns.map (fun t => (t.id, t.routine)) ++ later

namespace Played

variable {agenda : List (ThreadId × Coroutine)} {turns : List Turn} {t : Turn}
  {answer : Except Violation TickSummary}

theorem nil (agenda : List (ThreadId × Coroutine)) (n : TickSummary) :
    Played agenda [] (.ok n) where
  plain := fun _ ht => absurd ht List.not_mem_nil
  strays := fun _ ht => absurd ht List.not_mem_nil
  answers := by
    constructor
    · rintro ⟨x, hx⟩
      cases hx
    · rintro ⟨t, ht, -⟩
      cases ht
  ordered := ⟨agenda, rfl⟩

/-- A turn in which a thread breaks the rules is the last one. -/
theorem stray (hplain : t.world.Plain ∧ t.world.heap.Plain t.routine.nodes)
    (hstrays : t.outcome.isStray = true ↔ t.YieldsExplicitly) (hstray : t.outcome.isStray = true)
    (x : Violation) : Played ((t.id, t.routine) :: agenda) [t] (.error x) where
  plain := List.forall_mem_singleton.mpr hplain
  strays := List.forall_mem_singleton.mpr hstrays
  answers := iff_of_true ⟨x, rfl⟩ ⟨t, List.mem_singleton_self t, hstray⟩
  ordered := ⟨agenda, rfl⟩

theorem cons (hplain : t.world.Plain ∧ t.world.heap.Plain t.routine.nodes)
    (hstrays : t.outcome.isStray = true ↔ t.YieldsExplicitly) (hstray : t.outcome.isStray = false)
    (h : Played agenda turns answer) :
    Played ((t.id, t.routine) :: agenda) (t :: turns) answer where
  plain := List.forall_mem_cons.mpr ⟨hplain, h.plain⟩
  strays := List.forall_mem_cons.mpr ⟨hstrays, h.strays⟩
  answers := by
    rw [h.answers]
    constructor
    · rintro ⟨u, hu, hbreaks⟩
      exact ⟨u, List.mem_cons_of_mem t hu, hbreaks⟩
    · rintro ⟨u, hu, hbreaks⟩
      rcases List.mem_cons.mp hu with rfl | hu
      · rw [hstray] at hbreaks
        cases hbreaks
      · exact ⟨u, hu, hbreaks⟩
  ordered := by
    obtain ⟨later, rfl⟩ := h.ordered
    exact ⟨later, rfl⟩

end Played

/-- What the threads of an agenda do in their turns. -/
theorem turns_of_resumeAll {agenda : List (ThreadId × Coroutine)} {n : TickSummary}
    {record record' : List Turn} {answer : Except Violation TickSummary} (hw : Plain ⟨r, s⟩)
    (hagenda : ∀ task ∈ agenda, r.heap.Plain task.2.nodes)
    (h : Scheduler.resumeAll (turnwise fuel) now agenda n (r, record) s =
      some (answer, (r', record'), s')) :
    ∃ turns, record' = record ++ turns ∧ Plain ⟨r', s'⟩ ∧ r.heap.Keeps r'.heap ∧
      Played agenda turns answer := by
  -- a turn keeps the objects, so the routines that are still to run stay plain
  induction agenda generalizing n r record s with
  | nil =>
    simp only [Scheduler.resumeAll, Option.some.injEq, Prod.mk.injEq] at h
    obtain ⟨rfl, ⟨rfl, rfl⟩, rfl⟩ := h
    exact ⟨[], (List.append_nil record).symm, hw, .refl r.heap, .nil [] n⟩
  | cons task agenda ih =>
    obtain ⟨id, routine⟩ := task
    have hrunning := hw.setState id .running
    have hroutine : r.heap.Plain routine.nodes := hagenda (id, routine) List.mem_cons_self
    simp only [Scheduler.resumeAll, turnwise, Resume.noting] at h
    cases hresume : resumeThread fuel id routine r (s.setState id .running) with
    | none => simp [hresume] at h
    | some result =>
      obtain ⟨o, r₁, s₁⟩ := result
      obtain ⟨hw₁, hkeeps, hrest, hstray⟩ := plain_resumeThread hrunning hroutine hresume
      have hsettled := hw₁.settle now id hrest
      let t : Turn := ⟨id, routine, ⟨r, s.setState id .running⟩, o⟩
      have hplain : t.world.Plain ∧ t.world.heap.Plain t.routine.nodes := ⟨hrunning, hroutine⟩
      simp only [hresume, Option.map_some] at h
      -- unless the thread broke the rules, the rest of the agenda has its turns after it
      have hlater (hnot : o.isStray = false)
          (h : Scheduler.resumeAll (turnwise fuel) now agenda (n.count o) (r₁, record ++ [t])
            (s₁.settle now id o) = some (answer, (r', record'), s')) :
          ∃ turns, record' = record ++ turns ∧ Plain ⟨r', s'⟩ ∧ r.heap.Keeps r'.heap ∧
            Played ((id, routine) :: agenda) turns answer := by
        obtain ⟨turns, rfl, hw', hkeeps', hplayed⟩ := ih hsettled
          (fun task htask => (hagenda task (List.mem_cons_of_mem _ htask)).keeps hkeeps) h
        exact ⟨t :: turns, by simp, hw', hkeeps.trans hkeeps',
          hplayed.cons (t := t) hplain hstray hnot⟩
      cases o with
      | stray found =>
        simp only [Option.some.injEq, Prod.mk.injEq] at h
        obtain ⟨rfl, ⟨rfl, rfl⟩, rfl⟩ := h
        exact ⟨[t], rfl, hsettled, hkeeps, .stray (t := t) hplain hstray rfl _⟩
      | finished => exact hlater rfl h
      | failed message => exact hlater rfl h
      | suspended seconds rest => exact hlater rfl h

/-- Between two turns nothing else is at hand. -/
theorem plain_of_resumeAll {agenda : List (ThreadId × Coroutine)} {n : TickSummary}
    {answer : Except Violation TickSummary} (hw : Plain ⟨r, s⟩)
    (hagenda : ∀ task ∈ agenda, r.heap.Plain task.2.nodes)
    (h : Scheduler.resumeAll (resumeThread fuel) now agenda n r s = some (answer, r', s')) :
    Plain ⟨r', s'⟩ ∧ r.heap.Keeps r'.heap := by
  rw [Scheduler.resumeAll_noting _
    (fun id routine r s outcome _ => Turn.mk id routine ⟨r, s⟩ outcome) now agenda n r []] at h
  obtain ⟨⟨answer, ⟨r₁, record⟩, s₁⟩, hall, heq⟩ := Option.map_eq_some_iff.mp h
  obtain ⟨-, rfl, rfl⟩ : _ ∧ r₁ = r' ∧ s₁ = s' := by simpa using heq
  obtain ⟨-, -, hw', hkeeps, -⟩ := turns_of_resumeAll hw hagenda hall
  exact ⟨hw', hkeeps⟩

/-! ### Ticks -/

/-- **What a tick does to a plain world.** The world stays plain, and there are turns unless a
thread has broken the rules before. -/
theorem plain_tick {w' : World} {answer : Except Violation TickSummary} (hw : w.Plain)
    (h : w.tick fuel now = some (answer, w')) :
    w'.Plain ∧ ∃ turns, w.turns fuel now = some turns ∧
      ((∃ x, w.scheduler.poison = some x ∧ answer = .error x ∧ turns = []) ∨
        w.scheduler.poison = none ∧ Played (w.scheduler.agenda now) turns answer) := by
  obtain ⟨⟨answer, r', s'⟩, htick, heq⟩ := Option.map_eq_some_iff.mp h
  obtain ⟨rfl, rfl⟩ := Prod.mk.inj heq
  rw [Scheduler.tick_noting _ (fun id routine r s outcome _ => Turn.mk id routine ⟨r, s⟩ outcome),
    Option.map_eq_some_iff] at htick
  obtain ⟨⟨answer', ⟨r₁, turns⟩, s₁⟩, htick, heq⟩ := htick
  obtain ⟨rfl, rfl, rfl⟩ : answer' = answer ∧ r₁ = r' ∧ s₁ = s' := by simpa using heq
  have hturns : w.turns fuel now = some turns := congrArg (Option.map _) htick
  obtain ⟨x, hpoison, rfl, hnothing, rfl⟩ | ⟨hpoison, t, hall, rfl⟩ :=
    Scheduler.resumeAll_of_tick htick
  · obtain ⟨rfl, rfl⟩ := Prod.mk.inj hnothing
    exact ⟨hw, [], hturns, .inl ⟨x, hpoison, rfl, rfl⟩⟩
  · obtain ⟨record, hrecord, hplain, -, hplayed⟩ :=
      turns_of_resumeAll (hw.cancelCollected now) (hw.agenda now) hall
    obtain rfl := hrecord
    exact ⟨hplain.reap, turns, hturns, .inr ⟨hpoison, hplayed⟩⟩

end World

end KeyLight
