import KeyLight.Proofs.Machine.Moment
import KeyLight.Proofs.World.Turn

/-!
# The moments of a tick

The moments of a tick are those of its turns one after the other: in each of them a thread is called
or goes on, and it runs until it comes back. They record what has happened in the tick
(`World.recount_of_tick`), since the scheduler does nothing to the heap or to the controller.

A tick can be recorded in several ways at once, so each turn belongs to a visit
(`World.exists_visits_of_turns`).
-/

namespace KeyLight

/-! ### Turns -/

/-- The moments of a turn in a tick at the time `now`. A thread that has not run yet begins with a
call of its routine. -/
def Turn.moments (fuel : Nat) (now : Float) (t : Turn) : List Moment :=
  let steps := Machine.moments (.thread t.id now) fuel (Machine.entry t.world t.routine)
  match t.routine with
  | .unstarted routine _ =>
    ⟨.thread t.id now, t.world, .call ⟨routine, t.routine.passed, []⟩⟩ :: steps
  | .suspended .. => steps

/-- A thread comes back from its turn after at most `fuel` steps. -/
def Turn.ComesBack (fuel : Nat) (t : Turn) (halt : Halt) (w : World) : Prop :=
  Machine.runCoroutine fuel t.world t.routine = some (halt, w) ∧
    t.outcome = World.outcome w.heap halt

namespace Turn

variable {fuel : Nat} {now : Float} {t : Turn} {halt : Halt} {w : World}

theorem ComesBack.running (h : t.ComesBack fuel halt w) (now : Float) :
    Machine.Running (.thread t.id now) (Machine.entry t.world t.routine)
      (Machine.moments (.thread t.id now) fuel (Machine.entry t.world t.routine)) halt w :=
  Machine.running_of_run h.1

theorem ComesBack.played (h : t.ComesBack fuel halt w) :
    Machine.Played (.thread t.id now) (t.moments fuel now) halt w := by
  have hsteps := h.running now
  obtain ⟨id, routine, world, outcome⟩ := t
  cases routine with
  | fresh routine args => exact .call hsteps
  | suspended frames kept => exact .steps hsteps

theorem ComesBack.runner_eq (h : t.ComesBack fuel halt w) :
    ∀ m ∈ t.moments fuel now, m.runner = .thread t.id now :=
  h.played.runner_eq

/-- The moments of a turn record it. -/
theorem ComesBack.record (h : t.ComesBack fuel halt w) :
    World.Record t.world (t.moments fuel now) w := by
  have hsteps := World.record_of_running (h.running now)
  obtain ⟨id, routine, world, outcome⟩ := t
  cases routine with
  | fresh routine args =>
    refine .cons (.refl world) ?_
    exact hsteps
  | suspended frames kept => exact hsteps

/-- A thread that goes on from where it was suspended is given nil there. -/
theorem ComesBack.moments_suspended (h : t.ComesBack fuel halt w) {frames : List Frame}
    {kept : List Value} (hroutine : t.routine = .suspended frames kept) :
    ∃ ms, t.moments fuel now =
      ⟨.thread t.id now, t.world, .step (.give .nil) frames⟩ :: ms := by
  have hrun := h.running now
  obtain ⟨id, routine, world, outcome⟩ := t
  obtain rfl := hroutine
  change Machine.Running _ (.running world (.give .nil) frames) _ halt w at hrun
  generalize hms : Machine.moments _ fuel _ = ms at hrun
  cases hrun with
  | @step _ _ _ _ ms _ h => exact ⟨ms, hms⟩

end Turn

/-! ### Records of a tick -/

namespace Scheduler

variable {ρ σ τ υ : Type}

/-- What is made of a record can be made of it while it is written. -/
theorem resumeAll_noting_map (resume : Resume ρ σ)
    (note : ThreadId → ρ → σ → Scheduler ρ → Outcome ρ → Scheduler ρ → τ) (g : τ → υ)
    (now : Float) (agenda : List (ThreadId × ρ)) (n : TickSummary) (w : σ) (notes : List τ)
    (s : Scheduler ρ) :
    resumeAll (resume.noting fun id routine w s o after => g (note id routine w s o after)) now
        agenda n (w, notes.map g) s =
      (resumeAll (resume.noting note) now agenda n (w, notes) s).map
        fun (answer, (w, notes), s) => (answer, (w, notes.map g), s) := by
  induction agenda generalizing n w notes s with
  | nil => rfl
  | cons task agenda ih =>
    obtain ⟨id, routine⟩ := task
    simp only [resumeAll, Resume.noting]
    cases resume id routine w (s.setState id .running) with
    | none => rfl
    | some result =>
      obtain ⟨outcome, w', after⟩ := result
      have hlater := ih (n.count outcome) w'
        (notes ++ [note id routine w (s.setState id .running) outcome after])
        (after.settle now id outcome)
      rw [List.map_append] at hlater
      cases outcome with
      | stray found => simp
      | finished | failed message | suspended seconds rest => exact hlater

/-- So a tick with a record of one sort is a tick with a record of the other. -/
theorem tick_noting_map (resume : Resume ρ σ)
    (note : ThreadId → ρ → σ → Scheduler ρ → Outcome ρ → Scheduler ρ → τ) (g : τ → υ)
    (now : Float) (w : σ) (s : Scheduler ρ) :
    tick (resume.noting fun id routine w s o after => g (note id routine w s o after)) now
        (w, []) s =
      (tick (resume.noting note) now (w, []) s).map
        fun (answer, (w, notes), s) => (answer, (w, notes.map g), s) := by
  unfold tick
  cases s.poison with
  | some v => rfl
  | none =>
    have hall := resumeAll_noting_map resume note g now (s.agenda now) .zero w []
      (s.cancelCollected now)
    rw [List.map_nil] at hall
    simp only [hall]
    cases resumeAll (resume.noting note) now (s.agenda now) .zero (w, []) (s.cancelCollected now)
      <;> rfl

end Scheduler

namespace World

variable {r r' : Realm} {s s' : Scheduler Coroutine} {fuel : Nat} {now : Float}
  {answer : Except Violation TickSummary} {turns : List Turn}

/-- A visit, with the realm in which the thread begins to run. -/
def turnOf (visited : Realm × Visit Coroutine) : Turn :=
  ⟨visited.2.id, visited.2.routine, ⟨visited.1, visited.2.before⟩, visited.2.outcome⟩

/-- **The turns of a tick belong to its visits.** -/
theorem exists_visits_of_turns
    (h : Scheduler.tick (turnwise fuel) now (r, []) s = some (answer, (r', turns), s')) :
    ∃ visited : List (Realm × Visit Coroutine), turns = visited.map turnOf ∧
      Scheduler.tick (resumeThread fuel).recorded now (r, []) s =
        some (answer, (r', visited.map Prod.snd), s') := by
  let note (id : ThreadId) (routine : Coroutine) (r : Realm) (s : Scheduler Coroutine)
      (o : Outcome Coroutine) (after : Scheduler Coroutine) : Realm × Visit Coroutine :=
    (r, ⟨id, routine, s, o, after⟩)
  have hturns := Scheduler.tick_noting_map (resumeThread fuel) note turnOf now r s
  have hvisits := Scheduler.tick_noting_map (resumeThread fuel) note Prod.snd now r s
  obtain ⟨⟨answer', ⟨r₁, visited⟩, s₁⟩, htick, heq⟩ :=
    Option.map_eq_some_iff.mp (hturns.symm.trans h)
  obtain ⟨rfl, ⟨rfl, rfl⟩, rfl⟩ : answer' = answer ∧ (r₁ = r' ∧ visited.map turnOf = turns) ∧
    s₁ = s' := by simpa using heq
  refine ⟨visited, rfl, hvisits.trans ?_⟩
  rw [htick]
  rfl

/-! ### What happens in a tick -/

theorem sent_noteOutcome (r : Realm) (id : ThreadId) (o : Outcome Coroutine) :
    (noteOutcome r id o).sent = r.sent := by
  cases o with
  | failed message => exact (r.sent_note _).trans (List.append_nil _)
  | stray found => exact (r.sent_note _).trans (List.append_nil _)
  | finished | suspended => rfl

/-- Noting how a thread came back is nothing that scripts notice, whatever happens to the
scheduler. -/
theorem calm_noteOutcome (w : World) (id : ThreadId) (o : Outcome Coroutine)
    (s : Scheduler Coroutine) : w.Calm none ⟨noteOutcome w.toRealm id o, s⟩ := by
  refine Calm.congr (sent_noteOutcome w.toRealm id o) ?_ ?_ <;> cases o <;> rfl

/-- What the threads of an agenda do is told by their turns. -/
theorem recount_of_resumeAll {agenda : List (ThreadId × Coroutine)} {n : TickSummary}
    {record record' : List Turn}
    (h : Scheduler.resumeAll (turnwise fuel) now agenda n (r, record) s =
      some (answer, (r', record'), s')) :
    ∃ turns, record' = record ++ turns ∧
      Record ⟨r, s⟩ (turns.flatMap (Turn.moments fuel now)) ⟨r', s'⟩ ∧
      ∀ t ∈ turns, ∃ halt w, t.ComesBack fuel halt w := by
  induction agenda generalizing n r record s with
  | nil =>
    simp only [Scheduler.resumeAll, Option.some.injEq, Prod.mk.injEq] at h
    obtain ⟨-, ⟨rfl, rfl⟩, rfl⟩ := h
    exact ⟨[], (List.append_nil record).symm, .refl _, fun _ ht => absurd ht List.not_mem_nil⟩
  | cons task agenda ih =>
    obtain ⟨id, routine⟩ := task
    simp only [Scheduler.resumeAll, turnwise, Resume.noting] at h
    cases hrun : Machine.runCoroutine fuel ⟨r, s.setState id .running⟩ routine with
    | none => simp [resumeThread, hrun] at h
    | some stop =>
      obtain ⟨halt, w⟩ := stop
      obtain ⟨o, ho⟩ : ∃ o, o = outcome w.heap halt := ⟨_, rfl⟩
      simp only [resumeThread, hrun, Option.map_some, ← ho] at h
      let t : Turn := ⟨id, routine, ⟨r, s.setState id .running⟩, o⟩
      have hback : t.ComesBack fuel halt w := ⟨hrun, ho⟩
      have hstart : Calm none ⟨r, s⟩ t.world := .congr rfl rfl rfl
      -- whatever comes after the turn, the turn comes first
      have hmore (turns : List Turn) (s₁ : Scheduler Coroutine)
          (hrecord : record' = record ++ [t] ++ turns)
          (hlater : Record ⟨noteOutcome w.toRealm id o, s₁⟩
            (turns.flatMap (Turn.moments fuel now)) ⟨r', s'⟩)
          (hall : ∀ t ∈ turns, ∃ halt w, t.ComesBack fuel halt w) :
          ∃ turns, record' = record ++ turns ∧
            Record ⟨r, s⟩ (turns.flatMap (Turn.moments fuel now)) ⟨r', s'⟩ ∧
            ∀ t ∈ turns, ∃ halt w, t.ComesBack fuel halt w := by
        refine ⟨t :: turns, by simp [hrecord], ?_,
          List.forall_mem_cons.mpr ⟨⟨halt, w, hback⟩, hall⟩⟩
        rw [List.flatMap_cons]
        exact .of_calm hstart (hback.record.trans (.of_calm (calm_noteOutcome w id o s₁) hlater))
      cases o with
      | stray found =>
        simp only [Option.some.injEq, Prod.mk.injEq] at h
        obtain ⟨-, ⟨rfl, rfl⟩, rfl⟩ := h
        exact hmore [] _ (List.append_nil _).symm (.refl _) fun _ ht => absurd ht List.not_mem_nil
      | finished | failed _ | suspended _ _ =>
        obtain ⟨turns, hrecord, hlater, hall⟩ := ih h
        exact hmore turns _ hrecord hlater hall

/-- **The turns of a tick tell what has happened in it.** -/
theorem recount_of_tick {w w' : World} (h : w.tick fuel now = some (answer, w')) :
    ∃ turns, w.turns fuel now = some turns ∧
      Scheduler.tick (turnwise fuel) now (w.toRealm, []) w.scheduler =
        some (answer, (w'.toRealm, turns), w'.scheduler) ∧
      Record w (turns.flatMap (Turn.moments fuel now)) w' ∧
      ∀ t ∈ turns, ∃ halt w, t.ComesBack fuel halt w := by
  obtain ⟨⟨answer, r', s'⟩, htick, heq⟩ := Option.map_eq_some_iff.mp h
  obtain ⟨rfl, rfl⟩ := Prod.mk.inj heq
  rw [Scheduler.tick_noting _ (fun id routine r s outcome _ => Turn.mk id routine ⟨r, s⟩ outcome),
    Option.map_eq_some_iff] at htick
  obtain ⟨⟨answer', ⟨r₁, turns⟩, s₁⟩, htick, heq⟩ := htick
  obtain ⟨rfl, rfl, rfl⟩ : answer' = answer ∧ r₁ = r' ∧ s₁ = s' := by simpa using heq
  have hturns : w.turns fuel now = some turns := congrArg (Option.map _) htick
  refine ⟨turns, hturns, htick, ?_⟩
  obtain ⟨x, -, -, hnothing, rfl⟩ | ⟨-, t, hall, rfl⟩ := Scheduler.resumeAll_of_tick htick
  · obtain ⟨rfl, rfl⟩ := Prod.mk.inj hnothing
    exact ⟨.refl w, fun _ ht => absurd ht List.not_mem_nil⟩
  · obtain ⟨record, hrecord, hrecount, hback⟩ := recount_of_resumeAll hall
    obtain rfl := hrecord
    have hstart : w.Calm none ⟨w.toRealm, w.scheduler.cancelCollected now⟩ := .congr rfl rfl rfl
    have hend : Calm none ⟨r₁, t⟩ ⟨r₁, t.reap⟩ := .congr rfl rfl rfl
    have hrecord := (Record.of_calm hstart hrecount).trans (.nil hend)
    rw [List.append_nil] at hrecord
    exact ⟨hrecord, hback⟩

end World

end KeyLight
