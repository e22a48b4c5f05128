import KeyLight.Environment.Basic
import KeyLight.Proofs.Machine.Yield
import KeyLight.Proofs.Scheduler.Cancelling
import KeyLight.Proofs.World.Thread

/-!
# Controllers that call back

A controller that is told a text may call back before the script goes on, and do to the world what
it likes; it is a function on worlds here. `resumeHeard` resumes a thread under such a controller,
and is `resumeThread` if the controller does nothing (`resumeHeard_id`). A controller that detaches
itself cancels all threads in the middle of a tick. The main statement says what becomes of them:
the tick resumes them all the same, and later ones do not.
-/

namespace KeyLight

/-! ### Running scripts under a controller that calls back -/

namespace Machine

variable {onPrint : World → World} {place : Place} {w w' : World} {halt : Halt} {fuel : Nat}

/-- What a step from the world `w` leads to, once the controller has called back if it was told a
text. A step tells of nothing else. -/
def heard (onPrint : World → World) (w : World) (next : Next) : Next :=
  if w.journal.size < next.world.journal.size then next.mapWorld onPrint else next

/-- Runs for at most `fuel` steps, each of them heard by the controller. -/
def runHeard (onPrint : World → World) (place : Place) : Nat → Next → Option (Halt × World)
  | _, .halted w halt => some (halt, w)
  | 0, .running .. => none
  | fuel + 1, .running w control frames =>
    runHeard onPrint place fuel (heard onPrint w (step place w control frames))

theorem heard_id (w : World) (next : Next) : heard (fun w => w) w next = next := by
  have hmap : next.mapWorld (fun w => w) = next := by cases next <;> rfl
  rw [heard, hmap, ite_self]

theorem runHeard_id (fuel : Nat) (next : Next) :
    runHeard (fun w => w) place fuel next = run place fuel next := by
  induction fuel generalizing next with
  | zero => cases next <;> rfl
  | succ fuel ih =>
    cases next with
    | running w control frames =>
      rw [runHeard, heard_id, ih]
      rfl
    | halted w halt => rfl

/-- What calling an environment back does to the scheduler: threads are started, failures taken, or
all threads cancelled. -/
def CallsBack (onPrint : World → World) : Prop :=
  ∀ w : World, w.scheduler.Disturbed (onPrint w).scheduler

/-- Whatever a script does in a step, with what the controller then does. -/
theorem disturbed_heard (hcalls : CallsBack onPrint) {next : Next}
    (h : w.Changes next.world) :
    w.scheduler.Disturbed (heard onPrint w next).world.scheduler := by
  obtain ⟨ids, hgrows⟩ := h.grows
  have hstep := Scheduler.Disturbed.refl.grow hgrows
  unfold heard
  split
  · rw [Next.world_mapWorld]
    exact hstep.trans (hcalls next.world)
  · exact hstep

theorem disturbed_runHeard (hcalls : CallsBack onPrint)
    {next : Next} (h : runHeard onPrint place fuel next = some (halt, w')) :
    next.world.scheduler.Disturbed w'.scheduler := by
  induction fuel generalizing next with
  | zero =>
    cases next with
    | running => cases h
    | halted w halt' =>
      obtain ⟨rfl, rfl⟩ := Prod.mk.inj (Option.some.inj h)
      exact .refl
  | succ fuel ih =>
    cases next with
    | running w control frames =>
      exact (disturbed_heard hcalls (changes_step place w frames control)).trans (ih h)
    | halted w halt' =>
      obtain ⟨rfl, rfl⟩ := Prod.mk.inj (Option.some.inj h)
      exact .refl

theorem changes_entry (w : World) (routine : Coroutine) : w.Changes (entry w routine).world := by
  cases routine with
  | fresh f args =>
    rw [entry_fresh]
    exact changes_call .thread w [] f args
  | suspended frames kept => exact .refl w

end Machine

namespace World

open Machine

variable {onPrint : World → World} {fuel : Nat}

/-- Resumes a thread under a controller that calls back. -/
def resumeHeard (onPrint : World → World) (fuel : Nat) : Resume Coroutine Realm :=
  fun id routine r s =>
    match runHeard onPrint .thread fuel (heard onPrint ⟨r, s⟩ (entry ⟨r, s⟩ routine)) with
    | none => none
    | some (halt, w) =>
      let o := outcome w.heap halt
      some (o, noteOutcome w.toRealm id o, w.scheduler)

/-- A controller that does nothing makes no difference. -/
theorem resumeHeard_id (fuel : Nat) : resumeHeard (fun w => w) fuel = resumeThread fuel := by
  funext id routine r s
  have hsame : runHeard (fun w => w) .thread fuel
      (heard (fun w => w) ⟨r, s⟩ (entry ⟨r, s⟩ routine)) = runCoroutine fuel ⟨r, s⟩ routine := by
    rw [heard_id, runHeard_id, runCoroutine_eq]
  unfold resumeHeard resumeThread
  cases hrun : runCoroutine fuel ⟨r, s⟩ routine <;> simp only [hsame, hrun]

/-- What happens to the scheduler while a thread runs under a controller that calls back. -/
theorem resumeHeard_disturbs (hcalls : CallsBack onPrint) :
    (resumeHeard onPrint fuel).Disturbs := by
  intro id routine r s o r' s' h
  have hfirst := disturbed_heard hcalls (changes_entry ⟨r, s⟩ routine)
  unfold resumeHeard at h
  split at h
  · cases h
  · rename_i halt w hrun
    obtain ⟨-, -, rfl⟩ : _ ∧ _ ∧ w.scheduler = s' := by simpa using h
    exact hfirst.trans (disturbed_runHeard hcalls hrun)

/-! ### Cancelling from inside a tick -/

/-- **Threads that are cancelled in the middle of a tick run on in it.** In whatever way the host
calls back, and at whatever moment all threads are cancelled while one of them runs, those that are
live then become cancelled, and no later tick resumes them or changes their state. The tick itself
resumes all the threads that were due when it began, unless one breaks the rules: a thread that was
cancelled is resumed like the others, and its last state, as that of the thread in whose course all
were cancelled, is the one in which it comes back. -/
theorem cancelled_threads_run_on {resume : Resume Coroutine Realm} (hresume : resume.Disturbs)
    {past : List (Visit Coroutine)} {s s' : Scheduler Coroutine}
    (hpast : Scheduler.Course .empty past s) {now : Float} {r r' : Realm}
    {answer : Except Violation TickSummary} {earlier later : List (Visit Coroutine)}
    {v : Visit Coroutine}
    (h : Scheduler.tick resume.recorded now (r, []) s =
      some (answer, (r', earlier ++ v :: later), s'))
    {m : Scheduler Coroutine} (hbefore : v.before.Disturbed m)
    (hafter : m.cancelAll.2.Disturbed v.after) :
    (∀ id ∈ m.live, m.cancelAll.2.state? id = some .cancelled ∧
      v.after.state? id = some .cancelled ∧
      s'.state? id = some (Scheduler.lastState now id .cancelled (v :: later))) ∧
    (∀ more s'', Scheduler.Course s' more s'' → ∀ id ∈ m.live,
      (∀ u ∈ more, u.id ≠ id) ∧ s''.state? id = s'.state? id) ∧
    ∀ n, answer = .ok n →
      (earlier ++ v :: later).map (fun u => (u.id, u.routine)) = s.agenda now := by
  have hknown : s.Known := hpast.known Scheduler.known_empty
  refine ⟨fun id hid => ?_, fun more s'' hmore id hid => ?_, fun n hn => ?_⟩
  · obtain ⟨hcancelled, hback, hlast⟩ :=
      Scheduler.cancelling_during_tick hresume hknown h hbefore hafter hid
    exact ⟨hcancelled.state, hback.state, hlast.state⟩
  · obtain ⟨-, -, hlast⟩ := Scheduler.cancelling_during_tick hresume hknown h hbefore hafter hid
    obtain ⟨hunvisited, hstays⟩ := hmore.dropped hlast
    exact ⟨hunvisited, hstays.state.trans hlast.state.symm⟩
  · obtain ⟨-, -, -, hnone, -⟩ | ⟨-, hanswers, -, -⟩ := Scheduler.visits_of_tick h
    · simp at hnone
    · subst hn
      exact hanswers.agenda_eq.symm

/-- A controller that detaches itself when it is told a text. -/
def detaching (w : World) : World := (Environment.detach ⟨w, {}, none, none⟩).2.world

theorem detaching_callsBack : CallsBack detaching := fun _ => .cancel .refl

/-- A controller is attached, and there are two threads that print. -/
def printing : World :=
  let w := ((Environment.start (Host.empty.addController .literal).2 {}).attach 0).world
  let print := Value.builtin (.capability .print)
  (Effect.startThread (Effect.startThread w print []).2 print []).2

theorem course_printing : Scheduler.Course .empty [] printing.scheduler :=
  .disturb .nil (.grow .refl ((Scheduler.Grows.refl.spawn _).spawn _))

/-- The tick in which they run, if the controller detaches itself. -/
def detachedTick : Option
    (Except Violation TickSummary × (Realm × List (Visit Coroutine)) × Scheduler Coroutine) :=
  Scheduler.tick (resumeHeard detaching 5).recorded 0.0 (printing.toRealm, []) printing.scheduler

/-- Both threads are cancelled in the course of the first one. The second one is resumed all the
same, and fails because there is no controller to print any more. -/
theorem exists_detachedTick_eq :
    ∃ answer r v u s, detachedTick = some (answer, (r, [v, u]), s) ∧
      v.before.live = [1, 2] ∧ v.after = v.before.cancelAll.2 ∧
      v.after.state? 2 = some .cancelled ∧ u.id = 2 ∧ s.state? 2 = some .errored := by
  have hlast : detachedTick.map (fun (_, (_, visits), s) => (visits.map Visit.id, s.state? 2)) =
      some ([1, 2], some .errored) := rfl
  have hfirst : detachedTick.map (fun (_, (_, visits), _) => visits.head?.map
      fun v : Visit Coroutine => (v.before.live, v.after.state? 2)) =
      some (some ([1, 2], some .cancelled)) := rfl
  have hcancels : detachedTick.map (fun (_, (_, visits), _) => visits.head?.map Visit.after) =
      detachedTick.map (fun (_, (_, visits), _) => visits.head?.map
        fun v : Visit Coroutine => v.before.cancelAll.2) := rfl
  cases htick : detachedTick with
  | none => simp [htick] at hlast
  | some result =>
    obtain ⟨answer, ⟨r, visits⟩, s⟩ := result
    rw [htick] at hlast hfirst hcancels
    obtain ⟨hids, herrored⟩ : visits.map Visit.id = [1, 2] ∧ s.state? 2 = some .errored := by
      simpa using hlast
    obtain ⟨v, rest, rfl, -, hrest⟩ := List.map_eq_cons_iff.mp hids
    obtain ⟨u, rest, rfl, hu, hnil⟩ := List.map_eq_cons_iff.mp hrest
    obtain rfl := List.map_eq_nil_iff.mp hnil
    obtain ⟨hlive, hcancelled⟩ := Prod.mk.inj (Option.some.inj (Option.some.inj hfirst))
    exact ⟨answer, r, v, u, s, rfl, hlive, Option.some.inj (Option.some.inj hcancels),
      hcancelled, hu, herrored⟩

/-- The last state of the second thread is the one in which it comes back, and no later tick resumes
it. -/
theorem cancelled_threads_run_on_printing :
    ∃ answer r v u s, detachedTick = some (answer, (r, [v, u]), s) ∧
      v.after.state? 2 = some .cancelled ∧ u.id = 2 ∧ s.state? 2 = some (u.outcome.state 0.0) ∧
      ∀ more s', Scheduler.Course s more s' → ∀ later ∈ more, later.id ≠ 2 := by
  obtain ⟨answer, r, v, u, s, htick, hlive, hcancels, hcancelled, hid, -⟩ :=
    exists_detachedTick_eq
  have hvisits : detachedTick = some (answer, (r, [] ++ v :: [u]), s) := htick
  have hafter : v.before.cancelAll.2.Disturbed v.after := hcancels ▸ .refl
  have hboth : 2 ∈ v.before.live := by rw [hlive]; decide
  obtain ⟨hstates, hlater, -⟩ :=
    cancelled_threads_run_on (resumeHeard_disturbs detaching_callsBack) course_printing hvisits
      .refl hafter
  obtain ⟨-, -, hlast⟩ := hstates 2 hboth
  refine ⟨answer, r, v, u, s, htick, hcancelled, hid, ?_, fun more s' hmore =>
    (hlater more s' hmore 2 hboth).1⟩
  rw [hlast]
  simp [Scheduler.lastState, hid]

/-- So a thread may be resumed after it is cancelled, and its state may change. -/
theorem not_forall_cancelled_stay :
    ¬ ∀ (onPrint : World → World) (w : World) (fuel : Nat) (now : Float)
      (answer : Except Violation TickSummary) (r : Realm) (s : Scheduler Coroutine)
      (earlier later : List (Visit Coroutine)) (v : Visit Coroutine) (id : ThreadId),
      CallsBack onPrint → Scheduler.Course .empty [] w.scheduler →
      Scheduler.tick (resumeHeard onPrint fuel).recorded now (w.toRealm, []) w.scheduler =
        some (answer, (r, earlier ++ v :: later), s) →
      v.after.state? id = some .cancelled →
      (∀ u ∈ later, u.id ≠ id) ∧ s.state? id = some .cancelled := by
  intro hall
  obtain ⟨answer, r, v, u, s, htick, -, -, hcancelled, hid, -⟩ := exists_detachedTick_eq
  exact (hall detaching printing 5 0.0 answer r s [] [u] v 2 detaching_callsBack course_printing
    htick hcancelled).1 u (List.mem_singleton_self u) hid

end World

end KeyLight
