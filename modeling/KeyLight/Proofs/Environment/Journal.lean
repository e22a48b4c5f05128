import KeyLight.Proofs.Environment.History
import KeyLight.Proofs.Scheduler.Delivery
import KeyLight.Proofs.World.Journal

/-!
# Failures that calls of the host note

`Environment.visits` are the visits that a tick of an environment pays to its threads. Drawing a
frame pays these and no others, whatever it comes to, and what it notes in the journal are the
failures of these visits (`Environment.draws_of_render`). Loading a script and calling a function of
it note none.
-/

namespace KeyLight

open Scheduler (Event Run Step)

variable {fuel : Nat}

/-! ### Ticks -/

/-- The visits that a tick pays to the threads that are due. -/
def World.visits (fuel : Nat) (w : World) (now : Float) : List (Visit Coroutine) :=
  match Scheduler.tick (resumeThread fuel).recorded now (w.toRealm, []) w.scheduler with
  | some (_, (_, visits), _) => visits
  | none => []

/-- A tick pays its visits and notes their failures. -/
theorem World.step_of_tick {w w' : World} {now : Float} {answer : Except Violation TickSummary}
    (h : w.tick fuel now = some (answer, w')) :
    (∃ ids, Step w.scheduler (.ticked now (w.visits fuel now) ids answer) w'.scheduler) ∧
      w'.noted = w.noted ++ (w.visits fuel now).filterMap Visit.failure? := by
  obtain ⟨⟨answer', r, s⟩, htick, heq⟩ := Option.map_eq_some_iff.mp h
  obtain ⟨rfl, rfl⟩ := Prod.mk.inj heq
  obtain ⟨visits, ids, hrecorded, hstep⟩ := Step.of_tick (resumeThread_startsOnly fuel)
    (resumeThread_keepsHandles fuel) htick
  have hvisits : w.visits fuel now = visits := by rw [World.visits, hrecorded]
  rw [hvisits]
  exact ⟨⟨ids, hstep⟩, noted_of_tick hrecorded⟩

namespace Environment

variable {e e₁ e' : Environment} {paid : List (Visit Coroutine)} {now : Float}

/-- The visits that a tick pays to the threads that are due. -/
def visits (fuel : Nat) (e : Environment) (now : Float) : List (Visit Coroutine) :=
  (e.withContext { e.world.context with clock := now }).world.visits fuel now

/-! ### Calls that pay no visits -/

theorem noted_load {script : List Stmt} {result : Except HostError Unit}
    (h : e.load fuel script = some (result, e')) : e'.world.noted = e.world.noted := by
  obtain rfl | ⟨halt, w, hrun, rfl⟩ := load_cases h
  · rfl
  · exact (Machine.changes_runScript hrun).noted_eq

theorem noted_invoke {name : String} {args : List Value} {result : Except HostError Bool}
    (h : e.invoke fuel name args = some (result, e')) : e'.world.noted = e.world.noted := by
  unfold invoke whenHealthy at h
  split at h
  · rw [(Prod.mk.inj (Option.some.inj h)).2]
  simp only at h
  split at h
  · obtain ⟨⟨halt, w⟩, hrun, heq⟩ := Option.map_eq_some_iff.mp h
    rw [← (Prod.mk.inj heq).2, answer_eq]
    exact (Machine.changes_runCall hrun).noted_eq
  split at h
  · rw [(Prod.mk.inj (Option.some.inj h)).2]
  · obtain ⟨-, rfl⟩ := Prod.mk.inj (Option.some.inj h)
    exact (e.world.noted_note _).trans (List.append_nil _)

theorem noted_publish (e : Environment) : e.publish.world.noted = e.world.noted := by
  unfold publish
  cases e.board with
  | none => rfl
  | some id =>
    simp only
    split <;> rfl

theorem noted_setBoard (e : Environment) (id : Nat) : (e.setBoard id).world.noted = e.world.noted :=
  noted_publish { e with board := some id }

theorem noted_attach (e : Environment) (id : Nat) : (e.attach id).world.noted = e.world.noted := by
  have hpublish := noted_publish (e.withContext { e.world.context with controller := some id })
  rw [attach]
  exact (Realm.noted_note _ .attached).trans ((List.append_nil _).trans hpublish)

theorem noted_detach (e : Environment) : e.detach.2.world.noted = e.world.noted :=
  (Realm.noted_note _ _).trans (List.append_nil _)

/-! ### Frames -/

/-- What a call does to the threads and to the journal that pays some visits: threads may be started
besides, the failures of the visits are noted, and nothing is handed over. -/
structure Draws (e : Environment) (paid : List (Visit Coroutine)) (e' : Environment) : Prop where
  run : ∃ events, Run e.world.scheduler events e'.world.scheduler ∧
    events.flatMap Event.visits = paid ∧ events.flatMap Event.delivered = []
  noted : e'.world.noted = e.world.noted ++ paid.filterMap Visit.failure?

theorem draws_of_tick {result : Except HostError TickSummary}
    (h : e.tick fuel now = some (result, e')) : e.Draws (e.visits fuel now) e' := by
  obtain ⟨⟨answer, w⟩, htick, heq⟩ := Option.map_eq_some_iff.mp h
  obtain ⟨⟨ids, hstep⟩, hnoted⟩ := World.step_of_tick htick
  obtain ⟨-, rfl⟩ := Prod.mk.inj heq
  exact ⟨⟨_, .single hstep, List.flatMap_singleton .., rfl⟩, hnoted⟩

/-- Calling a function after the visits pays no more of them. -/
theorem Draws.invoke {name : String} {args : List Value} {result : Except HostError Bool}
    (h : e.Draws paid e₁) (hinvoke : e₁.invoke fuel name args = some (result, e')) :
    e.Draws paid e' := by
  obtain ⟨events, hrun, hpaid, hdelivered⟩ := h.run
  obtain ⟨ids, hgrows⟩ := grows_invoke hinvoke
  obtain ⟨more, hmore, -, hquiet⟩ := hgrows.run
  refine ⟨⟨events ++ more, hrun.trans hmore, ?_, ?_⟩, (noted_invoke hinvoke).trans h.noted⟩
  · rw [List.flatMap_append, hpaid,
      List.flatMap_eq_nil_iff.mpr fun event hevent => (hquiet event hevent).1, List.append_nil]
  · rw [List.flatMap_append, hdelivered,
      List.flatMap_eq_nil_iff.mpr fun event hevent => (hquiet event hevent).2, List.append_nil]

/-- **Drawing a frame pays the visits of its tick**, also if the frame ends with an error. -/
theorem draws_of_render {target : Nat} {result : Except HostError Bool}
    (h : e.render fuel now target = some (result, e')) : e.Draws (e.visits fuel now) e' := by
  obtain ⟨answer, e₁, htick, hcases⟩ := render_cases h
  have hdraws := draws_of_tick htick
  obtain ⟨-, -, -, rfl⟩ | ⟨handle, passed, hinvoke⟩ := hcases
  · exact hdraws
  · -- the script is given a handle on the target, which is no matter for threads and journal
    have hready : e.Draws (e.visits fuel now) { e₁ with
        lastRender := some now
        world := (e₁.world.newObject (.target handle)).2 } := ⟨hdraws.run, hdraws.noted⟩
    exact hready.invoke hinvoke

/-- The failures of the visits are left for the host to take. -/
theorem Draws.failures_eq (h : e.Draws paid e') (hidle : e.world.scheduler.Idle) :
    e'.world.scheduler.failures =
      e.world.scheduler.failures ++ paid.filterMap Visit.failure? := by
  obtain ⟨events, hrun, rfl, hdelivered⟩ := h.run
  have heq := hrun.failures_eq hidle
  rwa [hdelivered, List.nil_append] at heq

end Environment

end KeyLight
