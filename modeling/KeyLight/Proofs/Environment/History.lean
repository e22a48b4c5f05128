import KeyLight.Proofs.Environment.Calls
import KeyLight.Proofs.Scheduler.History
import KeyLight.Proofs.World.Thread

/-!
# The scheduler of an environment

`Call` is what the host can do with an environment. Whatever it does, what happens to the scheduler
is a run (`Call.run`), so the theorems on runs hold of the threads of every environment that can
come about (`reachable_scheduler`).

A `Trace` is a history of calls that also tells the events of the scheduler. Every history has one
(`exists_trace`).
-/

namespace KeyLight.Environment

open Relation
open Scheduler (Event Run Step)

/-- What the host does with an environment. -/
inductive Call (e : Environment) : Environment → Prop
  | withHost (host : Host) : Call e (e.withHost host)
  | attach (id : Nat) : Call e (e.attach id)
  | detach : Call e e.detach.2
  | setBoard (id : Nat) : Call e (e.setBoard id)
  | setGlobal (name : String) (v : Value) : Call e (e.setGlobal name v)
  | giveObject (name : String) (o : Object) : Call e (e.giveObject name o)
  | collect : Call e e.collect
  | takeFailures : Call e e.takeFailures.2
  | spawn {f v : Value} {args : List Value} {form : World.HandleForm} {w : World}
      (h : e.world.spawn f args form = .ok (v, w)) : Call e { e with world := w }
  | load {fuel : Nat} {script : List Stmt} {result : Except HostError Unit} {e' : Environment}
      (h : e.load fuel script = some (result, e')) : Call e e'
  | evaluate {fuel : Nat} {expr : Expr} {result : Except HostError Value} {e' : Environment}
      (h : e.evaluate fuel expr = some (result, e')) : Call e e'
  | invoke {fuel : Nat} {name : String} {args : List Value} {result : Except HostError Bool}
      {e' : Environment} (h : e.invoke fuel name args = some (result, e')) : Call e e'
  | resumeDue {fuel : Nat} {now : Float} {result : Except HostError TickSummary}
      {e' : Environment} (h : e.resumeDue fuel now = some (result, e')) : Call e e'
  | tick {fuel : Nat} {now : Float} {result : Except HostError TickSummary} {e' : Environment}
      (h : e.tick fuel now = some (result, e')) : Call e e'
  | render {fuel : Nat} {now : Float} {target : Nat} {result : Except HostError Bool}
      {e' : Environment} (h : e.render fuel now target = some (result, e')) : Call e e'
  | keyEvent {fuel index : Nat} {pressed : Bool} {result : Except HostError Bool}
      {e' : Environment} (h : e.keyEvent fuel index pressed = some (result, e')) : Call e e'

variable {e e' : Environment} {fuel : Nat}

/-! ### Running scripts -/

/-- Loading a script starts threads, and does nothing else to the scheduler. -/
theorem grows_load {script : List Stmt} {result : Except HostError Unit}
    (h : e.load fuel script = some (result, e')) :
    ∃ ids, e.world.scheduler.Grows ids e'.world.scheduler := by
  obtain rfl | ⟨halt, w, hrun, rfl⟩ := load_cases h
  · exact ⟨[], .refl⟩
  · exact (Machine.changes_runScript hrun).grows

theorem grows_evaluate {expr : Expr} {result : Except HostError Value}
    (h : e.evaluate fuel expr = some (result, e')) :
    ∃ ids, e.world.scheduler.Grows ids e'.world.scheduler := by
  obtain ⟨halt, w, hrun, rfl⟩ := evaluate_cases h
  exact (Machine.changes_evaluate hrun).grows

theorem grows_invoke {name : String} {args : List Value} {result : Except HostError Bool}
    (h : e.invoke fuel name args = some (result, e')) :
    ∃ ids, e.world.scheduler.Grows ids e'.world.scheduler := by
  obtain rfl | ⟨notice, rfl⟩ | ⟨halt, w, hrun, rfl⟩ := invoke_cases h
  · exact ⟨[], .refl⟩
  · exact ⟨[], .refl⟩
  · exact (Machine.changes_runCall hrun).grows

theorem grows_keyEvent {index : Nat} {pressed : Bool} {result : Except HostError Bool}
    (h : e.keyEvent fuel index pressed = some (result, e')) :
    ∃ ids, e.world.scheduler.Grows ids e'.world.scheduler := by
  obtain rfl | ⟨key, hinvoke⟩ := keyEvent_cases h
  · exact ⟨[], .refl⟩
  · have hgrows := grows_invoke hinvoke
    exact hgrows

theorem grows_spawn {f v : Value} {args : List Value} {form : World.HandleForm} {w : World}
    (h : e.world.spawn f args form = .ok (v, w)) :
    ∃ ids, e.world.scheduler.Grows ids w.scheduler := by
  unfold World.spawn at h
  split at h
  · cases form with
    | object =>
      have hstart := World.changes_startThread e.world f args
      rw [Except.ok.inj h] at hstart
      exact hstart.grows
    | number => cases h
  · cases h

theorem scheduler_publish (e : Environment) : e.publish.world.scheduler = e.world.scheduler := by
  unfold publish
  cases e.board with
  | none => rfl
  | some id =>
    simp only
    split <;> rfl

/-! ### Runs in which nothing is handed over -/

/-- A run of the scheduler in which threads are resumed as the machine does it, and no failures are
handed over. -/
structure QuietRun (s : Scheduler Coroutine) (events : List (Event Coroutine))
    (s' : Scheduler Coroutine) : Prop where
  run : Run s events s'
  paid : ∀ v ∈ events.flatMap Event.visits, ∃ fuel, v.PaidBy (World.resumeThread fuel)
  quiet : ∀ event ∈ events, event.delivered = []

namespace QuietRun

variable {s s' s'' : Scheduler Coroutine} {events events' : List (Event Coroutine)}

/-- A run that visits nothing. -/
theorem of_unvisited (hrun : Run s events s')
    (hquiet : ∀ event ∈ events, event.visits = [] ∧ event.delivered = []) :
    QuietRun s events s' where
  run := hrun
  paid := fun _ hv => by
    obtain ⟨event, hevent, hv⟩ := List.mem_flatMap.mp hv
    rw [(hquiet event hevent).1] at hv
    cases hv
  quiet := fun event hevent => (hquiet event hevent).2

protected theorem nil (s : Scheduler Coroutine) : QuietRun s [] s :=
  .of_unvisited .nil fun _ h => absurd h List.not_mem_nil

protected theorem trans (h : QuietRun s events s') (h' : QuietRun s' events' s'') :
    QuietRun s (events ++ events') s'' where
  run := h.run.trans h'.run
  paid := by
    rw [List.flatMap_append]
    exact List.forall_mem_append.mpr ⟨h.paid, h'.paid⟩
  quiet := List.forall_mem_append.mpr ⟨h.quiet, h'.quiet⟩

theorem of_grows (h : ∃ ids, s.Grows ids s') : ∃ events, QuietRun s events s' := by
  obtain ⟨ids, hgrows⟩ := h
  obtain ⟨events, hrun, -, hquiet⟩ := hgrows.run
  exact ⟨events, .of_unvisited hrun hquiet⟩

end QuietRun

/-! ### Ticks -/

theorem run_resumeDue {now : Float} {result : Except HostError TickSummary}
    (h : e.resumeDue fuel now = some (result, e')) :
    ∃ events, QuietRun e.world.scheduler events e'.world.scheduler := by
  obtain ⟨⟨answer, w⟩, htick, heq⟩ := Option.map_eq_some_iff.mp h
  obtain ⟨⟨answer, r, s⟩, htick, hw⟩ := Option.map_eq_some_iff.mp htick
  obtain ⟨visits, ids, hrecorded, hstep⟩ := Step.of_tick (World.resumeThread_startsOnly fuel)
    (World.resumeThread_keepsHandles fuel) htick
  obtain ⟨-, rfl⟩ := Prod.mk.inj heq
  obtain ⟨-, rfl⟩ := Prod.mk.inj hw
  refine ⟨[.ticked now visits ids answer], .single hstep, fun v hv => ?_, fun event hevent => ?_⟩
  · rw [List.flatMap_singleton] at hv
    exact ⟨fuel, Scheduler.paid_of_tick hrecorded v hv⟩
  · rw [List.mem_singleton.mp hevent]
    rfl

theorem run_tick {now : Float} {result : Except HostError TickSummary}
    (h : e.tick fuel now = some (result, e')) :
    ∃ events, QuietRun e.world.scheduler events e'.world.scheduler :=
  run_resumeDue (e := e.withContext { e.world.context with clock := now }) h

theorem run_render {now : Float} {target : Nat} {result : Except HostError Bool}
    (h : e.render fuel now target = some (result, e')) :
    ∃ events, QuietRun e.world.scheduler events e'.world.scheduler := by
  obtain ⟨answer, e₁, htick, hcases⟩ := render_cases h
  obtain ⟨events, hrun⟩ := run_tick htick
  obtain ⟨-, -, -, rfl⟩ | ⟨handle, passed, hinvoke⟩ := hcases
  · exact ⟨events, hrun⟩
  · obtain ⟨events', hrun'⟩ := QuietRun.of_grows (grows_invoke hinvoke)
    exact ⟨events ++ events', hrun.trans hrun'⟩

/-! ### All calls -/

/-- A call of the host, with the events of the scheduler in the course of it. The answer of the call
that takes the failures is what is handed over. -/
inductive Traced (e : Environment) : List (Event Coroutine) → Environment → Prop
  | take : Traced e [.taken e.takeFailures.1] e.takeFailures.2
  | other {events : List (Event Coroutine)} {e' : Environment} (h : Call e e')
      (hrun : QuietRun e.world.scheduler events e'.world.scheduler) : Traced e events e'

theorem Traced.run {events : List (Event Coroutine)} (h : e.Traced events e') :
    Run e.world.scheduler events e'.world.scheduler := by
  cases h with
  | take => exact .single .take
  | other _ hrun => exact hrun.run

/-- Every call has a trace. -/
theorem Call.traced (h : e.Call e') : ∃ events, e.Traced events e' := by
  have quiet (h : ∃ events, QuietRun e.world.scheduler events e'.world.scheduler)
      (hcall : e.Call e') : ∃ events, e.Traced events e' := by
    obtain ⟨events, hrun⟩ := h
    exact ⟨events, .other hcall hrun⟩
  cases h with
  | withHost host => exact quiet ⟨[], .nil _⟩ (.withHost host)
  | setGlobal name v => exact quiet ⟨[], .nil _⟩ (.setGlobal name v)
  | giveObject name o => exact quiet ⟨[], .nil _⟩ (.giveObject name o)
  | attach id =>
    have hsame : (e.attach id).world.scheduler = e.world.scheduler :=
      scheduler_publish (e.withContext { e.world.context with controller := some id })
    exact quiet ⟨[], hsame ▸ .nil _⟩ (.attach id)
  | setBoard id =>
    have hsame : (e.setBoard id).world.scheduler = e.world.scheduler :=
      scheduler_publish { e with board := some id }
    exact quiet ⟨[], hsame ▸ .nil _⟩ (.setBoard id)
  | detach =>
    have hcancel : Run e.world.scheduler [.cancelled e.world.scheduler.cancelAll.1]
        e.detach.2.world.scheduler := .single .cancel
    exact quiet ⟨_, .of_unvisited hcancel (List.forall_mem_singleton.mpr ⟨rfl, rfl⟩)⟩ .detach
  | collect =>
    have hcollect : Run e.world.scheduler [.collected] e.collect.world.scheduler :=
      .single (.collect _)
    exact quiet ⟨_, .of_unvisited hcollect (List.forall_mem_singleton.mpr ⟨rfl, rfl⟩)⟩ .collect
  | takeFailures => exact ⟨_, .take⟩
  | spawn h => exact quiet (QuietRun.of_grows (grows_spawn h)) (.spawn h)
  | load h => exact quiet (QuietRun.of_grows (grows_load h)) (.load h)
  | evaluate h => exact quiet (QuietRun.of_grows (grows_evaluate h)) (.evaluate h)
  | invoke h => exact quiet (QuietRun.of_grows (grows_invoke h)) (.invoke h)
  | resumeDue h => exact quiet (run_resumeDue h) (.resumeDue h)
  | tick h => exact quiet (run_tick h) (.tick h)
  | render h => exact quiet (run_render h) (.render h)
  | keyEvent h => exact quiet (QuietRun.of_grows (grows_keyEvent h)) (.keyEvent h)

/-- **What a call of the host does to the scheduler** is a run. -/
theorem Call.run (h : e.Call e') :
    ∃ events, Run e.world.scheduler events e'.world.scheduler := by
  obtain ⟨events, htraced⟩ := h.traced
  exact ⟨events, htraced.run⟩

/-- **The threads of an environment have a history**, whatever the host does with it. -/
theorem reachable_scheduler {host : Host} {config : Config}
    (h : ReflTransGen Call (start host config) e) : e.world.scheduler.Reachable := by
  induction h with
  | refl => exact ⟨[], .nil⟩
  | tail _ hcall ih =>
    obtain ⟨events, hrun⟩ := hcall.run
    exact ih.run hrun

/-! ### Histories -/

/-- Calls of the host one after the other, with the events of the scheduler. -/
inductive Trace (e : Environment) : List (Event Coroutine) → Environment → Prop
  | nil : Trace e [] e
  | snoc {events last : List (Event Coroutine)} {e' e'' : Environment} (h : Trace e events e')
      (hcall : e'.Traced last e'') : Trace e (events ++ last) e''

theorem Trace.run {events : List (Event Coroutine)} (h : e.Trace events e') :
    Run e.world.scheduler events e'.world.scheduler := by
  induction h with
  | nil => exact .nil
  | snoc _ hcall ih => exact ih.trans hcall.run

/-- Whatever the host does has a trace. -/
theorem exists_trace (h : ReflTransGen Call e e') : ∃ events, e.Trace events e' := by
  induction h with
  | refl => exact ⟨[], .nil⟩
  | tail _ hcall ih =>
    obtain ⟨events, htrace⟩ := ih
    obtain ⟨last, htraced⟩ := hcall.traced
    exact ⟨events ++ last, htrace.snoc htraced⟩

end KeyLight.Environment
