import KeyLight.Proofs.Environment.History
import KeyLight.Proofs.Number.Infinity

/-!
# The time between two frames

A frame tells the script how many milliseconds have passed since the frame before it. `Request` is
what the host can ask for, as data, and `frameTime?` says which request gets past the tick of a
frame; what becomes of the frame after that does not count. A `Course` is a history of requests with
the times of these frames, and whatever the host does has one (`exists_course`).

No request but such a frame changes the time that is remembered (`lastRender_of_perform`), so it is
the last one of the course (`Course.lastRender`), and a frame is told the time since then
(`render_passes_elapsed`). That is a number, and not below zero, whatever the two times are
(`elapsed_ne_nan`, `elapsed_not_lt_zero`).
-/

namespace KeyLight.Environment

open Relation
open Binary64 (exact toRat? rounds_mul)

/-! ### Milliseconds -/

section Elapsed

variable {previous now : Float}

theorem elapsed_of_lt (h : 0.0 < now - previous) :
    elapsed previous now = (now - previous) * 1000.0 := by
  simp only [elapsed, if_pos h]

/-- Nothing has passed between times in the wrong order, or if one of them is no number. -/
theorem elapsed_of_not_lt (h : ¬0.0 < now - previous) : elapsed previous now = 0.0 := by
  have hzero : (0.0 : Float) * 1000.0 = 0.0 := by decide +kernel
  simp only [elapsed, if_neg h, hzero]

theorem toRat?_thousand : toRat? 1000.0 = some 1000 := by decide +kernel

/-- What has passed is the seconds rounded to milliseconds, or without bounds if they are. -/
theorem elapsed_cases (previous now : Float) :
    (∃ q : Rat, 0 ≤ q ∧ Binary64.Rounds q (elapsed previous now)) ∨
      exact (elapsed previous now) = .infinite false := by
  by_cases hlt : 0.0 < now - previous
  · rw [elapsed_of_lt hlt]
    obtain ⟨q, hq, hpos⟩ | hinfinite := Binary64.finite_or_infinite_of_zero_lt hlt
    · exact .inl ⟨q * 1000, by positivity, rounds_mul hq toRat?_thousand⟩
    · exact .inr (Binary64.exact_mul_infinite hinfinite toRat?_thousand (by norm_num))
  · rw [elapsed_of_not_lt hlt]
    exact .inl ⟨0, le_refl 0, .of_zero Binary64.toRat?_zero⟩

theorem elapsed_ne_nan (previous now : Float) : exact (elapsed previous now) ≠ .nan := by
  obtain ⟨q, -, hrounds⟩ | hinfinite := elapsed_cases previous now
  · exact hrounds.exact_ne_nan
  · rw [hinfinite]
    exact nofun

theorem elapsed_not_lt_zero (previous now : Float) : ¬elapsed previous now < 0.0 := by
  obtain ⟨q, hq, hrounds⟩ | hinfinite := elapsed_cases previous now
  · exact hrounds.not_lt_zero hq
  · exact Binary64.not_lt_zero_of_infinite hinfinite

end Elapsed

/-! ### Requests -/

/-- What the host asks of an environment. -/
inductive Request
  | withHost (host : Host)
  | attach (id : Nat)
  | detach
  | setBoard (id : Nat)
  | setGlobal (name : String) (v : Value)
  | giveObject (name : String) (o : Object)
  | collect
  | takeFailures
  | spawn (f : Value) (args : List Value) (form : World.HandleForm)
  | load (fuel : Nat) (script : List Stmt)
  | evaluate (fuel : Nat) (expr : Expr)
  | invoke (fuel : Nat) (name : String) (args : List Value)
  | resumeDue (fuel : Nat) (now : Float)
  | tick (fuel : Nat) (now : Float)
  | render (fuel : Nat) (now : Float) (target : Nat)
  | keyEvent (fuel index : Nat) (pressed : Bool)

/-- The environment after a request, if there is an answer to it. -/
def perform (e : Environment) : Request → Option Environment
  | .withHost host => some (e.withHost host)
  | .attach id => some (e.attach id)
  | .detach => some e.detach.2
  | .setBoard id => some (e.setBoard id)
  | .setGlobal name v => some (e.setGlobal name v)
  | .giveObject name o => some (e.giveObject name o)
  | .collect => some e.collect
  | .takeFailures => some e.takeFailures.2
  | .spawn f args form =>
    (e.world.spawn f args form).toOption.map fun (_, w) => { e with world := w }
  | .load fuel script => (e.load fuel script).map Prod.snd
  | .evaluate fuel expr => (e.evaluate fuel expr).map Prod.snd
  | .invoke fuel name args => (e.invoke fuel name args).map Prod.snd
  | .resumeDue fuel now => (e.resumeDue fuel now).map Prod.snd
  | .tick fuel now => (e.tick fuel now).map Prod.snd
  | .render fuel now target => (e.render fuel now target).map Prod.snd
  | .keyEvent fuel index pressed => (e.keyEvent fuel index pressed).map Prod.snd

/-- The time of a frame that gets past its tick. -/
def frameTime? (e : Environment) : Request → Option Float
  | .render fuel now _ =>
    match e.tick fuel now with
    | some (.ok _, _) => some now
    | some (.error _, _) | none => none
  | .withHost _ | .attach _ | .detach | .setBoard _ | .setGlobal .. | .giveObject .. | .collect
  | .takeFailures | .spawn .. | .load .. | .evaluate .. | .invoke .. | .resumeDue .. | .tick ..
  | .keyEvent .. => none

variable {e e' : Environment} {fuel : Nat}

/-- Every call of the host is a request. -/
theorem Call.exists_request (h : e.Call e') : ∃ request, e.perform request = some e' := by
  cases h with
  | withHost host => exact ⟨.withHost host, rfl⟩
  | attach id => exact ⟨.attach id, rfl⟩
  | detach => exact ⟨.detach, rfl⟩
  | setBoard id => exact ⟨.setBoard id, rfl⟩
  | setGlobal name v => exact ⟨.setGlobal name v, rfl⟩
  | giveObject name o => exact ⟨.giveObject name o, rfl⟩
  | collect => exact ⟨.collect, rfl⟩
  | takeFailures => exact ⟨.takeFailures, rfl⟩
  | @spawn f v args form w h => exact ⟨.spawn f args form, by rw [perform, h]; rfl⟩
  | @load fuel script _ _ h => exact ⟨.load fuel script, by rw [perform, h]; rfl⟩
  | @evaluate fuel expr _ _ h => exact ⟨.evaluate fuel expr, by rw [perform, h]; rfl⟩
  | @invoke fuel name args _ _ h => exact ⟨.invoke fuel name args, by rw [perform, h]; rfl⟩
  | @resumeDue fuel now _ _ h => exact ⟨.resumeDue fuel now, by rw [perform, h]; rfl⟩
  | @tick fuel now _ _ h => exact ⟨.tick fuel now, by rw [perform, h]; rfl⟩
  | @render fuel now target _ _ h => exact ⟨.render fuel now target, by rw [perform, h]; rfl⟩
  | @keyEvent fuel index pressed _ _ h =>
    exact ⟨.keyEvent fuel index pressed, by rw [perform, h]; rfl⟩

/-! ### The time of the last frame -/

theorem lastRender_publish (e : Environment) : e.publish.lastRender = e.lastRender := by
  rw [publish_eq]

theorem lastRender_of_invoke {name : String} {args : List Value} {result : Except HostError Bool}
    (h : e.invoke fuel name args = some (result, e')) : e'.lastRender = e.lastRender := by
  obtain rfl | ⟨notice, rfl⟩ | ⟨halt, w, -, rfl⟩ := invoke_cases h <;> rfl

theorem lastRender_of_resumeDue {now : Float} {result : Except HostError TickSummary}
    (h : e.resumeDue fuel now = some (result, e')) : e'.lastRender = e.lastRender := by
  obtain ⟨⟨answer, w⟩, -, heq⟩ := Option.map_eq_some_iff.mp h
  obtain ⟨-, rfl⟩ := Prod.mk.inj heq
  rfl

theorem lastRender_of_tick {now : Float} {result : Except HostError TickSummary}
    (h : e.tick fuel now = some (result, e')) : e'.lastRender = e.lastRender :=
  lastRender_of_resumeDue (e := e.withContext { e.world.context with clock := now }) h

/-- The script gets a new handle on the target, and the time of the frame is remembered. -/
def beginFrame (e : Environment) (now : Float) (target : Nat) : Value × Environment :=
  let (v, world) := e.world.newObject (.target (e.world.leaseTarget target))
  (v, { e with world, lastRender := some now })

section Render

variable {now : Float} {e₁ : Environment}

theorem render_of_error {error : HostError} (h : e.tick fuel now = some (.error error, e₁))
    (target : Nat) : e.render fuel now target = some (.error error, e₁) := by
  rw [render, h]
  rfl

/-- The time of the frame is remembered before the script is called. -/
theorem render_of_ok {summary : TickSummary} (h : e.tick fuel now = some (.ok summary, e₁))
    (target : Nat) :
    e.render fuel now target = (e₁.beginFrame now target).2.invoke fuel "render"
      [.float ((e₁.lastRender.map fun previous => elapsed previous now).getD 0.0),
        (e₁.beginFrame now target).1] := by
  rw [render, h]
  rfl

theorem lastRender_of_render {target : Nat} {result : Except HostError Bool}
    (h : e.render fuel now target = some (result, e')) :
    e'.lastRender = (e.frameTime? (.render fuel now target)).or e.lastRender := by
  rw [frameTime?]
  cases htick : e.tick fuel now with
  | none =>
    rw [render, htick] at h
    cases h
  | some stop =>
    obtain ⟨answer, e₁⟩ := stop
    cases answer with
    | error error =>
      rw [render_of_error htick] at h
      obtain ⟨-, rfl⟩ := Prod.mk.inj (Option.some.inj h)
      exact lastRender_of_tick htick
    | ok summary =>
      rw [render_of_ok htick] at h
      exact lastRender_of_invoke h

end Render

/-- **Only a frame that gets past its tick changes the time that is remembered.** -/
theorem lastRender_of_perform {request : Request} (h : e.perform request = some e') :
    e'.lastRender = (e.frameTime? request).or e.lastRender := by
  have answered {α : Type} {answer : Option (Answer α)} (h : answer.map Prod.snd = some e') :
      ∃ result, answer = some (result, e') := by
    obtain ⟨⟨result, e₁⟩, hanswer, rfl⟩ := Option.map_eq_some_iff.mp h
    exact ⟨result, hanswer⟩
  cases request with
  | withHost | detach | setGlobal | giveObject | collect | takeFailures =>
    obtain rfl := Option.some.inj h
    rfl
  | attach id =>
    obtain rfl := Option.some.inj h
    exact lastRender_publish (e.withContext { e.world.context with controller := some id })
  | setBoard id =>
    obtain rfl := Option.some.inj h
    exact lastRender_publish { e with board := some id }
  | spawn =>
    obtain ⟨_, -, rfl⟩ := Option.map_eq_some_iff.mp h
    rfl
  | load =>
    obtain ⟨result, h⟩ := answered h
    obtain rfl | ⟨halt, w, -, rfl⟩ := load_cases h <;> rfl
  | evaluate =>
    obtain ⟨result, h⟩ := answered h
    obtain ⟨halt, w, -, rfl⟩ := evaluate_cases h
    rfl
  | invoke =>
    obtain ⟨result, h⟩ := answered h
    exact lastRender_of_invoke h
  | resumeDue =>
    obtain ⟨result, h⟩ := answered h
    exact lastRender_of_resumeDue h
  | tick =>
    obtain ⟨result, h⟩ := answered h
    exact lastRender_of_tick h
  | render =>
    obtain ⟨result, h⟩ := answered h
    exact lastRender_of_render h
  | keyEvent =>
    obtain ⟨result, h⟩ := answered h
    obtain rfl | ⟨key, hinvoke⟩ := keyEvent_cases h
    · rfl
    · have hlast := lastRender_of_invoke hinvoke
      exact hlast

/-- Requests one after the other, with the times of the frames that get past their ticks. -/
inductive Course (e : Environment) : List Float → Environment → Prop
  | nil : Course e [] e
  | snoc {times : List Float} {request : Request} {e' e'' : Environment} (h : Course e times e')
      (hrequest : e'.perform request = some e'') :
      Course e (times ++ (e'.frameTime? request).toList) e''

/-- Whatever the host does has a course. -/
theorem exists_course (h : ReflTransGen Call e e') : ∃ times, e.Course times e' := by
  induction h with
  | refl => exact ⟨[], .nil⟩
  | tail _ hcall ih =>
    obtain ⟨times, hcourse⟩ := ih
    obtain ⟨request, hrequest⟩ := hcall.exists_request
    exact ⟨_, hcourse.snoc hrequest⟩

/-- **The time that is remembered is that of the last frame of the course.** -/
theorem Course.lastRender {times : List Float} (h : e.Course times e') :
    e'.lastRender = times.getLast?.or e.lastRender := by
  induction h with
  | nil => rfl
  | snoc _ hrequest ih =>
    rw [lastRender_of_perform hrequest, ih]
    cases hframe : frameTime? _ _ with
    | none => rw [Option.toList_none, List.append_nil, Option.none_or]
    | some now => rw [Option.toList_some, List.getLast?_concat, Option.some_or, Option.some_or]

/-! ### What a frame tells the script -/

/-- **What a frame tells the script about the time.** After every course of requests a frame whose
tick fails calls nothing. Every other one calls the script with the milliseconds since the last
frame of the course that got past its tick, or with none if there was no such frame. That is a
number, and not below zero. -/
theorem render_passes_elapsed {host : Host} {config : Config} {times : List Float}
    (h : (start host config).Course times e) (fuel : Nat) (now : Float) (target : Nat) :
    ∃ passed : Float,
      (times = [] → passed = 0.0) ∧
      (∀ previous, times.getLast? = some previous →
        passed = (if 0.0 < now - previous then now - previous else 0.0) * 1000.0) ∧
      exact passed ≠ .nan ∧ ¬passed < 0.0 ∧
      (∀ error e₁, e.tick fuel now = some (.error error, e₁) →
        e.render fuel now target = some (.error error, e₁)) ∧
      ∀ summary e₁, e.tick fuel now = some (.ok summary, e₁) →
        e.render fuel now target = (e₁.beginFrame now target).2.invoke fuel "render"
          [.float passed, (e₁.beginFrame now target).1] := by
  have hlast : e.lastRender = times.getLast? := h.lastRender.trans (Option.or_none ..)
  refine ⟨(times.getLast?.map fun previous => elapsed previous now).getD 0.0, ?_, ?_, ?_, ?_,
    fun error e₁ htick => render_of_error htick target, fun summary e₁ htick => ?_⟩
  · rintro rfl
    rfl
  · intro previous hprevious
    rw [hprevious]
    rfl
  · cases times.getLast? with
    | none => exact Binary64.Rounds.exact_ne_nan (.of_zero Binary64.toRat?_zero)
    | some previous => exact elapsed_ne_nan previous now
  · cases times.getLast? with
    | none => exact Binary64.Rounds.not_lt_zero (.of_zero Binary64.toRat?_zero) (le_refl 0)
    | some previous => exact elapsed_not_lt_zero previous now
  · rw [render_of_ok htick, lastRender_of_tick htick, hlast]

/-- A script that keeps the milliseconds that it is told. -/
def keepingScript : List Stmt :=
  [.assign "render" (.function ["passed", "target"] [.assign "last" (.name "passed")])]

/-- The first frame finds no function to call, and counts; a tick later than that does not. -/
theorem render_passes_elapsed_keeping :
    ∃ e e', (start .empty {}).Course [1.0] e ∧ e.render 9 1.5 0 = some (.ok true, e') ∧
      e'.world.global "last" = .float 500.0 ∧
      ∃ passed, passed = 500.0 ∧ exact passed ≠ .nan ∧ ¬passed < 0.0 := by
  have hrun : (((start .empty {}).perform (.render 2 1.0 0)).bind fun e₁ =>
      (e₁.perform (.load 9 keepingScript)).bind fun e₂ =>
        (e₂.perform (.tick 2 7.0)).bind fun e₃ =>
          (e₃.render 9 1.5 0).map fun (result, e) => (result, e.world.global "last")) =
      some (.ok true, .float 500.0) := by rfl
  obtain ⟨e₁, hframe, hrun⟩ := Option.bind_eq_some_iff.mp hrun
  obtain ⟨e₂, hload, hrun⟩ := Option.bind_eq_some_iff.mp hrun
  obtain ⟨e₃, htick, hrun⟩ := Option.bind_eq_some_iff.mp hrun
  obtain ⟨⟨result, e'⟩, hrender, heq⟩ := Option.map_eq_some_iff.mp hrun
  obtain ⟨rfl, hlast⟩ := Prod.mk.inj heq
  have hcourse : (start .empty {}).Course [1.0] e₃ :=
    ((Course.nil.snoc hframe).snoc hload).snoc htick
  obtain ⟨passed, -, hpassed, hnumber, hleast, -⟩ := render_passes_elapsed hcourse 9 1.5 0
  have hvalue : passed = 500.0 := (hpassed 1.0 rfl).trans (by decide +kernel)
  exact ⟨e₃, e', hcourse, hrender, hlast, passed, hvalue, hnumber, hleast⟩

end KeyLight.Environment
