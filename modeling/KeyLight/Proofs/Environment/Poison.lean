import KeyLight.Proofs.Environment.History
import KeyLight.Proofs.Scheduler.Poison

/-!
# An environment in which a thread has broken the rules

Once a tick has answered with a violation, no call of the host runs a script any more: each of them
gives the same answer with any fuel, none included, and leaves the environment as it is but for the
clock. What needs no script works as before.
-/

namespace KeyLight.Environment

open Relation

variable {e e' : Environment} {fuel : Nat} {x : Violation}

/-- The violation that puts an end to the running of scripts, if there was one. -/
def poison (e : Environment) : Option Violation := e.world.scheduler.poison

/-- The environment with another note of a thread that has broken the rules. -/
def withPoison (e : Environment) (p : Option Violation) : Environment :=
  { e with world := { e.world with scheduler := e.world.scheduler.withPoison p } }

/-- The environment with another time. -/
def withClock (e : Environment) (now : Float) : Environment :=
  e.withContext { e.world.context with clock := now }

/-- The key at an index of the board, if the host still has the board. -/
def key? (e : Environment) (index : Nat) : Option KeyHandle :=
  e.board.bind fun id => ((e.world.host.board? id).bind fun k => k.key? index).map fun _ =>
    (e.world.leaseBoard id).key index

/-! ### Ticks that answer with a violation -/

theorem poison_of_resumeDue {now : Float}
    (h : e.resumeDue fuel now = some (.error (.violation x), e')) : e'.poison = some x := by
  obtain ⟨⟨answer, w⟩, htick, heq⟩ := Option.map_eq_some_iff.mp h
  obtain ⟨⟨answer, r, s⟩, hticks, hw⟩ := Option.map_eq_some_iff.mp htick
  obtain ⟨rfl, rfl⟩ := Prod.mk.inj hw
  obtain ⟨hanswer, rfl⟩ := Prod.mk.inj heq
  cases answer with
  | ok summary => cases hanswer
  | error y =>
    obtain rfl : y = x := HostError.violation.inj (Except.error.inj hanswer)
    exact Scheduler.poison_of_tick hticks

theorem poison_of_tick {now : Float} (h : e.tick fuel now = some (.error (.violation x), e')) :
    e'.poison = some x :=
  poison_of_resumeDue (e := e.withClock now) h

theorem invoke_of_poison (h : e.poison = some x) (fuel : Nat) (name : String) (args : List Value) :
    e.invoke fuel name args = some (.error (.violation x), e) := by
  unfold invoke whenHealthy
  rw [show e.world.scheduler.poison = some x from h]

/-- Calling a function answers with a violation only if there was one before. -/
theorem poison_of_invoke {name : String} {args : List Value}
    (h : e.invoke fuel name args = some (.error (.violation x), e')) : e'.poison = some x := by
  cases hpoison : e.poison with
  | some y =>
    rw [invoke_of_poison hpoison] at h
    obtain ⟨hanswer, rfl⟩ := Prod.mk.inj (Option.some.inj h)
    rw [hpoison, HostError.violation.inj (Except.error.inj hanswer)]
  | none =>
    unfold invoke whenHealthy at h
    rw [show e.world.scheduler.poison = none from hpoison] at h
    simp only at h
    split at h
    · obtain ⟨⟨halt, w⟩, -, heq⟩ := Option.map_eq_some_iff.mp h
      cases halt <;> cases congrArg Prod.fst heq
    · split at h <;> cases congrArg Prod.fst (Option.some.inj h)

theorem poison_of_render {now : Float} {target : Nat}
    (h : e.render fuel now target = some (.error (.violation x), e')) : e'.poison = some x := by
  obtain ⟨answer, e₁, htick, hcases⟩ := render_cases h
  obtain ⟨error, rfl, hanswer, rfl⟩ | ⟨handle, passed, hinvoke⟩ := hcases
  · obtain rfl := Except.error.inj hanswer
    exact poison_of_tick htick
  · exact poison_of_invoke hinvoke

/-! ### Calls of the host afterwards -/

theorem Call.poison_kept (h : e.Call e') (hpoison : e.poison = some x) : e'.poison = some x := by
  obtain ⟨events, hrun⟩ := h.run
  exact hrun.poison_kept hpoison

theorem load_of_poison (h : e.poison = some x) (fuel : Nat) (script : List Stmt) :
    e.load fuel script = some (.error (.violation x), e) := by
  unfold load whenHealthy
  rw [show e.world.scheduler.poison = some x from h]

theorem resumeDue_of_poison (h : e.poison = some x) (fuel : Nat) (now : Float) :
    e.resumeDue fuel now = some (.error (.violation x), e) := by
  unfold resumeDue World.tick
  rw [Scheduler.tick_of_poison _ now _ h]
  rfl

theorem tick_of_poison (h : e.poison = some x) (fuel : Nat) (now : Float) :
    e.tick fuel now = some (.error (.violation x), e.withClock now) :=
  resumeDue_of_poison (e := e.withClock now) h fuel now

theorem render_of_poison (h : e.poison = some x) (fuel : Nat) (now : Float) (target : Nat) :
    e.render fuel now target = some (.error (.violation x), e.withClock now) := by
  unfold render
  rw [tick_of_poison h]
  rfl

/-- Nobody is told of a key. If there is one, an object is made for it that no script ever sees. -/
theorem keyEvent_of_poison (h : e.poison = some x) (fuel index : Nat) (pressed : Bool) :
    e.keyEvent fuel index pressed = match e.key? index with
      | some key => some (.error (.violation x),
          { e with world := e.world.updateHeap (·.addObject (.key key)) })
      | none => some (.ok false, e) := by
  obtain ⟨world, config, board, lastRender⟩ := e
  cases board with
  | none => rfl
  | some id =>
    simp only [keyEvent, key?, Option.bind_some]
    cases (world.host.board? id).bind fun k => k.key? index with
    | none => rfl
    | some color =>
      let key : Object := .key ((world.leaseBoard id).key index)
      exact invoke_of_poison (e := ⟨(world.newObject key).2, config, some id, lastRender⟩) h ..

theorem publish_withPoison (e : Environment) (p : Option Violation) :
    (e.withPoison p).publish = e.publish.withPoison p := by
  have hboard : (e.withPoison p).board = e.board := rfl
  unfold publish
  rw [hboard]
  cases e.board with
  | none => rfl
  | some id =>
    have hhost : (e.withPoison p).world.host = e.world.host := rfl
    simp only [hhost]
    split <;> rfl

theorem attach_withPoison (e : Environment) (p : Option Violation) (id : Nat) :
    (e.withPoison p).attach id = (e.attach id).withPoison p := by
  let healthy := e.withContext { e.world.context with controller := some id }
  have hpublish : (healthy.withPoison p).publish = healthy.publish.withPoison p :=
    publish_withPoison healthy p
  let greet (e : Environment) : Environment := e.withRealm (e.world.note .attached)
  change greet (healthy.withPoison p).publish = (greet healthy.publish).withPoison p
  rw [hpublish]
  rfl

theorem setBoard_withPoison (e : Environment) (p : Option Violation) (id : Nat) :
    (e.withPoison p).setBoard id = (e.setBoard id).withPoison p :=
  publish_withPoison { e with board := some id } p

theorem detach_withPoison (e : Environment) (p : Option Violation) :
    (e.withPoison p).detach = (e.detach.1, e.detach.2.withPoison p) := by
  have hscheduler : (e.withPoison p).world.scheduler = e.world.scheduler.withPoison p := rfl
  unfold detach
  rw [hscheduler, Scheduler.cancelAll_withPoison]
  rfl

/-- **A violation is noted for good and stops all scripts.** After a tick that answers with one, on
its own or for a frame, every call that would run a script answers with the same violation and does
nothing else, whatever the host does in the meantime; ticks and frames still set the clock. The host
is told that nobody listens if there is no key for a key event. Attaching, detaching, setting the
board and taking failures do what they do in an environment without violation, and keep the note. -/
theorem violation_stops_scripts
    (hfirst : (∃ fuel now, e.tick fuel now = some (.error (.violation x), e')) ∨
      (∃ fuel now, e.resumeDue fuel now = some (.error (.violation x), e')) ∨
      ∃ fuel now target, e.render fuel now target = some (.error (.violation x), e'))
    {later : Environment} (hlater : ReflTransGen Call e' later) :
    later.poison = some x ∧
    (∀ fuel script, later.load fuel script = some (.error (.violation x), later)) ∧
    (∀ fuel name args, later.invoke fuel name args = some (.error (.violation x), later)) ∧
    (∀ fuel now, later.tick fuel now = some (.error (.violation x), later.withClock now)) ∧
    (∀ fuel now target,
      later.render fuel now target = some (.error (.violation x), later.withClock now)) ∧
    (∀ fuel index pressed, later.keyEvent fuel index pressed = match later.key? index with
      | some key => some (.error (.violation x),
          { later with world := later.world.updateHeap (·.addObject (.key key)) })
      | none => some (.ok false, later)) ∧
    (∀ id, later.attach id = ((later.withPoison none).attach id).withPoison (some x)) ∧
    (∀ id, later.setBoard id = ((later.withPoison none).setBoard id).withPoison (some x)) ∧
    later.takeFailures = (later.world.scheduler.failures,
      (later.withPoison none).takeFailures.2.withPoison (some x)) ∧
    later.detach = (later.world.context.controller.isSome,
      (later.withPoison none).detach.2.withPoison (some x)) ∧
    later.detach.2.threadStates = [] := by
  have hpoison : e'.poison = some x := by
    obtain ⟨fuel, now, h⟩ | ⟨fuel, now, h⟩ | ⟨fuel, now, target, h⟩ := hfirst
    · exact poison_of_tick h
    · exact poison_of_resumeDue h
    · exact poison_of_render h
  have hkept : later.poison = some x := by
    induction hlater with
    | refl => exact hpoison
    | tail _ hcall ih => exact hcall.poison_kept ih
  have hhealthy : later = (later.withPoison none).withPoison (some x) := by
    rw [← hkept]
    rfl
  refine ⟨hkept, load_of_poison hkept, invoke_of_poison hkept, tick_of_poison hkept,
    render_of_poison hkept, keyEvent_of_poison hkept, fun id => ?_, fun id => ?_, ?_, ?_, ?_⟩
  · rw [← attach_withPoison, ← hhealthy]
  · rw [← setBoard_withPoison, ← hhealthy]
  · calc later.takeFailures
      _ = ((later.withPoison none).withPoison (some x)).takeFailures := congrArg _ hhealthy
      _ = _ := rfl
  · calc later.detach
      _ = ((later.withPoison none).withPoison (some x)).detach := congrArg _ hhealthy
      _ = _ := detach_withPoison _ _
  · change later.world.scheduler.cancelAll.2.states = []
    unfold Scheduler.states
    rw [Scheduler.live_cancelAll]
    rfl

/-- An environment with one thread, which gives up control with nil. -/
def breaking : Environment :=
  let e := start .empty {}
  let stray := Coroutine.suspended [.operands .yield [] [] []] []
  { e with world := { e.world with scheduler := (e.world.scheduler.spawn stray).2 } }

/-- After its first tick, and after the controller is detached, no script is loaded. -/
theorem violation_stops_scripts_breaking :
    ∃ e, breaking.tick 5 0.0 = some (.error (.violation ⟨1, "nil"⟩), e) ∧
      e.detach.2.load 5 [] = some (.error (.violation ⟨1, "nil"⟩), e.detach.2) := by
  have hanswer : (breaking.tick 5 0.0).map (·.1) = some (.error (.violation ⟨1, "nil"⟩)) := rfl
  obtain ⟨⟨answer, e⟩, htick, rfl⟩ := Option.map_eq_some_iff.mp hanswer
  obtain ⟨-, hload, -⟩ :=
    violation_stops_scripts (.inl ⟨5, 0.0, htick⟩) (ReflTransGen.single Call.detach)
  exact ⟨e, htick, hload 5 []⟩

end KeyLight.Environment
