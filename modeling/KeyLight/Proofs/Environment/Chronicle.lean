import KeyLight.Proofs.Environment.History
import KeyLight.Proofs.World.Recount

/-!
# Chronicles

A chronicle of an environment tells all moments of what the host does with it, in the order in which
they happen, those of the main scripts and those of the threads alike. Each call of the host has its
moments (`Plays`), so everything the host can do has a chronicle (`exists_chronicle`), and the
chronicle records what has happened to the world (`Chronicle.record`).
-/

namespace KeyLight.Environment

open Relation
open Machine (block moments)
open World (Calm Record)

variable {e e' e'' : Environment} {fuel : Nat} {now : Float}

/-! ### The moments of calls -/

/-- The moments of a main script. There are none if a thread has broken the rules. -/
def loadMoments (fuel : Nat) (e : Environment) (script : List Stmt) : List Moment :=
  if e.world.scheduler.poison.isSome then []
  else moments .host fuel (block e.world [] [] script)

/-- The moments of evaluating an expression. -/
def evaluateMoments (fuel : Nat) (e : Environment) (expr : Expr) : List Moment :=
  moments .host fuel (.running e.world (.eval expr []) [])

/-- The moments of calling a global function. -/
def invokeMoments (fuel : Nat) (e : Environment) (name : String) (args : List Value) :
    List Moment :=
  let f := e.world.global name
  if e.world.scheduler.poison.isSome then []
  else if f.isFunction then
    ⟨.host, e.world, .call ⟨f, args, []⟩⟩ ::
      moments .host fuel (Machine.call .main e.world f args [])
  else []

/-- The moments of resuming the threads that are due. -/
def resumeMoments (fuel : Nat) (e : Environment) (now : Float) : List Moment :=
  ((e.world.turns fuel now).getD []).flatMap (Turn.moments fuel now)

/-- The moments of a tick. -/
def tickMoments (fuel : Nat) (e : Environment) (now : Float) : List Moment :=
  (e.withContext { e.world.context with clock := now }).resumeMoments fuel now

/-- The moments of drawing a frame: those of a tick and, if nothing is wrong with it, those of the
script that draws. -/
def renderMoments (fuel : Nat) (e : Environment) (now : Float) (target : Nat) : List Moment :=
  e.tickMoments fuel now ++
    match e.tick fuel now with
    | some (.ok _, e₁) =>
      let passed := (e₁.lastRender.map fun previous => elapsed previous now).getD 0.0
      let (v, w) := e₁.world.newObject (.target (e₁.world.leaseTarget target))
      { e₁ with lastRender := some now, world := w }.invokeMoments fuel "render" [.float passed, v]
    | _ => []

/-- The moments of telling the script of a key. -/
def keyMoments (fuel : Nat) (e : Environment) (index : Nat) (pressed : Bool) : List Moment :=
  match e.board with
  | none => []
  | some id =>
    if ((e.world.host.board? id).bind fun k => k.key? index).isSome then
      let (v, w) := e.world.newObject (.key ((e.world.leaseBoard id).key index))
      { e with world := w }.invokeMoments fuel "onKeyEvent" [v, .bool pressed]
    else []

/-- A call of the host with its moments. -/
inductive Plays (e : Environment) : List Moment → Environment → Prop
  | withHost (host : Host) : Plays e [] (e.withHost host)
  | attach (id : Nat) : Plays e [] (e.attach id)
  | detach : Plays e [] e.detach.2
  | setBoard (id : Nat) : Plays e [] (e.setBoard id)
  | setGlobal (name : String) (v : Value) :
      Plays e [⟨.host, e.world, .endow name (.value v)⟩] (e.setGlobal name v)
  | giveObject (name : String) (o : Object) :
      Plays e [⟨.host, e.world, .endow name (.object o)⟩] (e.giveObject name o)
  | collect : Plays e [] e.collect
  | takeFailures : Plays e [] e.takeFailures.2
  | spawn {f v : Value} {args : List Value} {form : World.HandleForm} {w : World}
      (h : e.world.spawn f args form = .ok (v, w)) : Plays e [] { e with world := w }
  | load {fuel : Nat} {script : List Stmt} {result : Except HostError Unit} {e' : Environment}
      (h : e.load fuel script = some (result, e')) : Plays e (e.loadMoments fuel script) e'
  | evaluate {fuel : Nat} {expr : Expr} {result : Except HostError Value} {e' : Environment}
      (h : e.evaluate fuel expr = some (result, e')) : Plays e (e.evaluateMoments fuel expr) e'
  | invoke {fuel : Nat} {name : String} {args : List Value} {result : Except HostError Bool}
      {e' : Environment} (h : e.invoke fuel name args = some (result, e')) :
      Plays e (e.invokeMoments fuel name args) e'
  | resumeDue {fuel : Nat} {now : Float} {result : Except HostError TickSummary}
      {e' : Environment} (h : e.resumeDue fuel now = some (result, e')) :
      Plays e (e.resumeMoments fuel now) e'
  | tick {fuel : Nat} {now : Float} {result : Except HostError TickSummary} {e' : Environment}
      (h : e.tick fuel now = some (result, e')) : Plays e (e.tickMoments fuel now) e'
  | render {fuel : Nat} {now : Float} {target : Nat} {result : Except HostError Bool}
      {e' : Environment} (h : e.render fuel now target = some (result, e')) :
      Plays e (e.renderMoments fuel now target) e'
  | keyEvent {fuel index : Nat} {pressed : Bool} {result : Except HostError Bool}
      {e' : Environment} (h : e.keyEvent fuel index pressed = some (result, e')) :
      Plays e (e.keyMoments fuel index pressed) e'

/-- What the host does with an environment, with the moments of all of it. -/
inductive Chronicle : Environment → List Moment → Environment → Prop
  | nil (e : Environment) : Chronicle e [] e
  | cons {e e' e'' : Environment} {ms rest : List Moment} (h : e.Plays ms e')
      (hrest : Chronicle e' rest e'') : Chronicle e (ms ++ rest) e''

/-! ### What the host can do -/

variable {ms ms' : List Moment}

theorem Plays.call (h : e.Plays ms e') : e.Call e' := by
  cases h with
  | withHost host => exact .withHost host
  | attach id => exact .attach id
  | detach => exact .detach
  | setBoard id => exact .setBoard id
  | setGlobal name v => exact .setGlobal name v
  | giveObject name o => exact .giveObject name o
  | collect => exact .collect
  | takeFailures => exact .takeFailures
  | spawn h => exact .spawn h
  | load h => exact .load h
  | evaluate h => exact .evaluate h
  | invoke h => exact .invoke h
  | resumeDue h => exact .resumeDue h
  | tick h => exact .tick h
  | render h => exact .render h
  | keyEvent h => exact .keyEvent h

theorem Call.plays (h : e.Call e') : ∃ ms, e.Plays ms e' := by
  cases h with
  | withHost host => exact ⟨_, .withHost host⟩
  | attach id => exact ⟨_, .attach id⟩
  | detach => exact ⟨_, .detach⟩
  | setBoard id => exact ⟨_, .setBoard id⟩
  | setGlobal name v => exact ⟨_, .setGlobal name v⟩
  | giveObject name o => exact ⟨_, .giveObject name o⟩
  | collect => exact ⟨_, .collect⟩
  | takeFailures => exact ⟨_, .takeFailures⟩
  | spawn h => exact ⟨_, .spawn h⟩
  | load h => exact ⟨_, .load h⟩
  | evaluate h => exact ⟨_, .evaluate h⟩
  | invoke h => exact ⟨_, .invoke h⟩
  | resumeDue h => exact ⟨_, .resumeDue h⟩
  | tick h => exact ⟨_, .tick h⟩
  | render h => exact ⟨_, .render h⟩
  | keyEvent h => exact ⟨_, .keyEvent h⟩

theorem Chronicle.calls (h : Chronicle e ms e') : ReflTransGen Call e e' := by
  induction h with
  | nil => exact .refl
  | cons h _ ih => exact ih.head h.call

/-- **Everything the host can do has a chronicle.** -/
theorem exists_chronicle (h : ReflTransGen Call e e') : ∃ ms, Chronicle e ms e' := by
  induction h using ReflTransGen.head_induction_on with
  | refl => exact ⟨[], .nil e'⟩
  | head h _ ih =>
    obtain ⟨ms, hplays⟩ := h.plays
    obtain ⟨rest, hrest⟩ := ih
    exact ⟨ms ++ rest, .cons hplays hrest⟩

/-! ### Calls that run a main script -/

/-- Either a thread has broken the rules, or the script runs. -/
theorem loadMoments_cases {script : List Stmt} {result : Except HostError Unit}
    (h : e.load fuel script = some (result, e')) :
    (e.loadMoments fuel script = [] ∧ e' = e) ∨
      ∃ halt w, Machine.runScript fuel e.world script = some (halt, w) ∧
        e.loadMoments fuel script = moments .host fuel (block e.world [] [] script) ∧
        e' = { e with world := w } := by
  unfold load whenHealthy at h
  unfold loadMoments
  cases hpoison : e.world.scheduler.poison with
  | some v =>
    simp only [hpoison, Option.some.injEq, Prod.mk.injEq] at h
    exact .inl ⟨rfl, h.2.symm⟩
  | none =>
    simp only [hpoison] at h
    obtain ⟨halt, w, hrun, rfl⟩ := exists_stop_of_map (by exact answer_eq e) h
    exact .inr ⟨halt, w, hrun, rfl, rfl⟩

/-- Either a thread has broken the rules or there is no function, which may be noted, or the
function is called. -/
theorem invokeMoments_cases {name : String} {args : List Value} {result : Except HostError Bool}
    (h : e.invoke fuel name args = some (result, e')) :
    (e.invokeMoments fuel name args = [] ∧
      (e' = e ∨ ∃ kind, e' = e.withRealm (e.world.note (.notFunction name kind)))) ∨
    ∃ halt w, Machine.runCall fuel e.world (e.world.global name) args = some (halt, w) ∧
      e.invokeMoments fuel name args =
        ⟨.host, e.world, .call ⟨e.world.global name, args, []⟩⟩ ::
          moments .host fuel (Machine.call .main e.world (e.world.global name) args []) ∧
      e' = { e with world := w } := by
  unfold invoke whenHealthy at h
  unfold invokeMoments
  cases hpoison : e.world.scheduler.poison with
  | some v =>
    simp only [hpoison, Option.some.injEq, Prod.mk.injEq] at h
    exact .inl ⟨rfl, .inl h.2.symm⟩
  | none =>
    simp only [hpoison] at h
    simp only [Option.isSome_none, Bool.false_eq_true, if_false]
    by_cases hf : (e.world.global name).isFunction
    · rw [if_pos hf] at h ⊢
      obtain ⟨halt, w, hrun, rfl⟩ := exists_stop_of_map (by exact answer_eq e) h
      exact .inr ⟨halt, w, hrun, rfl, rfl⟩
    · rw [if_neg hf] at h ⊢
      split at h
      · exact .inl ⟨rfl, .inl (Prod.mk.inj (Option.some.inj h)).2.symm⟩
      · exact .inl ⟨rfl, .inr ⟨_, (Prod.mk.inj (Option.some.inj h)).2.symm⟩⟩

/-- Either there is nobody to tell, or the script is given a handle on the key. -/
theorem keyMoments_cases {index : Nat} {pressed : Bool} {result : Except HostError Bool}
    (h : e.keyEvent fuel index pressed = some (result, e')) :
    (e.keyMoments fuel index pressed = [] ∧ e' = e) ∨ ∃ key : KeyHandle,
      { e with world := (e.world.newObject (.key key)).2 }.invoke fuel "onKeyEvent"
        [(e.world.newObject (.key key)).1, .bool pressed] = some (result, e') ∧
      e.keyMoments fuel index pressed =
        { e with world := (e.world.newObject (.key key)).2 }.invokeMoments fuel "onKeyEvent"
          [(e.world.newObject (.key key)).1, .bool pressed] := by
  unfold keyEvent at h
  unfold keyMoments
  cases hboard : e.board with
  | none =>
    simp only [hboard] at h
    exact .inl ⟨rfl, (Prod.mk.inj (Option.some.inj h)).2.symm⟩
  | some id =>
    simp only [hboard] at h
    simp only
    by_cases hkey : ((e.world.host.board? id).bind fun k => k.key? index).isSome
    · rw [if_pos hkey] at h ⊢
      exact .inr ⟨_, h, rfl⟩
    · rw [if_neg hkey] at h ⊢
      exact .inl ⟨rfl, (Prod.mk.inj (Option.some.inj h)).2.symm⟩

/-! ### Records -/

theorem calm_publish (e : Environment) : e.world.Calm none e.publish.world := by
  have hoffered : e.world.Calm none e.offered.2 := by
    unfold offered
    split
    · split
      · exact Calm.newObject e.world nofun
      · exact .refl _
    · exact .refl _
  rw [publish_eq]
  exact hoffered.trans (Calm.setTable ..)

/-- A main script that stops is recorded. -/
theorem record_of_run {next : Next} {halt : Halt} {w : World}
    (h : Machine.run .main fuel next = some (halt, w)) :
    Record next.world (moments .host fuel next) w :=
  have hrun : Machine.run Runner.host.place fuel next = some (halt, w) := h
  World.record_of_running (Machine.running_of_run hrun)

theorem record_load {script : List Stmt} {result : Except HostError Unit}
    (h : e.load fuel script = some (result, e')) :
    Record e.world (e.loadMoments fuel script) e'.world := by
  obtain ⟨hnone, rfl⟩ | ⟨halt, w, hrun, hmoments, rfl⟩ := loadMoments_cases h
  · rw [hnone]
    exact .refl _
  · have hworld : (block e.world [] [] script).world = e.world := by cases script <;> rfl
    have hrecord := record_of_run hrun
    rw [hworld] at hrecord
    rw [hmoments]
    exact hrecord

theorem record_invoke {name : String} {args : List Value} {result : Except HostError Bool}
    (h : e.invoke fuel name args = some (result, e')) :
    Record e.world (e.invokeMoments fuel name args) e'.world := by
  obtain ⟨hnone, rfl | ⟨kind, rfl⟩⟩ | ⟨halt, w, hrun, hmoments, rfl⟩ := invokeMoments_cases h
  · rw [hnone]
    exact .refl _
  · rw [hnone]
    exact .nil (.congr ((e.world.sent_note _).trans (List.append_nil _)) rfl rfl)
  · rw [hmoments]
    exact .cons (.refl _) (record_of_run hrun)

theorem record_resumeDue {result : Except HostError TickSummary}
    (h : e.resumeDue fuel now = some (result, e')) :
    Record e.world (e.resumeMoments fuel now) e'.world := by
  obtain ⟨⟨answer, w⟩, htick, heq⟩ := Option.map_eq_some_iff.mp h
  obtain ⟨-, rfl⟩ := Prod.mk.inj heq
  obtain ⟨turns, hturns, -, hrecord, -⟩ := World.recount_of_tick htick
  rw [resumeMoments, hturns]
  exact hrecord

theorem record_tick {result : Except HostError TickSummary}
    (h : e.tick fuel now = some (result, e')) :
    Record e.world (e.tickMoments fuel now) e'.world := by
  have hclock : e.world.Calm none
      (e.withContext { e.world.context with clock := now }).world := .congr rfl rfl rfl
  exact .of_calm hclock (record_resumeDue h)

theorem record_render {target : Nat} {result : Except HostError Bool}
    (h : e.render fuel now target = some (result, e')) :
    Record e.world (e.renderMoments fuel now target) e'.world := by
  obtain ⟨⟨answer, e₁⟩, htick, h⟩ := Option.bind_eq_some_iff.mp h
  have hrecord := record_tick htick
  unfold renderMoments
  rw [htick]
  cases answer with
  | error error =>
    obtain ⟨-, rfl⟩ := Prod.mk.inj (Option.some.inj h)
    rwa [List.append_nil]
  | ok summary =>
    -- the handle of the target is made between the tick and the script
    have hhandle : e₁.world.Calm none
        (e₁.world.newObject (.target (e₁.world.leaseTarget target))).2 :=
      Calm.newObject e₁.world nofun
    exact hrecord.trans (.of_calm hhandle (record_invoke h))

theorem record_keyEvent {index : Nat} {pressed : Bool} {result : Except HostError Bool}
    (h : e.keyEvent fuel index pressed = some (result, e')) :
    Record e.world (e.keyMoments fuel index pressed) e'.world := by
  obtain ⟨hnone, rfl⟩ | ⟨key, hinvoke, hmoments⟩ := keyMoments_cases h
  · rw [hnone]
    exact .refl _
  · have hhandle : e.world.Calm none (e.world.newObject (.key key)).2 :=
      Calm.newObject e.world nofun
    rw [hmoments]
    exact .of_calm hhandle (record_invoke hinvoke)

/-- The moments of a call of the host record it. -/
theorem Plays.record (h : e.Plays ms e') : Record e.world ms e'.world := by
  cases h with
  | withHost host => exact .nil (.congr rfl rfl rfl)
  | attach id =>
    have hcontext : e.world.Calm none
        (e.withContext { e.world.context with controller := some id }).world := .congr rfl rfl rfl
    refine .nil ((hcontext.trans (calm_publish _)).trans (.congr ?_ rfl rfl))
    exact (Realm.sent_note _ .attached).trans (List.append_nil _)
  | detach => exact .nil (.congr ((Realm.sent_note _ _).trans (List.append_nil _)) rfl rfl)
  | setBoard id => exact .nil (calm_publish { e with board := some id })
  | setGlobal name v => exact .cons (.refl _) (.refl _)
  | giveObject name o => exact .cons (.refl _) (.refl _)
  | collect => exact .nil (.congr rfl rfl rfl)
  | takeFailures => exact .nil (.congr rfl rfl rfl)
  | @spawn f v args form w h =>
    unfold World.spawn at h
    split at h
    · cases form with
      | object =>
        have hstart : e.world.Calm none (Effect.startThread e.world f args).2 :=
          Calm.startThread e.world f args
        rw [Except.ok.inj h] at hstart
        exact .nil hstart
      | number => cases h
    · cases h
  | load h => exact record_load h
  | evaluate h =>
    obtain ⟨halt, w, hrun, rfl⟩ := evaluate_cases h
    exact record_of_run hrun
  | invoke h => exact record_invoke h
  | resumeDue h => exact record_resumeDue h
  | tick h => exact record_tick h
  | render h => exact record_render h
  | keyEvent h => exact record_keyEvent h

/-- **A chronicle records what has happened.** -/
theorem Chronicle.record (h : Chronicle e ms e') : Record e.world ms e'.world := by
  induction h with
  | nil e => exact .refl _
  | cons h _ ih => exact h.record.trans ih

end KeyLight.Environment
