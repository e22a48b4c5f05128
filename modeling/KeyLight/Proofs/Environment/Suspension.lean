import KeyLight.Proofs.Environment.Poison
import KeyLight.Proofs.World.Turn

/-!
# Suspensions cannot be forged

As long as the host gives scripts no suspension (`PlainCall`), no environment that can come about
lets a script get hold of one, at no point in the course of any script. So a tick that resumes
threads answers with a violation just if the script of one of them gives up control by a statement.
-/

namespace KeyLight.Environment

open Relation

/-- What the host does with an environment, if it gives scripts no suspension. -/
inductive PlainCall (e : Environment) : Environment → Prop
  | withHost (host : Host) : PlainCall e (e.withHost host)
  | attach (id : Nat) : PlainCall e (e.attach id)
  | detach : PlainCall e e.detach.2
  | setBoard (id : Nat) : PlainCall e (e.setBoard id)
  | setGlobal (name : String) {v : Value} (hv : e.world.heap.Plain v.nodes) :
      PlainCall e (e.setGlobal name v)
  | giveObject (name : String) {o : Object} (htype : o.type ≠ .suspension) :
      PlainCall e (e.giveObject name o)
  | collect : PlainCall e e.collect
  | takeFailures : PlainCall e e.takeFailures.2
  | spawn {f v : Value} {args : List Value} {form : World.HandleForm} {w : World}
      (hroutine : e.world.heap.Plain (Coroutine.fresh f args).nodes)
      (h : e.world.spawn f args form = .ok (v, w)) : PlainCall e { e with world := w }
  | load {fuel : Nat} {script : List Stmt} {result : Except HostError Unit} {e' : Environment}
      (h : e.load fuel script = some (result, e')) : PlainCall e e'
  | evaluate {fuel : Nat} {expr : Expr} {result : Except HostError Value} {e' : Environment}
      (h : e.evaluate fuel expr = some (result, e')) : PlainCall e e'
  | invoke {fuel : Nat} {name : String} {args : List Value} {result : Except HostError Bool}
      {e' : Environment} (hargs : e.world.heap.Plain (args.flatMap Value.nodes))
      (h : e.invoke fuel name args = some (result, e')) : PlainCall e e'
  | resumeDue {fuel : Nat} {now : Float} {result : Except HostError TickSummary}
      {e' : Environment} (h : e.resumeDue fuel now = some (result, e')) : PlainCall e e'
  | tick {fuel : Nat} {now : Float} {result : Except HostError TickSummary} {e' : Environment}
      (h : e.tick fuel now = some (result, e')) : PlainCall e e'
  | render {fuel : Nat} {now : Float} {target : Nat} {result : Except HostError Bool}
      {e' : Environment} (h : e.render fuel now target = some (result, e')) : PlainCall e e'
  | keyEvent {fuel index : Nat} {pressed : Bool} {result : Except HostError Bool}
      {e' : Environment} (h : e.keyEvent fuel index pressed = some (result, e')) : PlainCall e e'

variable {e e' : Environment} {fuel : Nat} {now : Float}

/-! ### Calls that run no script -/

theorem plain_start (host : Host) (config : Config) : (start host config).world.Plain where
  locals := fun _ => Heap.plain_nil _
  tables := fun id => by
    have hhome : (start host config).world.heap.Plain homeTable.nodes := Heap.plain_nil _
    have hempty : (start host config).world.heap.Plain Table.empty.nodes := Heap.plain_nil _
    unfold Heap.readTable
    cases ht : (start host config).world.heap.tables[id]? with
    | none => exact hempty
    | some t =>
      have hmem : t ∈ (#[homeTable, .empty] : Array Table) := Array.mem_of_getElem? ht
      obtain rfl | rfl : t = homeTable ∨ t = .empty := by simpa using hmem
      · exact hhome
      · exact hempty
  globals := by
    have hglobals : ∀ entry ∈ firstGlobals, ∀ id, Node.object id ∉ entry.2.nodes := by
      simp [firstGlobals, Value.nodes]
    exact fun entry hentry id hid => absurd hid (hglobals entry hentry id)
  threads := fun id t _ ht => by
    have hpos := Scheduler.pos_of_thread? ht
    exact absurd hpos (Nat.not_lt.mpr (Scheduler.le_size_of_thread? ht))

theorem plain_publish (hw : e.world.Plain) : e.publish.world.Plain := by
  -- showing scripts a value that is no suspension
  have hshow {w : World} {v : Value} (hw : w.Plain) (hv : w.heap.Plain v.nodes) :
      (w.updateHeap (·.setTable w.home (((w.heap.readTable w.home).put? (.ofString "db") v).getD
        (w.heap.readTable w.home)))).Plain := by
    refine hw.setTable ?_ _
    cases hput : (w.heap.readTable w.home).put? (.ofString "db") v with
    | none => exact hw.tables w.home
    | some t => exact (hw.tables w.home).put (Heap.plain_nil _) hv hput
  have hnil : e.world.heap.Plain Value.nil.nodes := Heap.plain_nil _
  unfold publish
  cases e.board with
  | none => exact (hshow hw hnil).congr rfl rfl rfl
  | some id =>
    simp only
    split
    · let board : Object := .board (e.world.leaseBoard id)
      exact (hshow (hw.addObject board)
        (Heap.plain_newObject e.world.heap ObjectType.noConfusion)).congr rfl rfl rfl
    · exact (hshow hw hnil).congr rfl rfl rfl

theorem plain_collect (hw : e.world.Plain) : e.collect.world.Plain :=
  World.Plain.withScheduler (r := e.world.toRealm) (s := e.world.scheduler) hw
    fun id t' routine ht' hroutine => by
      change (e.world.scheduler.collect _).thread? id = some t' at ht'
      rw [Scheduler.thread?_collect] at ht'
      split at ht'
      · obtain ⟨t, ht, rfl⟩ := Option.map_eq_some_iff.mp ht'
        exact ⟨t, ht, hroutine⟩
      · exact ⟨t', ht', hroutine⟩

theorem plain_detach (hw : e.world.Plain) : e.detach.2.world.Plain := by
  have hcancelled : World.Plain ⟨e.world.toRealm, e.world.scheduler.cancelAll.2⟩ := by
    rw [Scheduler.cancelAll_eq]
    exact (World.Plain.cancel hw _).reap
  exact hcancelled.congr rfl rfl rfl

theorem plain_spawn (hw : e.world.Plain) {f v : Value} {args : List Value}
    {form : World.HandleForm} {w : World}
    (hroutine : e.world.heap.Plain (Coroutine.fresh f args).nodes)
    (h : e.world.spawn f args form = .ok (v, w)) : w.Plain := by
  unfold World.spawn at h
  split at h
  · cases form with
    | object =>
      obtain ⟨-, rfl⟩ := Prod.mk.inj (Except.ok.inj h)
      exact (hw.spawn hroutine).addObject _
    | number => cases h
  · cases h

/-! ### Calls that run scripts -/

/-- What a script leaves behind that stops. -/
theorem plain_of_run {next : Next} {halt : Halt} {w : World} (hfirst : next.Plain)
    (h : Machine.run .main fuel next = some (halt, w)) : w.Plain :=
  ((Machine.reaches_of_run h).plain hfirst).world

theorem plain_block (hw : e.world.Plain) (script : List Stmt) :
    (Machine.block e.world [] [] script).Plain :=
  have hafter : (Machine.block e.world [] [] script).PlainAfter e.world.heap false :=
    Machine.plain_block (.refl _) hw (Heap.plain_nil _) script
  hafter.toPlain

theorem plain_eval (hw : e.world.Plain) (expr : Expr) :
    (Next.running e.world (.eval expr []) []).Plain :=
  ⟨hw, Heap.plain_nil _⟩

theorem plain_call (hw : e.world.Plain) {f : Value} {args : List Value}
    (hf : e.world.heap.Plain f.nodes) (hargs : e.world.heap.Plain (args.flatMap Value.nodes)) :
    (Machine.call .main e.world f args []).Plain :=
  have hafter : (Machine.call .main e.world f args []).PlainAfter e.world.heap false :=
    Machine.plain_call (.refl _) hw (Heap.plain_nil _) hf hargs
  hafter.toPlain

/-- The script is told of a key by a handle. -/
theorem plain_keyEventArgs (w : World) (h : KeyHandle) (pressed : Bool) :
    (w.newObject (.key h)).2.heap.Plain
      ([(w.newObject (.key h)).1, .bool pressed].flatMap Value.nodes) :=
  Heap.plain_append.mpr
    ⟨Heap.plain_newObject w.heap (o := .key h) ObjectType.noConfusion, Heap.plain_nil _⟩

/-- The script draws on a handle. -/
theorem plain_renderArgs (w : World) (h : TargetHandle) (passed : Float) :
    (w.newObject (.target h)).2.heap.Plain
      ([.float passed, (w.newObject (.target h)).1].flatMap Value.nodes) :=
  Heap.plain_append.mpr ⟨Heap.plain_nil _, Heap.plain_append.mpr
    ⟨Heap.plain_newObject w.heap (o := .target h) ObjectType.noConfusion, Heap.plain_nil _⟩⟩

theorem plain_load (hw : e.world.Plain) {script : List Stmt} {result : Except HostError Unit}
    (h : e.load fuel script = some (result, e')) : e'.world.Plain := by
  obtain rfl | ⟨halt, w, hrun, rfl⟩ := load_cases h
  · exact hw
  · exact plain_of_run (plain_block hw script) hrun

theorem plain_evaluate (hw : e.world.Plain) {expr : Expr} {result : Except HostError Value}
    (h : e.evaluate fuel expr = some (result, e')) : e'.world.Plain := by
  obtain ⟨halt, w, hrun, rfl⟩ := evaluate_cases h
  exact plain_of_run (plain_eval hw expr) hrun

theorem plain_invoke (hw : e.world.Plain) {name : String} {args : List Value}
    (hargs : e.world.heap.Plain (args.flatMap Value.nodes)) {result : Except HostError Bool}
    (h : e.invoke fuel name args = some (result, e')) : e'.world.Plain := by
  obtain rfl | ⟨notice, rfl⟩ | ⟨halt, w, hrun, rfl⟩ := invoke_cases h
  · exact hw
  · exact hw.congr rfl rfl rfl
  · exact plain_of_run (plain_call hw (hw.global name) hargs) hrun

theorem plain_keyEvent (hw : e.world.Plain) {index : Nat} {pressed : Bool}
    {result : Except HostError Bool} (h : e.keyEvent fuel index pressed = some (result, e')) :
    e'.world.Plain := by
  obtain rfl | ⟨key, hinvoke⟩ := keyEvent_cases h
  · exact hw
  · exact plain_invoke (hw.addObject (.key key)) (plain_keyEventArgs e.world key pressed) hinvoke

theorem plain_resumeDue (hw : e.world.Plain) {result : Except HostError TickSummary}
    (h : e.resumeDue fuel now = some (result, e')) : e'.world.Plain := by
  obtain ⟨⟨answer, w⟩, htick, heq⟩ := Option.map_eq_some_iff.mp h
  obtain ⟨-, rfl⟩ := Prod.mk.inj heq
  exact (World.plain_tick hw htick).1

theorem plain_withClock (hw : e.world.Plain) (now : Float) : (e.withClock now).world.Plain :=
  hw.congr rfl rfl rfl

theorem plain_render (hw : e.world.Plain) {target : Nat} {result : Except HostError Bool}
    (h : e.render fuel now target = some (result, e')) : e'.world.Plain := by
  obtain ⟨answer, e₁, htick, hcases⟩ := render_cases h
  have hw₁ : e₁.world.Plain := plain_resumeDue (plain_withClock hw now) htick
  obtain ⟨-, -, -, rfl⟩ | ⟨handle, passed, hinvoke⟩ := hcases
  · exact hw₁
  · exact plain_invoke (hw₁.addObject (.target handle)) (plain_renderArgs e₁.world handle passed)
      hinvoke

theorem PlainCall.plain (hw : e.world.Plain) (h : e.PlainCall e') : e'.world.Plain := by
  cases h with
  | withHost host => exact hw.congr rfl rfl rfl
  | attach id =>
    let attached := e.withContext { e.world.context with controller := some id }
    have hw' : attached.world.Plain := hw.congr rfl rfl rfl
    exact (plain_publish hw').congr rfl rfl rfl
  | detach => exact plain_detach hw
  | setBoard id => exact plain_publish (e := { e with board := some id }) hw
  | setGlobal name hv => exact hw.setGlobal hv name
  | @giveObject name o htype =>
    exact (hw.addObject o).setGlobal (Heap.plain_newObject e.world.heap htype) name
  | collect => exact plain_collect hw
  | takeFailures => exact ⟨hw.locals, hw.tables, hw.globals, hw.threads⟩
  | spawn hroutine h => exact plain_spawn hw hroutine h
  | load h => exact plain_load hw h
  | evaluate h => exact plain_evaluate hw h
  | invoke hargs h => exact plain_invoke hw hargs h
  | resumeDue h => exact plain_resumeDue hw h
  | tick h => exact plain_resumeDue (plain_withClock hw _) h
  | render h => exact plain_render hw h
  | keyEvent h => exact plain_keyEvent hw h

/-- No environment that can come about refers to a suspension. -/
theorem plain_of_reachable {host : Host} {config : Config}
    (h : ReflTransGen PlainCall (start host config) e) : e.world.Plain := by
  induction h with
  | refl => exact plain_start host config
  | tail _ hcall ih => exact hcall.plain ih

/-! ### Points where scripts begin -/

/-- The points where scripts begin to run when the host calls an environment. -/
inductive Begins (e : Environment) : Place → Next → Prop
  | load (script : List Stmt) : Begins e .main (Machine.block e.world [] [] script)
  | evaluate (expr : Expr) : Begins e .main (.running e.world (.eval expr []) [])
  | invoke (name : String) {args : List Value}
      (hargs : e.world.heap.Plain (args.flatMap Value.nodes)) :
      Begins e .main (Machine.call .main e.world (e.world.global name) args [])
  /-- A frame to draw, after the tick. -/
  | render (h : TargetHandle) (passed : Float) : Begins e .main <|
      let (handle, r) := e.world.newObject (.target h)
      Machine.call .main r (r.global "render") [.float passed, handle] []
  | keyEvent (h : KeyHandle) (pressed : Bool) : Begins e .main <|
      let (handle, r) := e.world.newObject (.key h)
      Machine.call .main r (r.global "onKeyEvent") [handle, .bool pressed] []
  /-- A thread of the agenda of a tick, after those before it; the tick may set the clock. -/
  | thread {fuel : Nat} {now clock : Float} {before after : List (ThreadId × Coroutine)}
      {id : ThreadId} {routine : Coroutine} {n : TickSummary} {r : Realm} {s : Scheduler Coroutine}
      (hagenda : e.world.scheduler.agenda now = before ++ (id, routine) :: after)
      (h : Scheduler.resumeAll (World.resumeThread fuel) now before .zero
        (e.withClock clock).world.toRealm (e.world.scheduler.cancelCollected now) =
          some (.ok n, r, s)) :
      Begins e .thread (Machine.entry ⟨r, s.setState id .running⟩ routine)

/-- No script begins with a suspension at hand. -/
theorem Begins.plain {place : Place} {first : Next} (hw : e.world.Plain)
    (h : e.Begins place first) : first.Plain := by
  cases h with
  | load script => exact plain_block hw script
  | evaluate expr => exact plain_eval hw expr
  | invoke name hargs => exact plain_call hw (hw.global name) hargs
  | render h passed =>
    have hworld : (e.world.newObject (.target h)).2.Plain := hw.addObject _
    exact plain_call (e := { e with world := (e.world.newObject (.target h)).2 }) hworld
      (hworld.global "render") (plain_renderArgs e.world h passed)
  | keyEvent h pressed =>
    have hworld : (e.world.newObject (.key h)).2.Plain := hw.addObject _
    exact plain_call (e := { e with world := (e.world.newObject (.key h)).2 }) hworld
      (hworld.global "onKeyEvent") (plain_keyEventArgs e.world h pressed)
  | @thread fuel now clock before after id routine n r s hagenda h =>
    have htasks : ∀ task ∈ before ++ (id, routine) :: after, e.world.heap.Plain task.2.nodes :=
      hagenda ▸ hw.agenda now
    have hroutine : e.world.heap.Plain routine.nodes :=
      htasks (id, routine) (List.mem_append_right _ List.mem_cons_self)
    have hclock := (plain_withClock hw clock).cancelCollected now
    obtain ⟨hworld, hkeeps⟩ := World.plain_of_resumeAll hclock
      (fun task htask => htasks task (List.mem_append_left _ htask)) h
    exact (Machine.plain_entry (hworld.setState id .running) (hroutine.keeps hkeeps)).toPlain

/-! ### Ticks -/

/-- What becomes of a tick is settled by the turns of its threads: unless a thread has broken the
rules before, the tick fails just if a statement gives up control in one of the turns; afterwards
it always fails, and there are no turns. -/
structure SettledBy (e : Environment) (now : Float) (turns : List Turn)
    (result : Except HostError TickSummary) : Prop where
  /-- The turns are those of the first threads of the agenda. -/
  ordered : ∃ later,
    e.world.scheduler.agenda now = turns.map (fun t => (t.id, t.routine)) ++ later
  fails_iff : e.poison = none →
    ((∃ x, result = .error (.violation x)) ↔ ∃ t ∈ turns, t.YieldsExplicitly)
  fails_again : ∀ x, e.poison = some x → turns = [] ∧ result = .error (.violation x)
  /-- The threads that break the rules are those in whose turn a statement gives up control. -/
  strays : ∀ t ∈ turns, t.outcome.isStray = true ↔ t.YieldsExplicitly
  /-- A thread that is the capability to wait never does, before and after it has waited. -/
  waits : ∀ t ∈ turns, ∀ args, t.routine = .fresh (.builtin (.capability .wait)) args ∨
    t.routine = .suspended [] args → ¬ t.YieldsExplicitly

theorem violation_mapError_iff {α : Type} (answer : Except Violation α) :
    (∃ x, answer.mapError HostError.violation = .error (.violation x)) ↔
      ∃ x, answer = .error x := by
  cases answer with
  | ok a => exact iff_of_false (fun ⟨_, h⟩ => nomatch h) fun ⟨_, h⟩ => nomatch h
  | error x => exact iff_of_true ⟨x, rfl⟩ ⟨x, rfl⟩

theorem settledBy_of_tick (hw : e.world.Plain) {result : Except HostError TickSummary}
    (h : e.tick fuel now = some (result, e')) :
    ∃ turns, (e.withClock now).world.turns fuel now = some turns ∧
      e.SettledBy now turns result := by
  obtain ⟨⟨answer, w⟩, htick, heq⟩ := Option.map_eq_some_iff.mp h
  obtain ⟨rfl, -⟩ := Prod.mk.inj heq
  obtain ⟨-, turns, hturns, hcases⟩ := World.plain_tick (plain_withClock hw now) htick
  refine ⟨turns, hturns, ?_⟩
  obtain ⟨x, hpoison, rfl, rfl⟩ | ⟨hpoison, hplayed⟩ := hcases
  · exact
      { ordered := ⟨_, rfl⟩
        fails_iff := fun hhealthy => nomatch hpoison.symm.trans hhealthy
        fails_again := fun y hy => by
          obtain rfl : x = y := Option.some.inj (hpoison.symm.trans hy)
          exact ⟨rfl, rfl⟩
        strays := fun _ ht => nomatch ht
        waits := fun _ ht => nomatch ht }
  · have hnever (x : Violation) (hx : e.poison = some x) :
        turns = [] ∧ answer.mapError HostError.violation = .error (.violation x) :=
      nomatch hpoison.symm.trans hx
    refine ⟨hplayed.ordered, fun _ => ?_, hnever, hplayed.strays, fun t ht args hwaits => ?_⟩
    · calc (∃ x, answer.mapError HostError.violation = .error (.violation x))
        _ ↔ ∃ x, answer = .error x := violation_mapError_iff answer
        _ ↔ ∃ t ∈ turns, t.outcome.isStray = true := hplayed.answers
        _ ↔ ∃ t ∈ turns, t.YieldsExplicitly :=
          exists_congr fun t => and_congr_right fun ht => hplayed.strays t ht
    · obtain ⟨hworld, hroutine⟩ := hplayed.plain t ht
      obtain heq | heq := hwaits
      · rw [heq, Coroutine.nodes_fresh] at hroutine
        obtain ⟨-, hargs⟩ := Heap.plain_append.mp hroutine
        unfold Turn.YieldsExplicitly
        rw [heq]
        exact Machine.not_yieldsExplicitly_wait hworld hargs
      · unfold Turn.YieldsExplicitly
        rw [heq]
        exact Machine.not_yieldsExplicitly_suspended_nil t.world args

/-- **Scripts cannot forge suspensions.** If the host gives scripts none, no environment refers to
one, and no script has one at hand at any point of its course, in whatever place it runs; waiting
gives nil. So a tick of an environment in which no thread has broken the rules answers with a
violation just if a statement of one of the threads that it resumes gives up control, with whatever
values, and a thread that only waits never breaks the rules. -/
theorem scripts_cannot_forge_suspensions {host : Host} {config : Config}
    (h : ReflTransGen PlainCall (start host config) e) :
    e.world.Plain ∧
    (∀ place first next, e.Begins place first → Machine.Reaches place first next → next.Plain) ∧
    (∀ place w args frames, w.Plain → w.heap.Plain (args.flatMap Value.nodes) →
      Machine.WaitsForNil place frames
        (Machine.call place w (.builtin (.capability .wait)) args frames)) ∧
    ∀ fuel now result e', e.tick fuel now = some (result, e') →
      ∃ turns, (e.withClock now).world.turns fuel now = some turns ∧
        e.SettledBy now turns result := by
  have hw : e.world.Plain := plain_of_reachable h
  exact ⟨hw, fun place first next hfirst hnext => hnext.plain (hfirst.plain hw),
    fun place w args frames hworld hargs => Machine.waitsForNil_callCapability hworld hargs frames,
    fun fuel now result e' htick => settledBy_of_tick hw htick⟩

/-- A script that starts a thread, which gives up control with no value. -/
def yielding : List Stmt := [.discard (.call (.name "thread") [.function [] [.yield []]])]

/-- After the script is loaded, the first tick fails because a statement gives up control. -/
theorem scripts_cannot_forge_suspensions_yielding :
    ∃ e e', (start .empty {}).load 20 yielding = some (.ok (), e) ∧
      e.tick 20 0.0 = some (.error (.violation ⟨1, "nothing"⟩), e') ∧
      ∃ turns, (e.withClock 0.0).world.turns 20 0.0 = some turns ∧
        ∃ t ∈ turns, t.YieldsExplicitly := by
  have hruns : ((start .empty {}).load 20 yielding).map (fun r => (r.1, r.2.poison,
      (r.2.tick 20 0.0).map (·.1))) =
      some (.ok (), none, some (.error (.violation ⟨1, "nothing"⟩))) := rfl
  obtain ⟨⟨loaded, e⟩, hload, heq⟩ := Option.map_eq_some_iff.mp hruns
  obtain ⟨rfl, hpoison, htick⟩ : loaded = .ok () ∧ e.poison = none ∧
      (e.tick 20 0.0).map (·.1) = some (.error (.violation ⟨1, "nothing"⟩)) := by
    simpa using heq
  obtain ⟨⟨result, e'⟩, htick, rfl⟩ := Option.map_eq_some_iff.mp htick
  obtain ⟨-, -, -, hticks⟩ := scripts_cannot_forge_suspensions (.single (.load hload))
  obtain ⟨turns, hturns, hsettled⟩ := hticks 20 0.0 _ e' htick
  exact ⟨e, e', hload, htick, turns, hturns, (hsettled.fails_iff hpoison).mp ⟨_, rfl⟩⟩

/-- In an environment in which a thread has broken the rules, ticks fail of themselves: the second
tick has no turns. -/
theorem not_forall_fails_iff_yields :
    ¬ ∀ (e e' : Environment) (fuel : Nat) (now : Float) (result : Except HostError TickSummary)
      (turns : List Turn), ReflTransGen PlainCall (start .empty {}) e →
      e.tick fuel now = some (result, e') → (e.withClock now).world.turns fuel now = some turns →
      ((∃ x, result = .error (.violation x)) ↔ ∃ t ∈ turns, t.YieldsExplicitly) := by
  intro hall
  have hruns : ((start .empty {}).load 20 yielding).map (fun r =>
      (r.2.tick 20 0.0).map (·.2.poison)) = some (some (some ⟨1, "nothing"⟩)) := rfl
  obtain ⟨⟨loaded, e₁⟩, hload, hbroken⟩ := Option.map_eq_some_iff.mp hruns
  obtain ⟨⟨answer, e₂⟩, htick, hpoison⟩ := Option.map_eq_some_iff.mp hbroken
  have hreaches : ReflTransGen PlainCall (start .empty {}) e₂ :=
    .tail (.single (.load hload)) (.tick htick)
  have hagain := tick_of_poison hpoison 20 1.0
  obtain ⟨turns, hturns, hsettled⟩ := settledBy_of_tick (plain_of_reachable hreaches) hagain
  obtain ⟨t, ht, -⟩ := (hall e₂ _ 20 1.0 _ turns hreaches hagain hturns).mp ⟨_, rfl⟩
  rw [(hsettled.fails_again _ hpoison).1] at ht
  cases ht

end KeyLight.Environment
