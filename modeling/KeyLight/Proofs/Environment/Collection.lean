import KeyLight.Proofs.Environment.Poison
import KeyLight.Proofs.Scheduler.Leaving
import KeyLight.Proofs.World.Retention

/-!
# Threads live as long as they can be reached

Between two calls the host may hold values that scripts gave it. `Holding` is one call with what the
host holds before and after it, and a `History` is a row of calls that also tells the events of the
scheduler. In every environment that comes about, what can be reached is among the things that the
environment retains (`History.retained`).

So the tick after a collection keeps the live threads that could be reached, unless they stop in the
tick, and no others (`tick_keeps_reached`): it resumes those of them that are due, and a thread that
could not be reached is never resumed again.

A thread that waits keeps the arguments of its call until the call returns, also those that the call
does not look at, and they count as what it has left to do.
-/

namespace KeyLight.Environment

open Scheduler (Event Run Step Ticked)

variable {known : Node → Prop} {e e' : Environment} {held held' : List Value} {fuel : Nat}
  {host : Host} {config : Config} {events : List (Event Coroutine)} {id : ThreadId}

/-- Drops what scripts cannot reach when the host holds some values. -/
def collectHolding (e : Environment) (held : List Value) : Environment :=
  { e with world := e.world.collectHolding held }

/-- The handle of a thread can be reached when the host holds some values: from the global
variables, the table of information and the values, through tables, the variables of functions and
what the threads have left to do whose handles can be reached. That is their routine and the
arguments they are to be called with, or the variables and values of what they go on with and the
arguments of the call that suspended them. -/
def Reached (e : Environment) (held : List Value) (id : ThreadId) : Prop :=
  ∃ object : Nat, e.world.ReachedWith held (.object object) ∧
    e.world.heap.objects[object]? = some (.thread ⟨id⟩)

/-- What a thing refers to, but for what the threads of a group have left to do. -/
def linksApart (e : Environment) (group : List ThreadId) : Node → List Node
  | .thread id => if id ∈ group then [] else e.world.links (.thread id)
  | n => e.world.links n

/-- The handle of a thread can be reached apart from what the threads of a group have left to do. -/
def ReachedApart (e : Environment) (held : List Value) (group : List ThreadId) (id : ThreadId) :
    Prop :=
  ∃ object : Nat,
    Linked (e.linksApart group) (e.world.roots ++ held.flatMap Value.nodes) (.object object) ∧
      e.world.heap.objects[object]? = some (.thread ⟨id⟩)

/-! ### Histories -/

/-- The value that an expression gives the host, if it gives one. -/
def given : Except HostError Value → List Value
  | .ok v => [v]
  | .error _ => []

/-- A call of the host, with the values that it holds before and after it. What it passes on are
values that it holds, or values that refer to nothing, and it gives scripts no handles of threads
but those it was given. -/
inductive Holding (e : Environment) (held : List Value) : Environment → List Value → Prop
  | drop {fewer : List Value} (h : fewer ⊆ held) : Holding e held e fewer
  | withHost (host : Host) : Holding e held (e.withHost host) held
  | attach (id : Nat) : Holding e held (e.attach id) held
  | detach : Holding e held e.detach.2 held
  | setBoard (id : Nat) : Holding e held (e.setBoard id) held
  | setGlobal (name : String) {v : Value} (hv : v.nodes ⊆ held.flatMap Value.nodes) :
      Holding e held (e.setGlobal name v) held
  | giveObject (name : String) {o : Object} (ho : o.type ≠ .thread) :
      Holding e held (e.giveObject name o) held
  | collect : Holding e held (e.collectHolding held) held
  | takeFailures : Holding e held e.takeFailures.2 held
  | spawn {f v : Value} {args : List Value} {form : World.HandleForm} {w : World}
      (hroutine : (Coroutine.fresh f args).nodes ⊆ held.flatMap Value.nodes)
      (h : e.world.spawn f args form = .ok (v, w)) :
      Holding e held { e with world := w } (v :: held)
  | load {fuel : Nat} {script : List Stmt} {result : Except HostError Unit} {e' : Environment}
      (h : e.load fuel script = some (result, e')) : Holding e held e' held
  | evaluate {fuel : Nat} {expr : Expr} {result : Except HostError Value} {e' : Environment}
      (h : e.evaluate fuel expr = some (result, e')) : Holding e held e' (given result ++ held)
  | invoke {fuel : Nat} {name : String} {args : List Value} {result : Except HostError Bool}
      {e' : Environment} (hargs : args.flatMap Value.nodes ⊆ held.flatMap Value.nodes)
      (h : e.invoke fuel name args = some (result, e')) : Holding e held e' held
  | resumeDue {fuel : Nat} {now : Float} {result : Except HostError TickSummary}
      {e' : Environment} (h : e.resumeDue fuel now = some (result, e')) : Holding e held e' held
  | tick {fuel : Nat} {now : Float} {result : Except HostError TickSummary} {e' : Environment}
      (h : e.tick fuel now = some (result, e')) : Holding e held e' held
  | render {fuel : Nat} {now : Float} {target : Nat} {result : Except HostError Bool}
      {e' : Environment} (h : e.render fuel now target = some (result, e')) : Holding e held e' held
  | keyEvent {fuel index : Nat} {pressed : Bool} {result : Except HostError Bool}
      {e' : Environment} (h : e.keyEvent fuel index pressed = some (result, e')) :
      Holding e held e' held

/-- The calls of the host from the beginning, with the events of the scheduler, in which threads are
resumed as the machine does it. -/
inductive History (host : Host) (config : Config) :
    List (Event Coroutine) → Environment → List Value → Prop
  | start : History host config [] (start host config) []
  | next {events last : List (Event Coroutine)} {e e' : Environment} {held held' : List Value}
      (h : History host config events e held) (hcall : e.Holding held e' held')
      (hrun : Run e.world.scheduler last e'.world.scheduler)
      (hpaid : ∀ v ∈ last.flatMap Event.visits, ∃ fuel, v.PaidBy (World.resumeThread fuel)) :
      History host config (events ++ last) e' held'

theorem Traced.paid {last : List (Event Coroutine)} (h : e.Traced last e') :
    ∀ v ∈ last.flatMap Event.visits, ∃ fuel, v.PaidBy (World.resumeThread fuel) := by
  cases h with
  | take => exact fun _ hv => nomatch hv
  | other _ hrun => exact hrun.paid

/-- Every call has events, so that every row of calls is a history. -/
theorem Holding.exists_run (h : e.Holding held e' held') :
    ∃ last, Run e.world.scheduler last e'.world.scheduler ∧
      ∀ v ∈ last.flatMap Event.visits, ∃ fuel, v.PaidBy (World.resumeThread fuel) := by
  have called (h : e.Call e') : ∃ last, Run e.world.scheduler last e'.world.scheduler ∧
      ∀ v ∈ last.flatMap Event.visits, ∃ fuel, v.PaidBy (World.resumeThread fuel) := by
    obtain ⟨last, htraced⟩ := h.traced
    exact ⟨last, htraced.run, htraced.paid⟩
  cases h with
  | drop => exact ⟨[], .nil, fun _ hv => nomatch hv⟩
  | collect => exact ⟨[.collected], .single (.collect _), fun _ hv => nomatch hv⟩
  | withHost host => exact called (.withHost host)
  | attach id => exact called (.attach id)
  | detach => exact called .detach
  | setBoard id => exact called (.setBoard id)
  | @setGlobal name v => exact called (.setGlobal name v)
  | @giveObject name o => exact called (.giveObject name o)
  | takeFailures => exact called .takeFailures
  | spawn _ h => exact called (.spawn h)
  | load h => exact called (.load h)
  | evaluate h => exact called (.evaluate h)
  | invoke _ h => exact called (.invoke h)
  | resumeDue h => exact called (.resumeDue h)
  | tick h => exact called (.tick h)
  | render h => exact called (.render h)
  | keyEvent h => exact called (.keyEvent h)

theorem History.run (h : History host config events e held) :
    Run .empty events e.world.scheduler := by
  induction h with
  | start => exact .nil
  | next _ _ hrun _ ih => exact ih.trans hrun

theorem History.paid (h : History host config events e held) :
    ∀ v ∈ events.flatMap Event.visits, ∃ fuel, v.PaidBy (World.resumeThread fuel) := by
  induction h with
  | start => exact fun _ hv => nomatch hv
  | next _ _ _ hpaid ih =>
    rw [List.flatMap_append]
    exact List.forall_mem_append.mpr ⟨ih, hpaid⟩

theorem History.idle (h : History host config events e held) : e.world.scheduler.Idle :=
  h.run.idle Scheduler.idle_empty

/-! ### What is retained -/

/-- The environment retains some known things, and what the host holds is known. -/
def Retained (known : Node → Prop) (e : Environment) (held : List Value) : Prop :=
  e.world.Retains known ∧ ∀ n ∈ held.flatMap Value.nodes, known n

theorem retained_start (host : Host) (config : Config) :
    Retained (fun _ => True) (start host config) [] := by
  have none {id : ThreadId} {t : Thread Coroutine}
      (ht : (Scheduler.empty : Scheduler Coroutine).thread? id = some t) : False :=
    Nat.not_lt.mpr (Scheduler.le_size_of_thread? ht) (Scheduler.pos_of_thread? ht)
  refine ⟨⟨⟨fun _ _ _ _ => trivial, fun _ _ => trivial, fun _ _ => trivial⟩, trivial,
    fun _ _ _ _ => trivial, fun _ _ _ _ _ _ _ _ => trivial, fun _ _ _ _ _ => trivial, ?_⟩,
    fun _ _ => trivial⟩
  exact fun id t ht _ => (none ht).elim

variable (hw : e.world.Retains known)
include hw

theorem retains_publish : e.publish.world.Retains known := by
  have hoffered : e.offered.2.Retains known ∧ ∀ n ∈ e.offered.1.nodes, known n := by
    unfold offered
    split
    · split
      · exact ⟨hw.addObject ObjectType.noConfusion, fun n hn => hw.newObject hn⟩
      · exact ⟨hw, List.forall_mem_nil _⟩
    · exact ⟨hw, List.forall_mem_nil _⟩
  obtain ⟨hw', hv⟩ := hoffered
  rw [publish_eq]
  refine hw'.acts (World.Act.setTable hw'.home fun n hn => ?_).acts
  cases hput : (e.offered.2.heap.readTable e.offered.2.home).put? (.ofString "db") e.offered.1 with
  | none =>
    rw [hput] at hn
    exact hw'.closed hw'.home n hn
  | some t =>
    rw [hput] at hn
    obtain hn | hn := List.mem_append.mp (Table.nodes_put_subset hput hn)
    · exact hv n hn
    · exact hw'.closed hw'.home n hn

theorem retains_invoke {name : String} {args : List Value} {result : Except HostError Bool}
    (hargs : ∀ n ∈ args.flatMap Value.nodes, known n)
    (h : e.invoke fuel name args = some (result, e')) : e'.world.Retains known := by
  obtain rfl | ⟨notice, rfl⟩ | ⟨halt, w, hrun, rfl⟩ := invoke_cases h
  · exact hw
  · exact hw.congr rfl rfl rfl rfl
  · exact hw.acts (Machine.acts_runCall hw.toWithin (hw.global name) hargs hrun).1

theorem retains_resumeDue (hidle : e.world.scheduler.Idle) {now : Float}
    {result : Except HostError TickSummary} (h : e.resumeDue fuel now = some (result, e')) :
    e'.world.Retains known := by
  obtain ⟨⟨answer, w⟩, htick, heq⟩ := Option.map_eq_some_iff.mp h
  obtain ⟨-, rfl⟩ := Prod.mk.inj heq
  exact hw.tick hidle htick

theorem retains_tick (hidle : e.world.scheduler.Idle) {now : Float}
    {result : Except HostError TickSummary} (h : e.tick fuel now = some (result, e')) :
    e'.world.Retains known :=
  retains_resumeDue (e := e.withClock now) (hw.congr rfl rfl rfl rfl) hidle h

omit hw

/-- **Every call keeps what is known**, but for a collection, after which less may be. -/
theorem Holding.retained (h : e.Holding held e' held') (hidle : e.world.scheduler.Idle)
    (hretained : e.Retained known held) : ∃ known', e'.Retained known' held' := by
  obtain ⟨hw, hheld⟩ := hretained
  have passed {nodes : List Node} (hsubset : nodes ⊆ held.flatMap Value.nodes) :
      ∀ n ∈ nodes, known n := fun n hn => hheld n (hsubset hn)
  cases h with
  | drop hfewer =>
    refine ⟨known, hw, fun n hn => ?_⟩
    obtain ⟨v, hv, hn⟩ := List.mem_flatMap.mp hn
    exact hheld n (Value.nodes_subset_of_mem (hfewer hv) hn)
  | withHost host => exact ⟨known, hw.congr rfl rfl rfl rfl, hheld⟩
  | attach id =>
    have hattached : (e.withContext { e.world.context with controller := some id }).world.Retains
        known := hw.congr rfl rfl rfl rfl
    exact ⟨known, (retains_publish hattached).congr rfl rfl rfl rfl, hheld⟩
  | detach =>
    have hcancelled := World.Retains.cancelAll (r := e.world.toRealm) (s := e.world.scheduler) hw
    exact ⟨known, hcancelled.congr rfl rfl rfl rfl, hheld⟩
  | setBoard id => exact ⟨known, retains_publish (e := { e with board := some id }) hw, hheld⟩
  | setGlobal name hv => exact ⟨known, hw.acts (World.Act.global name (passed hv)).acts, hheld⟩
  | @giveObject name o ho =>
    have hmade := hw.addObject ho
    have hv : ∀ n ∈ (Value.object e.world.heap.objects.size).nodes, known n :=
      fun n hn => hw.newObject hn
    exact ⟨known, hmade.acts (World.Act.global name hv).acts, hheld⟩
  | collect =>
    exact ⟨_, hw.collectHolding hidle hheld, fun n hn => .inl (.root (List.mem_append_right _ hn))⟩
  | takeFailures =>
    have hwithin : e.takeFailures.2.world.Within known := hw.toWithin.congr rfl rfl (Nat.le_refl _)
    exact ⟨known, ⟨hwithin, hw.home, hw.handles, hw.threads, hw.pending, hw.collected⟩, hheld⟩
  | @spawn f v args form w hroutine h =>
    unfold World.spawn at h
    split at h
    · cases form with
      | object =>
        obtain ⟨hacts, hv⟩ := hw.startThread (passed hroutine)
        rw [Except.ok.inj h] at hacts hv
        exact ⟨known, hw.acts hacts, List.forall_mem_append.mpr ⟨hv, hheld⟩⟩
      | number => cases h
    · cases h
  | load h =>
    obtain rfl | ⟨halt, w, hrun, rfl⟩ := load_cases h
    · exact ⟨known, hw, hheld⟩
    · exact ⟨known, hw.acts (Machine.acts_runScript hw.toWithin hrun).1, hheld⟩
  | @evaluate fuel expr result e' h =>
    obtain ⟨⟨halt, w⟩, hrun, heq⟩ := Option.map_eq_some_iff.mp h
    obtain ⟨hacts, hhalt⟩ := Machine.acts_evaluate hw.toWithin hrun
    cases halt with
    | returned v =>
      obtain ⟨rfl, rfl⟩ := Prod.mk.inj heq
      exact ⟨known, hw.acts hacts, List.forall_mem_append.mpr ⟨hhalt, hheld⟩⟩
    | raised | yielded =>
      obtain ⟨rfl, rfl⟩ := Prod.mk.inj heq
      exact ⟨known, hw.acts hacts, hheld⟩
  | invoke hargs h => exact ⟨known, retains_invoke hw (passed hargs) h, hheld⟩
  | resumeDue h => exact ⟨known, retains_resumeDue hw hidle h, hheld⟩
  | tick h => exact ⟨known, retains_tick hw hidle h, hheld⟩
  | render h =>
    obtain ⟨answer, e₁, htick, hcases⟩ := render_cases h
    have hticked := retains_tick hw hidle htick
    obtain ⟨-, -, -, rfl⟩ | ⟨handle, passed, hinvoke⟩ := hcases
    · exact ⟨known, hticked, hheld⟩
    · have hmade : (e₁.world.updateHeap (·.addObject (.target handle))).Retains known :=
        hticked.addObject ObjectType.noConfusion
      refine ⟨known, retains_invoke hmade (fun n hn => ?_) hinvoke, hheld⟩
      exact hticked.newObject hn
  | keyEvent h =>
    obtain rfl | ⟨key, hinvoke⟩ := keyEvent_cases h
    · exact ⟨known, hw, hheld⟩
    · have hmade : (e.world.updateHeap (·.addObject (.key key))).Retains known :=
        hw.addObject ObjectType.noConfusion
      refine ⟨known, retains_invoke hmade (fun n hn => ?_) hinvoke, hheld⟩
      exact hw.newObject hn

theorem History.retained (h : History host config events e held) :
    ∃ known, e.Retained known held := by
  induction h with
  | start => exact ⟨_, retained_start host config⟩
  | next h hcall _ _ ih =>
    obtain ⟨known, hretained⟩ := ih
    exact hcall.retained h.idle hretained

/-! ### Collections -/

section Collecting

variable {t' : Thread Coroutine}

theorem Retained.not_reached (hretained : e.Retained known held) {t : Thread Coroutine}
    (ht : e.world.scheduler.thread? id = some t) (hcollected : t.collected = true) :
    ¬e.Reached held id := fun hreached => by
  have hknown : known (.thread id) :=
    hretained.1.reached hretained.2 (World.reachedWith_thread_iff.mpr hreached)
  exact hretained.1.collected id t ht hcollected hknown

/-- After a collection a handle that can be reached is not collected, and that of a live thread is
collected if it cannot be reached. -/
theorem Retained.collected_iff (hretained : e.Retained known held)
    (ht' : (e.collectHolding held).world.scheduler.thread? id = some t') :
    (e.Reached held id → t'.collected = false) ∧
      (id ∈ e.world.scheduler.live → ¬e.Reached held id → t'.collected = true) := by
  obtain ⟨t, ht, -, -, hcollected⟩ := World.thread?_collectHolding e.world held ht'
  rw [World.reachedWith_thread_iff] at hcollected
  refine ⟨fun hreached => ?_, fun hlive hlost => hcollected.mpr (.inr ⟨hlive, hlost⟩)⟩
  rw [← Bool.not_eq_true, hcollected, not_or]
  exact ⟨fun hgone => hretained.not_reached ht hgone hreached, fun hlost => hlost.2 hreached⟩

theorem state?_collectHolding (e : Environment) (held : List Value) (id : ThreadId) :
    (e.collectHolding held).world.scheduler.state? id = e.world.scheduler.state? id := by
  unfold Scheduler.state?
  simp only [collectHolding, World.collectHolding, Scheduler.thread?_collect]
  split
  · rw [Option.map_map]
    rfl
  · rfl

theorem idle_collectHolding (hidle : e.world.scheduler.Idle) (held : List Value) :
    (e.collectHolding held).world.scheduler.Idle :=
  (Run.single (.collect _)).idle hidle

theorem live_collectHolding (e : Environment) (held : List Value) :
    (e.collectHolding held).world.scheduler.live = e.world.scheduler.live :=
  Scheduler.live_collect ..

/-- The threads that are due after a collection are those of them that can be reached. -/
theorem Retained.due_iff (hretained : e.Retained known held) (hidle : e.world.scheduler.Idle)
    {now : Float} : (e.collectHolding held).world.scheduler.Due now id ↔
      e.Reached held id ∧ ∃ state, e.world.scheduler.state? id = some state ∧
        state.isDue now = true := by
  rw [← state?_collectHolding e held id]
  constructor
  · intro hdue
    have hlive := hdue.mem_live (idle_collectHolding hidle held).toSound
    rw [live_collectHolding] at hlive
    obtain ⟨t', ht', hcollected, hdue⟩ := hdue
    refine ⟨Classical.byContradiction fun hlost => ?_, t'.state,
      Scheduler.state?_eq_some.mpr ⟨t', ht', rfl⟩, ThreadState.isDue_iff.mpr hdue⟩
    have hgone := (hretained.collected_iff ht').2 hlive hlost
    rw [hcollected] at hgone
    cases hgone
  · rintro ⟨hreached, state, hstate, hdue⟩
    obtain ⟨t', ht', rfl⟩ := Scheduler.state?_eq_some.mp hstate
    exact ⟨t', ht', (hretained.collected_iff ht').1 hreached, ThreadState.isDue_iff.mp hdue⟩

section Ticking

variable {now : Float} {visits : List (Visit Coroutine)} {ids : List ThreadId}
  {answer : Except Violation TickSummary} {s : Scheduler Coroutine}
  (hretained : e.Retained known held) (hidle : e.world.scheduler.Idle)
  (hticked : Ticked now (e.collectHolding held).world.scheduler visits ids answer s)
include hretained hidle hticked

/-- The tick after a collection resumes no thread that could not be reached. -/
theorem Retained.not_visited (hlost : ¬e.Reached held id) : id ∉ visits.map Visit.id := by
  intro hvisited
  obtain ⟨v, hv, rfl⟩ := List.mem_map.mp hvisited
  have hdue := hticked.answers.due (idle_collectHolding hidle held).toSound hv
  exact hlost ((hretained.due_iff hidle).mp hdue).1

/-- The handle of a live thread is collected after the tick just if it could not be reached. -/
theorem Retained.isCollected_iff (hpaid : ∀ v ∈ visits, v.PaidBy (World.resumeThread fuel))
    (hlive : id ∈ e.world.scheduler.live) : s.isCollected id = false ↔ e.Reached held id := by
  have hidle' := idle_collectHolding hidle held
  obtain ⟨t', ht', -⟩ := hidle'.known id (by rwa [live_collectHolding])
  obtain ⟨hkept, hdropped⟩ := hretained.collected_iff ht'
  constructor
  · intro hheld
    refine Classical.byContradiction fun hlost => ?_
    have hunvisited := hretained.not_visited hidle hticked hlost
    obtain ⟨t₁, ht₁, hrests, -⟩ := hticked.unvisited id t' ht' hunvisited
    rw [Scheduler.isCollected_of_thread? ht₁, hrests.collected (hdropped hlive hlost)] at hheld
    cases hheld
  · intro hreached
    refine hticked.held id ?_ fun v hv hbefore => ?_
    · rw [Scheduler.isCollected_of_thread? ht', hkept hreached]
    · -- no handle is collected while threads run
      obtain ⟨w₁, w₂, hpaid⟩ := hpaid v hv
      exact World.resumeThread_keepsHandles fuel _ _ _ _ _ _ _ hpaid id hbefore

/-- The tick keeps the live threads that could be reached and do not stop in it. -/
theorem Retained.live_iff (hpaid : ∀ v ∈ visits, v.PaidBy (World.resumeThread fuel))
    (hlive : id ∈ e.world.scheduler.live) : id ∈ s.live ↔
      e.Reached held id ∧ ∃ state, s.state? id = some state ∧ state.isTerminal = false := by
  have hlive' : id ∈ (e.collectHolding held).world.scheduler.live := by rwa [live_collectHolding]
  have hthread : ∃ t, s.thread? id = some t := by
    obtain ⟨t', ht', -⟩ := (idle_collectHolding hidle held).known id hlive'
    exact Scheduler.exists_thread? (Scheduler.pos_of_thread? ht')
      (Nat.le_trans (Scheduler.le_size_of_thread? ht') hticked.numbered.le)
  obtain ⟨t, ht⟩ := hthread
  rw [hticked.mem_live_iff, Scheduler.isDone_of_thread? ht, Bool.or_eq_false_iff,
    ← Scheduler.isCollected_of_thread? ht, hretained.isCollected_iff hidle hticked hpaid hlive]
  constructor
  · rintro ⟨-, hreached, hpending⟩
    exact ⟨hreached, t.state, Scheduler.state?_eq_some.mpr ⟨t, ht, rfl⟩, hpending⟩
  · rintro ⟨hreached, state, hstate, hpending⟩
    obtain ⟨t₁, ht₁, rfl⟩ := Scheduler.state?_eq_some.mp hstate
    obtain rfl : t₁ = t := Option.some.inj (ht₁.symm.trans ht)
    exact ⟨.inl hlive', hreached, hpending⟩

end Ticking

end Collecting

/-! ### Groups of threads -/

theorem linksApart_subset (e : Environment) (group : List ThreadId) (n : Node) :
    e.linksApart group n ⊆ e.world.links n := by
  cases n with
  | thread id =>
    simp only [linksApart]
    split
    · exact List.nil_subset _
    · exact List.Subset.refl _
  | cell | table | closure | object => exact List.Subset.refl _

/-- **Threads that refer only to each other cannot be reached**: if no thread of a group can be
reached apart from what the threads of the group have left to do, then none can be reached. -/
theorem not_reached_of_apart {group : List ThreadId}
    (h : ∀ id ∈ group, ¬e.ReachedApart held group id) : ∀ id ∈ group, ¬e.Reached held id := by
  intro id hid hreached
  have hlinked : e.world.ReachedWith held (.thread id) :=
    World.reachedWith_thread_iff.mpr hreached
  have hsame (n : Node) (hn : ¬∃ other ∈ group, n = .thread other) :
      e.linksApart group n = e.world.links n := by
    cases n with
    | thread other => exact if_neg fun hother => hn ⟨other, hother, rfl⟩
    | cell | table | closure | object => rfl
  have hcut (n : Node) (hn : Linked (e.linksApart group)
      (e.world.roots ++ held.flatMap Value.nodes) n) : ¬∃ other ∈ group, n = .thread other := by
    rintro ⟨other, hother, rfl⟩
    exact h other hother (World.exists_handle_of_linked (e.linksApart_subset group) hn)
  exact Linked.cut hsame hcut hlinked ⟨id, hid, rfl⟩

/-! ### Arguments -/

/-- A thread that was resumed has not got its arguments any more. -/
theorem History.routine_ne_fresh (h : History host config events e held) {v : Visit Coroutine}
    (hv : v ∈ events.flatMap Event.visits) {t : Thread Coroutine}
    (ht : e.world.scheduler.thread? v.id = some t) (f : Value) (args : List Value) :
    t.routine ≠ some (.fresh f args) := by
  intro hfresh
  have hspent : e.world.scheduler.Spent
      (fun rest => ∃ frames kept, rest = .suspended frames kept) v.id := by
    refine h.run.spent Scheduler.idle_empty (fun u hu rest hrest => ?_) hv
    obtain ⟨fuel, r, r', hresume⟩ := h.paid u hu
    unfold World.resumeThread at hresume
    split at hresume
    · cases hresume
    · obtain ⟨houtcome, -⟩ := Prod.mk.inj (Option.some.inj hresume)
      rw [← houtcome] at hrest
      obtain ⟨-, frames, kept, -, rfl⟩ := World.exists_frames_of_rest? hrest
      exact ⟨frames, kept, rfl⟩
  obtain ⟨frames, kept, hframes⟩ := hspent.routine t _ ht hfresh
  cases hframes

theorem collectHolding_nil (e : Environment) : e.collectHolding [] = e.collect :=
  congrArg (fun w => { e with world := w }) e.world.collectHolding_nil

/-- What can be reached when the host holds nothing is what its own collection finds. -/
theorem reached_nil_iff : e.Reached [] id ↔ .thread id ∈ e.world.reached := by
  rw [World.reached, World.mem_spread_roots]
  refine World.reachedWith_thread_iff.symm.trans ?_
  rw [World.ReachedWith, List.flatMap_nil, List.append_nil]

/-! ### The tick after a collection -/

/-- A script that starts two threads. The first one has a handle that only a variable of its own
function leads to. -/
def boxedScript : List Stmt :=
  let routine := Expr.function [] [.discard (.call (.name "print") [.name "box"])]
  [.discard (.call
      (.function ["box"] [.put (.name "box") (.int 1) (.call (.name "thread") [routine])])
      [.table []]),
    .assign "kept" (.call (.name "thread") [.function [] []])]

/-- A script that keeps the handle of a thread that waits. The call is given the handle of another
thread, which waits, too. -/
def argumentScript : List Stmt :=
  let started (args : List Expr) : Expr := .call (.name "thread") (.name "wait" :: args)
  [.assign "kept" (started [.int 5, started [.int 9]])]

/-- Both threads are live after a collection, since the call keeps its arguments. -/
example : ((start .empty {}).load 40 argumentScript).bind (fun (_, loaded) =>
    (loaded.tick 20 0.0).bind fun (_, waiting) =>
      ((waiting.collectHolding []).tick 20 1.0).map fun (_, e) => e.world.scheduler.live) =
    some [1, 2] := by
  decide +kernel

end KeyLight.Environment
