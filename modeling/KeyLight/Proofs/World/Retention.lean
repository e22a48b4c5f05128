import KeyLight.Proofs.Machine.Confinement
import KeyLight.Proofs.Scheduler.Tick
import KeyLight.Proofs.World.Footprint
import KeyLight.Proofs.World.Reach
import KeyLight.World.Thread

/-!
# What keeps threads alive

A world `Retains known` if nothing leads from the known things to others, not even through the
handle of a thread to what the thread has left to do, if every thread that can still be resumed is
known, and if no thread is known whose handle was collected. Scripts and ticks keep this, since
threads run with what is known (`Retains.acts`, `Retains.tick`). So what is collected never comes
back, and a collection may narrow the known things down to those that can be reached
(`Retains.collectHolding`).

The host may hold values of its own between two calls; they count as roots.
-/

namespace KeyLight

variable {known : Node → Prop}

namespace World

/-- What can be reached when the host holds some values. -/
def ReachedWith (w : World) (held : List Value) : Node → Prop :=
  Linked w.links (w.roots ++ held.flatMap Value.nodes)

/-- Notes which threads have a handle that can be reached when the host holds some values. -/
def collectHolding (w : World) (held : List Value) : World :=
  let reached := spread w.links (w.nodeCount + 2) (w.roots ++ held.flatMap Value.nodes)
  { w with scheduler := w.scheduler.collect fun id => reached.contains (.thread id) }

/-- Without such values it is the collection that the host can ask for. -/
theorem collectHolding_nil (w : World) : w.collectHolding [] = w.collect := by
  unfold collectHolding collect reached
  rw [List.flatMap_nil, List.append_nil]

/-- Nothing leads from the known things to others, and the known threads are those that may still
be resumed. -/
structure Retains (known : Node → Prop) (w : World) : Prop extends Within known w where
  home : known (.table w.home)
  handles : ∀ (id : Nat) (h : ThreadHandle), known (.object id) →
    w.heap.objects[id]? = some (.thread h) → known (.thread h.id)
  threads : ∀ id t routine, known (.thread id) → w.scheduler.thread? id = some t →
    t.routine = some routine → ∀ n ∈ routine.nodes, known n
  pending : ∀ id t, w.scheduler.thread? id = some t → t.collected = false →
    t.state.isTerminal = false → known (.thread id)
  collected : ∀ id t, w.scheduler.thread? id = some t → t.collected = true → ¬known (.thread id)

variable {w w' : World} {held : List Value} {r r' : Realm} {s s' : Scheduler Coroutine}
  {id : ThreadId} {fuel : Nat} {now : Float} {routine : Coroutine} {o : Outcome Coroutine}

/-! ### What is reached is known -/

theorem Retains.closed (hw : w.Retains known) {n : Node} (hn : known n) :
    ∀ m ∈ w.links n, known m := by
  cases n with
  | cell | table | closure => exact hw.toWithin.links _ hn
  | object id =>
    simp only [World.links]
    split
    · rename_i h ho
      exact List.forall_mem_singleton.mpr (hw.handles id h hn ho)
    · exact List.forall_mem_nil _
  | thread id =>
    simp only [World.links]
    cases ht : w.scheduler.thread? id with
    | none => exact List.forall_mem_nil _
    | some t =>
      cases hroutine : t.routine with
      | none => simp [hroutine]
      | some routine => simpa [hroutine] using hw.threads id t routine hn ht hroutine

theorem Retains.roots (hw : w.Retains known) : ∀ n ∈ w.roots, known n :=
  List.forall_mem_cons.mpr ⟨hw.home, hw.globals⟩

/-- **What can be reached is known.** -/
theorem Retains.reached (hw : w.Retains known) (hheld : ∀ n ∈ held.flatMap Value.nodes, known n)
    {n : Node} (hn : w.ReachedWith held n) : known n :=
  hn.least (List.forall_mem_append.mpr ⟨hw.roots, hheld⟩) fun _ hm => hw.closed hm

/-! ### Scripts -/

/-- **Scripts keep what is known.** -/
theorem Retains.acts (hw : w.Retains known) (h : w.Acts known w') : w'.Retains known where
  toWithin := h.within hw.toWithin
  home := by
    rw [h.spares.home]
    exact hw.home
  handles := fun id handle hid ho => by
    obtain hold | hmade := h.spares.made id _ ho
    · exact hw.handles id handle hid hold
    · exact hmade
  threads := fun id t routine hid ht hroutine => by
    obtain hold | ⟨f, args, rfl, hknown⟩ := h.spares.started id t ht
    · exact hw.threads id t routine hid hold hroutine
    · obtain rfl := Option.some.inj hroutine
      exact hknown
  pending := fun id t ht hcollected hpending => by
    cases ht₀ : w.scheduler.thread? id with
    | none =>
      -- a thread that was not there before is one that the script may know
      refine hw.fresh (.thread id) fun hle => ?_
      obtain ⟨t₀, hsome⟩ := Scheduler.exists_thread? (Scheduler.pos_of_thread? ht) hle
      rw [ht₀] at hsome
      cases hsome
    | some t₀ =>
      obtain rfl : t₀ = t := Option.some.inj ((h.spares.threads id t₀ ht₀).symm.trans ht)
      exact hw.pending id t₀ ht₀ hcollected hpending
  collected := fun id t ht hcollected => by
    obtain hold | ⟨f, args, rfl, -⟩ := h.spares.started id t ht
    · exact hw.collected id t hold hcollected
    · cases hcollected

/-- An object that the host makes and that is not the handle of a thread. -/
theorem Retains.addObject (hw : w.Retains known) {o : Object} (ho : o.type ≠ .thread) :
    (w.updateHeap (·.addObject o)).Retains known where
  toWithin := hw.toWithin.addObject o
  home := hw.home
  handles := fun id h hid hobject => by
    simp only [updateHeap, Heap.addObject, Array.getElem?_push] at hobject
    split at hobject
    · obtain rfl := Option.some.inj hobject
      exact absurd rfl ho
    · exact hw.handles id h hid hobject
  threads := hw.threads
  pending := hw.pending
  collected := hw.collected

/-! ### The scheduler -/

/-- Another scheduler whose threads are no more alive than before, or known, and have nothing else
left to do but what is known. -/
theorem Retains.withScheduler (hw : Retains known ⟨r, s⟩)
    (hsize : s'.threads.size = s.threads.size)
    (h : ∀ id t', s'.thread? id = some t' → ∃ t, s.thread? id = some t ∧
      t'.collected = t.collected ∧
      (t'.state.isTerminal = false → t.state.isTerminal = false ∨ known (.thread id)) ∧
      ∀ routine, t'.routine = some routine →
        t.routine = some routine ∨ ∀ n ∈ routine.nodes, known n) : Retains known ⟨r, s'⟩ where
  toWithin := hw.toWithin.congr rfl rfl (Nat.le_of_eq hsize.symm)
  home := hw.home
  handles := hw.handles
  threads := fun id t' routine hid ht' hroutine => by
    obtain ⟨t, ht, -, -, hroutines⟩ := h id t' ht'
    obtain hold | hknown := hroutines routine hroutine
    · exact hw.threads id t routine hid ht hold
    · exact hknown
  pending := fun id t' ht' hcollected' hpending' => by
    obtain ⟨t, ht, hcollected, hpending, -⟩ := h id t' ht'
    obtain hpending | hid := hpending hpending'
    · exact hw.pending id t ht (hcollected.symm.trans hcollected') hpending
    · exact hid
  collected := fun id t' ht' hcollected' => by
    obtain ⟨t, ht, hcollected, -⟩ := h id t' ht'
    exact hw.collected id t ht (hcollected.symm.trans hcollected')

theorem Retains.setState (hw : Retains known ⟨r, s⟩) (hid : known (.thread id))
    (state : ThreadState) : Retains known ⟨r, s.setState id state⟩ := by
  refine hw.withScheduler (Scheduler.size_setState s id state) fun other t' ht' => ?_
  rw [Scheduler.thread?_setState] at ht'
  split at ht'
  · rename_i heq
    obtain ⟨t, ht, rfl⟩ := Option.map_eq_some_iff.mp ht'
    exact ⟨t, heq ▸ ht, rfl, fun _ => .inr (heq ▸ hid), fun _ => .inl⟩
  · exact ⟨t', ht', rfl, .inl, fun _ => .inl⟩

theorem Retains.settle (hw : Retains known ⟨r, s⟩) (hid : known (.thread id)) (now : Float)
    (hrest : ∀ rest, o.rest? = some rest → ∀ n ∈ rest.nodes, known n) :
    Retains known ⟨r, s.settle now id o⟩ := by
  refine hw.withScheduler (Scheduler.size_settle s now id o) fun other t' ht' => ?_
  rw [Scheduler.thread?_settle] at ht'
  split at ht'
  · rename_i heq
    obtain ⟨t, ht, rfl⟩ := Option.map_eq_some_iff.mp ht'
    refine ⟨t, heq ▸ ht, rfl, fun _ => .inr (heq ▸ hid), fun routine hroutine => ?_⟩
    obtain hnew | ⟨-, hold⟩ := Option.or_eq_some_iff.mp hroutine
    · exact .inr (hrest routine hnew)
    · exact .inl hold
  · exact ⟨t', ht', rfl, .inl, fun _ => .inl⟩

theorem Retains.cancel (hw : Retains known ⟨r, s⟩) (ids : List ThreadId) :
    Retains known ⟨r, s.updateAll ids Thread.cancel⟩ := by
  refine hw.withScheduler (Scheduler.size_updateAll ..) fun id t' ht' => ?_
  obtain ⟨t, ht, rfl | rfl⟩ := Scheduler.thread?_of_cancel ht'
  · exact ⟨t', ht, rfl, .inl, fun _ => .inl⟩
  · exact ⟨t, ht, rfl, fun hpending => Bool.noConfusion hpending, fun _ => .inl⟩

theorem Retains.reap (hw : Retains known ⟨r, s⟩) : Retains known ⟨r, s.reap⟩ := by
  refine hw.withScheduler (Scheduler.size_reap s) fun id t' ht' => ?_
  rw [Scheduler.thread?_reap] at ht'
  split at ht'
  · obtain ⟨t, ht, rfl⟩ := Option.map_eq_some_iff.mp ht'
    exact ⟨t, ht, rfl, .inl, fun _ hroutine => nomatch hroutine⟩
  · exact ⟨t', ht', rfl, .inl, fun _ => .inl⟩

theorem Retains.cancelAll (hw : Retains known ⟨r, s⟩) : Retains known ⟨r, s.cancelAll.2⟩ :=
  (hw.cancel s.live).reap

/-- What is neither in the heap nor in the threads and global variables does not matter. -/
theorem Retains.congr (hw : w.Retains known) (hheap : w'.heap = w.heap)
    (hglobals : w'.globals = w.globals) (hhome : w'.home = w.home)
    (hscheduler : w'.scheduler = w.scheduler) : w'.Retains known where
  toWithin := hw.toWithin.congr hheap hglobals (Nat.le_of_eq (by rw [hscheduler]))
  home := hhome ▸ hw.home
  handles := hheap ▸ hw.handles
  threads := hscheduler ▸ hw.threads
  pending := hscheduler ▸ hw.pending
  collected := hscheduler ▸ hw.collected

/-! ### Ticks -/

/-- A thread that comes back and is to be resumed has given up control, and what it has left to do
is what it gave up control with. -/
theorem exists_frames_of_rest? {heap : Heap} {halt : Halt} {rest : Coroutine}
    (h : (outcome heap halt).rest? = some rest) :
    ∃ vs frames kept, halt = .yielded vs frames kept ∧ rest = .suspended frames kept := by
  cases halt with
  | returned | raised => cases h
  | yielded vs frames kept =>
    unfold outcome at h
    simp only at h
    split at h
    · exact ⟨vs, frames, kept, rfl, (Option.some.inj h).symm⟩
    · cases h

/-- The turn of a thread. -/
theorem Retains.resumeThread (hw : Retains known ⟨r, s⟩) (hroutine : ∀ n ∈ routine.nodes, known n)
    (h : World.resumeThread fuel id routine r s = some (o, r', s')) :
    Retains known ⟨r', s'⟩ ∧ ∀ rest, o.rest? = some rest → ∀ n ∈ rest.nodes, known n := by
  unfold World.resumeThread at h
  cases hrun : Machine.runCoroutine fuel ⟨r, s⟩ routine with
  | none => simp [hrun] at h
  | some stop =>
    obtain ⟨halt, w⟩ := stop
    simp only [hrun, Option.some.injEq, Prod.mk.injEq] at h
    obtain ⟨rfl, rfl, rfl⟩ := h
    obtain ⟨hacts, hhalt⟩ := Machine.acts_runCoroutine hw.toWithin hroutine hrun
    have hafter := hw.acts hacts
    constructor
    · cases outcome w.heap halt <;> exact hafter.congr rfl rfl rfl rfl
    · intro rest hrest
      obtain ⟨vs, frames, kept, rfl, rfl⟩ := exists_frames_of_rest? hrest
      exact hhalt

/-- The turns of the threads of an agenda, which are known. -/
theorem Retains.resumeAll {agenda : List (ThreadId × Coroutine)} {n : TickSummary}
    {answer : Except Violation TickSummary} (hw : Retains known ⟨r, s⟩)
    (hagenda : ∀ task ∈ agenda, known (.thread task.1) ∧ ∀ n ∈ task.2.nodes, known n)
    (h : Scheduler.resumeAll (World.resumeThread fuel) now agenda n r s = some (answer, r', s')) :
    Retains known ⟨r', s'⟩ := by
  induction agenda generalizing n r s with
  | nil =>
    obtain ⟨-, rfl, rfl⟩ : _ ∧ r = r' ∧ s = s' := by simpa [Scheduler.resumeAll] using h
    exact hw
  | cons task agenda ih =>
    obtain ⟨id, routine⟩ := task
    obtain ⟨⟨hid, hroutine⟩, hlater⟩ := List.forall_mem_cons.mp hagenda
    simp only [Scheduler.resumeAll] at h
    cases hresume : World.resumeThread fuel id routine r (s.setState id .running) with
    | none => simp [hresume] at h
    | some result =>
      obtain ⟨o, r₁, s₁⟩ := result
      obtain ⟨hafter, hrest⟩ := (hw.setState hid .running).resumeThread hroutine hresume
      have hsettled := hafter.settle hid now hrest
      simp only [hresume] at h
      cases o with
      | stray found =>
        obtain ⟨-, rfl, rfl⟩ : _ ∧ r₁ = r' ∧ s₁.settle now id (.stray found) = s' := by
          simpa using h
        exact hsettled
      | finished | failed | suspended => exact ih hsettled hlater h

/-- The threads of an agenda can still be resumed, so they are known. -/
theorem Retains.agenda (hw : w.Retains known) (hidle : w.scheduler.Idle) (now : Float) :
    ∀ task ∈ w.scheduler.agenda now, known (.thread task.1) ∧ ∀ n ∈ task.2.nodes, known n := by
  intro task htask
  obtain ⟨t, ht, hroutine⟩ := Scheduler.routine_of_mem_agenda htask
  have hmem : task.1 ∈ w.scheduler.dueIds now := by
    rw [← Scheduler.map_fst_agenda hidle.toSound]
    exact List.mem_map_of_mem htask
  have hdue := (Scheduler.mem_dueIds hidle.toSound).mp hmem
  have ⟨t', ht', hcollected, _⟩ := hdue
  obtain rfl : t' = t := Option.some.inj (ht'.symm.trans ht)
  have hid := hw.pending task.1 t' ht hcollected (hdue.isTerminal_eq_false ht)
  exact ⟨hid, hw.threads task.1 t' task.2 hid ht hroutine⟩

/-- **Ticks keep what is known.** -/
theorem Retains.tick {answer : Except Violation TickSummary} (hw : w.Retains known)
    (hidle : w.scheduler.Idle) (h : w.tick fuel now = some (answer, w')) : w'.Retains known := by
  obtain ⟨⟨answer, r', s'⟩, htick, heq⟩ := Option.map_eq_some_iff.mp h
  obtain ⟨-, rfl⟩ := Prod.mk.inj heq
  obtain ⟨-, -, -, rfl, rfl⟩ | ⟨-, t, hall, rfl⟩ := Scheduler.resumeAll_of_tick htick
  · exact hw
  · have hcancelled : Retains known ⟨w.toRealm, w.scheduler.cancelCollected now⟩ := by
      rw [Scheduler.cancelCollected_eq]
      exact hw.cancel _
    exact (hcancelled.resumeAll (hw.agenda hidle now) hall).reap

/-! ### Collections -/

/-- Values and variables in scope are no threads. -/
theorem thread_not_mem_nodes (v : Value) : .thread id ∉ v.nodes := by
  cases v <;> simp [Value.nodes]

theorem thread_not_mem_values (vs : List Value) : .thread id ∉ vs.flatMap Value.nodes := fun h => by
  obtain ⟨v, -, h⟩ := List.mem_flatMap.mp h
  exact thread_not_mem_nodes v h

theorem thread_not_mem_scope (scope : Scope) : .thread id ∉ Scope.nodes scope := by
  simp [Scope.nodes]

theorem thread_not_mem_frame (frame : Frame) : .thread id ∉ frame.nodes := by
  cases frame with
  | operands op done rest scope =>
    exact List.not_mem_append (thread_not_mem_values done) (thread_not_mem_scope scope)
  | call callee scope depth =>
    exact List.not_mem_append (thread_not_mem_nodes callee) (thread_not_mem_scope scope)
  | block | loop | count => exact thread_not_mem_scope _
  | guard => exact List.not_mem_nil

theorem thread_not_mem_routine (routine : Coroutine) : .thread id ∉ routine.nodes := by
  cases routine with
  | fresh f args =>
    rw [Coroutine.nodes_fresh]
    exact List.not_mem_append (thread_not_mem_nodes f) (thread_not_mem_values args)
  | suspended frames kept =>
    refine List.not_mem_append (fun h => ?_) (thread_not_mem_values kept)
    obtain ⟨frame, -, h⟩ := List.mem_flatMap.mp h
    exact thread_not_mem_frame frame h

/-- What links to a thread is a handle of it. -/
theorem exists_of_thread_mem_links {n : Node} (h : .thread id ∈ w.links n) :
    ∃ object : Nat, n = .object object ∧ w.heap.objects[object]? = some (.thread ⟨id⟩) := by
  cases n with
  | cell other => exact absurd h (thread_not_mem_nodes _)
  | table other =>
    refine absurd h (List.not_mem_append (thread_not_mem_values _) fun h => ?_)
    obtain ⟨entry, -, h⟩ := List.mem_flatMap.mp h
    exact List.not_mem_append (thread_not_mem_nodes _) (thread_not_mem_nodes _) h
  | closure other =>
    cases hc : w.heap.closures[other]? with
    | none => simp [World.links, hc] at h
    | some c => exact absurd (by simpa [World.links, hc] using h) (thread_not_mem_scope c.scope)
  | object object =>
    simp only [World.links] at h
    split at h
    · rename_i handle ho
      obtain rfl := Node.thread.inj (List.mem_singleton.mp h)
      exact ⟨object, rfl, ho⟩
    · cases h
  | thread other =>
    cases hroutine : (w.scheduler.thread? other).bind (·.routine) with
    | none => simp [World.links, hroutine] at h
    | some routine =>
      exact absurd (by simpa [World.links, hroutine] using h) (thread_not_mem_routine routine)

/-- A thread is found through a handle of it, also if some links are left out. -/
theorem exists_handle_of_linked {links : Node → List Node} (hlinks : ∀ n, links n ⊆ w.links n)
    (h : Linked links (w.roots ++ held.flatMap Value.nodes) (.thread id)) :
    ∃ object : Nat, Linked links (w.roots ++ held.flatMap Value.nodes) (.object object) ∧
      w.heap.objects[object]? = some (.thread ⟨id⟩) := by
  cases h with
  | root h =>
    obtain h | h := List.mem_append.mp h
    · obtain h | h := List.mem_cons.mp h
      · cases h
      · obtain ⟨entry, -, h⟩ := List.mem_flatMap.mp h
        exact absurd h (thread_not_mem_nodes _)
    · exact absurd h (thread_not_mem_values held)
  | step hn hm =>
    obtain ⟨object, rfl, ho⟩ := exists_of_thread_mem_links (hlinks _ hm)
    exact ⟨object, hn, ho⟩

/-- A thread can be reached just if a handle of it can. -/
theorem reachedWith_thread_iff : w.ReachedWith held (.thread id) ↔
    ∃ object : Nat, w.ReachedWith held (.object object) ∧
      w.heap.objects[object]? = some (.thread ⟨id⟩) := by
  refine ⟨exists_handle_of_linked fun _ => List.Subset.refl _, ?_⟩
  rintro ⟨object, hobject, ho⟩
  refine hobject.step ?_
  simp only [World.links, ho]
  exact List.mem_singleton_self _

/-- The things that are known after a collection: those that can be reached and those that are not
there yet. -/
def Left (w : World) (held : List Value) (n : Node) : Prop := w.ReachedWith held n ∨ ¬w.Has n

theorem thread?_collectHolding (w : World) (held : List Value) {t' : Thread Coroutine}
    (h : (w.collectHolding held).scheduler.thread? id = some t') :
    ∃ t, w.scheduler.thread? id = some t ∧ t'.state = t.state ∧ t'.routine = t.routine ∧
      (t'.collected = true ↔ t.collected = true ∨
        id ∈ w.scheduler.live ∧ ¬w.ReachedWith held (.thread id)) := by
  have hreached : (spread w.links (w.nodeCount + 2)
      (w.roots ++ held.flatMap Value.nodes)).contains (.thread id) = false ↔
        ¬w.ReachedWith held (.thread id) := by
    rw [← Bool.not_eq_true, List.contains_iff_mem, mem_spread_roots, ReachedWith]
  simp only [collectHolding, Scheduler.thread?_collect] at h
  split at h
  · rename_i hlost
    rw [hreached] at hlost
    obtain ⟨t, ht, rfl⟩ := Option.map_eq_some_iff.mp h
    exact ⟨t, ht, rfl, rfl, iff_of_true rfl (.inr hlost)⟩
  · rename_i hkept
    rw [hreached] at hkept
    exact ⟨t', h, rfl, rfl, (or_iff_left hkept).symm⟩

/-- What is not there links to nothing. -/
theorem links_of_not_has {n : Node} (h : ¬w.Has n) : w.links n = [] := by
  cases n with
  | cell | table | closure => exact openLinks_of_not_has h
  | object id => simp [World.links, Array.getElem?_eq_none (Nat.not_lt.mp h)]
  | thread id =>
    cases ht : w.scheduler.thread? id with
    | none => simp [World.links, ht]
    | some t => exact absurd (Scheduler.le_size_of_thread? ht) h

theorem Left.links {n : Node} (hn : w.Left held n) : ∀ m ∈ w.links n, w.Left held m := by
  obtain hn | hn := hn
  · exact fun m hm => .inl (hn.step hm)
  · rw [links_of_not_has hn]
    exact List.forall_mem_nil _

/-- **After a collection, what can be reached is all that is known** of what is there. -/
theorem Retains.collectHolding (hw : w.Retains known) (hidle : w.scheduler.Idle)
    (hheld : ∀ n ∈ held.flatMap Value.nodes, known n) :
    (w.collectHolding held).Retains (w.Left held) := by
  have hwithin : w.Within (w.Left held) := {
    links := fun n hn m hm => by
      cases n with
      | cell | table | closure => exact hn.links m hm
      | object | thread => cases hm
    globals := fun n hn => .inl (.root (List.mem_append_left _ (List.mem_cons_of_mem _ hn)))
    fresh := fun n hn => .inr hn }
  refine ⟨hwithin.congr rfl rfl (Nat.le_of_eq (Scheduler.size_collect ..).symm), ?_, ?_, ?_, ?_, ?_⟩
  · exact .inl (.root (List.mem_append_left _ List.mem_cons_self))
  · intro id handle hid ho
    refine hid.links (.thread handle.id) ?_
    simp only [World.links, show w.heap.objects[id]? = some (.thread handle) from ho]
    exact List.mem_singleton_self _
  · intro id t' routine hid ht' hroutine' n hn
    obtain ⟨t, ht, -, hroutine, -⟩ := thread?_collectHolding w held ht'
    refine hid.links n ?_
    simpa [World.links, ht, ← hroutine, hroutine'] using hn
  · intro id t' ht' hcollected' hpending'
    obtain ⟨t, ht, hstate, -, hcollected⟩ := thread?_collectHolding w held ht'
    rw [← Bool.not_eq_true, hcollected, not_or, not_and, Classical.not_not] at hcollected'
    refine .inl (hcollected'.2 ?_)
    -- a thread that is not live has stopped or was collected before
    refine Decidable.byContradiction fun hlive => ?_
    obtain hterminal | hgone := hidle.gone id t ht hlive
    · rw [hstate, hterminal] at hpending'
      cases hpending'
    · exact hcollected'.1 hgone
  · intro id t' ht' hcollected' hleft
    obtain ⟨t, ht, -, -, hcollected⟩ := thread?_collectHolding w held ht'
    obtain hgone | ⟨-, hlost⟩ := hcollected.mp hcollected'
    · refine hw.collected id t ht hgone ?_
      exact hleft.elim (hw.reached hheld) (hw.fresh _)
    · exact hleft.elim hlost fun hfresh => hfresh (Scheduler.le_size_of_thread? ht)

end World

end KeyLight
