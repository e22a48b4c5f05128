import KeyLight.Proofs.Native.Effect
import KeyLight.Proofs.Scheduler.Update
import KeyLight.Proofs.World.Nodes

/-!
# Values that are no suspensions

A thread that waits makes the object of a suspension, and the scheduler reads it off what the
thread gives up control with. A world is `Plain` if none of its variables, tables and threads refers
to such an object; so no script can get hold of one. `Heap.Plain` says this of what values, tables
and frames refer to.

Reading, writing and calling the functions of the host keep a world plain, given plain values, and
only the capability to wait makes a suspension (`Plain.entryPoint`). Objects are never changed or
removed (`Heap.Keeps`), so what is plain stays plain while a script runs.
-/

namespace KeyLight

namespace Heap

/-- None of the nodes is a suspension, and the objects among them are there. -/
def Plain (h : Heap) (nodes : List Node) : Prop :=
  ∀ id, .object id ∈ nodes → ∃ o, h.objects[id]? = some o ∧ o.type ≠ .suspension

/-- The objects of one heap are the same in another. -/
def Keeps (h h' : Heap) : Prop :=
  ∀ (id : Nat) (o : Object), h.objects[id]? = some o → h'.objects[id]? = some o

variable {h h' h'' : Heap} {nodes : List Node}

theorem Keeps.refl (h : Heap) : h.Keeps h := fun _ _ ho => ho

theorem Keeps.trans (h₁ : h.Keeps h') (h₂ : h'.Keeps h'') : h.Keeps h'' :=
  fun id o ho => h₂ id o (h₁ id o ho)

theorem keeps_addVariables (h : Heap) (vs : List Value) : h.Keeps (h.addVariables vs) := by
  induction vs generalizing h with
  | nil => exact .refl h
  | cons v vs ih => exact ih (h.addVariable v)

theorem keeps_addObject (h : Heap) (o : Object) : h.Keeps (h.addObject o) := fun id _ ho => by
  have hlt : id < h.objects.size := (Array.getElem?_eq_some_iff.mp ho).1
  simp only [addObject, Array.getElem?_push, if_neg (Nat.ne_of_lt hlt)]
  exact ho

/-- A value that refers to an object goes on referring to it. -/
theorem Keeps.object? {v : Value} {o : Object} (hkeeps : h.Keeps h')
    (ho : h.object? v = some o) : h'.object? v = some o := by
  cases v with
  | object id => exact hkeeps id o ho
  | nil | bool | int | float | text | table | closure | builtin => cases ho

/-! ### What is plain -/

theorem Plain.keeps (hplain : h.Plain nodes) (hkeeps : h.Keeps h') : h'.Plain nodes :=
  fun id hid => by
    obtain ⟨o, ho, htype⟩ := hplain id hid
    exact ⟨o, hkeeps id o ho, htype⟩

theorem Plain.mono {nodes' : List Node} (hplain : h.Plain nodes)
    (hsubset : ∀ n ∈ nodes', n ∈ nodes) : h.Plain nodes' :=
  fun id hid => hplain id (hsubset _ hid)

@[simp] theorem plain_nil (h : Heap) : h.Plain [] := fun _ hid => absurd hid List.not_mem_nil

@[simp] theorem plain_append {nodes' : List Node} :
    h.Plain (nodes ++ nodes') ↔ h.Plain nodes ∧ h.Plain nodes' :=
  ⟨fun hplain => ⟨fun id hid => hplain id (List.mem_append_left _ hid),
    fun id hid => hplain id (List.mem_append_right _ hid)⟩,
    fun ⟨hleft, hright⟩ id hid => (List.mem_append.mp hid).elim (hleft id) (hright id)⟩

theorem plain_flatMap {α : Type} {l : List α} {f : α → List Node} :
    h.Plain (l.flatMap f) ↔ ∀ a ∈ l, h.Plain (f a) := by
  constructor
  · intro hplain a ha
    exact hplain.mono fun n hn => List.mem_flatMap.mpr ⟨a, ha, hn⟩
  · intro hplain id hid
    obtain ⟨a, ha, hid⟩ := List.mem_flatMap.mp hid
    exact hplain a ha id hid

/-- Tables and closures are no objects. -/
@[simp] theorem plain_tableValue (h : Heap) (id : Nat) : h.Plain (Value.table id).nodes := by
  simp [Plain, Value.nodes]

@[simp] theorem plain_closureValue (h : Heap) (id : Nat) : h.Plain (Value.closure id).nodes := by
  simp [Plain, Value.nodes]

/-- A scope refers to variables only. -/
@[simp] theorem plain_scope (h : Heap) (scope : Scope) : h.Plain (Scope.nodes scope) :=
  fun id hid => by
    obtain ⟨entry, -, heq⟩ := List.mem_map.mp hid
    cases heq

/-- The object of a value that is plain, which is no suspension. -/
theorem Plain.type_ne {v : Value} {o : Object} (hplain : h.Plain v.nodes)
    (ho : h.object? v = some o) : o.type ≠ .suspension := by
  cases v with
  | object id =>
    obtain ⟨o', ho', htype⟩ := hplain id (List.mem_singleton_self _)
    obtain rfl : o' = o := Option.some.inj (ho'.symm.trans ho)
    exact htype
  | nil | bool _ | int _ | float _ | text _ | table _ | closure _ | builtin _ => cases ho

/-- A new object is plain unless it is a suspension. -/
theorem plain_newObject (h : Heap) {o : Object} (htype : o.type ≠ .suspension) :
    (h.addObject o).Plain (Value.object h.objects.size).nodes := fun id hid => by
  obtain rfl : id = h.objects.size := Node.object.inj (List.mem_singleton.mp hid)
  exact ⟨o, by simp [addObject], htype⟩

theorem plain_getD {vs : List Value} (hplain : h.Plain (vs.flatMap Value.nodes)) (i : Nat) :
    h.Plain (vs.getD i .nil).nodes :=
  hplain.mono fun _ hn => Value.nodes_getD_subset vs i hn

/-! ### Tables -/

theorem Plain.get {t : Table} (hplain : h.Plain t.nodes) (key : Value) :
    h.Plain (t.get key).nodes :=
  hplain.mono fun _ hn => t.nodes_get_subset key hn

theorem Plain.put {t t' : Table} {key v : Value} (hplain : h.Plain t.nodes)
    (hkey : h.Plain key.nodes) (hv : h.Plain v.nodes) (hput : t.put? key v = some t') :
    h.Plain t'.nodes := by
  have hall : h.Plain ((key.nodes ++ v.nodes) ++ t.nodes) :=
    plain_append.mpr ⟨plain_append.mpr ⟨hkey, hv⟩, hplain⟩
  exact hall.mono fun _ hn => Table.nodes_put_subset hput hn

theorem plain_ofItems {vs : List Value} (hplain : h.Plain (vs.flatMap Value.nodes)) :
    h.Plain (Table.ofItems vs).nodes := by
  rwa [Table.nodes_ofItems]

/-- What is read is no suspension. -/
def PlainDatum (h : Heap) : Datum → Prop
  | .value v => h.Plain v.nodes
  | .object o => o.type ≠ .suspension

theorem plain_ofOption (h : Heap) {o : Option Object}
    (htype : ∀ x, o = some x → x.type ≠ .suspension) : h.PlainDatum (.ofOption o) := by
  cases o with
  | none => exact plain_nil h
  | some x => exact htype x rfl

end Heap

namespace World

/-- A new object is found. -/
theorem object?_newObject (w : World) (o : Object) :
    (w.newObject o).2.heap.object? (w.newObject o).1 = some o :=
  Heap.object?_addObject w.heap o

/-- An object stays where it is when another one is made. -/
theorem object?_newObject_of_some {w : World} {v : Value} {o : Object}
    (ho : w.heap.object? v = some o) (o' : Object) :
    (w.newObject o').2.heap.object? v = some o :=
  (Heap.keeps_addObject w.heap o').object? ho

end World

namespace World

/-- No variable, table, global variable or thread refers to a suspension. -/
structure Plain (w : World) : Prop where
  locals : ∀ id, w.heap.Plain (w.heap.readVariable id).nodes
  tables : ∀ id, w.heap.Plain (w.heap.readTable id).nodes
  globals : ∀ entry ∈ w.globals, w.heap.Plain entry.2.nodes
  threads : ∀ id t routine, w.scheduler.thread? id = some t → t.routine = some routine →
    w.heap.Plain routine.nodes

variable {w w' : World} {v : Value} {args : List Value}

/-! ### Changes of the world -/

namespace Plain

theorem global (hw : w.Plain) (x : String) : w.heap.Plain (w.global x).nodes := by
  have hall : w.heap.Plain (w.globals.flatMap fun entry => entry.2.nodes) :=
    Heap.plain_flatMap.mpr hw.globals
  exact hall.mono fun _ hn => Realm.nodes_global_subset w.toRealm x hn

/-- What is neither in the heap nor in the threads and global variables does not matter. -/
theorem congr (hw : w.Plain) (hheap : w'.heap = w.heap) (hglobals : w'.globals = w.globals)
    (hscheduler : w'.scheduler = w.scheduler) : w'.Plain where
  locals := hheap ▸ hw.locals
  tables := hheap ▸ hw.tables
  globals := hheap ▸ hglobals ▸ hw.globals
  threads := hheap ▸ hscheduler ▸ hw.threads

/-- Another heap with the same objects, in which variables and tables are plain. -/
theorem withHeap {h : Heap} (hw : w.Plain) (hkeeps : w.heap.Keeps h)
    (hlocals : ∀ id, h.Plain (h.readVariable id).nodes)
    (htables : ∀ id, h.Plain (h.readTable id).nodes) : (w.updateHeap fun _ => h).Plain where
  locals := hlocals
  tables := htables
  globals := fun entry hentry => (hw.globals entry hentry).keeps hkeeps
  threads := fun id t routine ht hroutine => (hw.threads id t routine ht hroutine).keeps hkeeps

theorem setVariable (hw : w.Plain) (hv : w.heap.Plain v.nodes) (id : Nat) :
    (w.updateHeap (·.setVariable id v)).Plain := by
  refine hw.withHeap (.refl w.heap) (fun other => ?_) hw.tables
  rw [Heap.readVariable_setVariable]
  split
  · exact hv
  · exact hw.locals other

theorem addVariable (hw : w.Plain) (hv : w.heap.Plain v.nodes) :
    (w.updateHeap (·.addVariable v)).Plain := by
  refine hw.withHeap (.refl w.heap) (fun other => ?_) hw.tables
  rw [Heap.readVariable_addVariable]
  split
  · exact hv
  · exact hw.locals other

theorem addVariables {vs : List Value} (hw : w.Plain)
    (hvs : w.heap.Plain (vs.flatMap Value.nodes)) : (w.updateHeap (·.addVariables vs)).Plain := by
  induction vs generalizing w with
  | nil => exact hw
  | cons v vs ih =>
    rw [List.flatMap_cons, Heap.plain_append] at hvs
    exact ih (hw.addVariable hvs.1) hvs.2

theorem setTable {t : Table} (hw : w.Plain) (ht : w.heap.Plain t.nodes) (id : Nat) :
    (w.updateHeap (·.setTable id t)).Plain := by
  refine hw.withHeap (.refl w.heap) hw.locals fun other => ?_
  rw [Heap.readTable_setTable]
  split
  · exact ht
  · exact hw.tables other

theorem addTable {t : Table} (hw : w.Plain) (ht : w.heap.Plain t.nodes) :
    (w.updateHeap (·.addTable t)).Plain := by
  refine hw.withHeap (.refl w.heap) hw.locals fun other => ?_
  simp only [Heap.addTable, Heap.readTable, Array.getElem?_push]
  split
  · exact ht
  · exact hw.tables other

theorem addClosure (hw : w.Plain) (c : Closure) : (w.updateHeap (·.addClosure c)).Plain :=
  hw.withHeap (.refl w.heap) hw.locals hw.tables

/-- An object that nothing refers to yet may be of any type. -/
theorem addObject (hw : w.Plain) (o : Object) : (w.updateHeap (·.addObject o)).Plain :=
  hw.withHeap (Heap.keeps_addObject w.heap o)
    (fun id => (hw.locals id).keeps (Heap.keeps_addObject w.heap o))
    fun id => (hw.tables id).keeps (Heap.keeps_addObject w.heap o)

theorem setGlobal (hw : w.Plain) (hv : w.heap.Plain v.nodes) (x : String) :
    (w.withRealm (w.setGlobal x v)).Plain where
  locals := hw.locals
  tables := hw.tables
  globals := List.forall_mem_cons.mpr ⟨hv, fun entry hentry =>
    hw.globals entry (List.mem_filter.mp hentry).1⟩
  threads := hw.threads

theorem spawn {routine : Coroutine} (hw : w.Plain) (hroutine : w.heap.Plain routine.nodes) :
    ({ w with scheduler := (w.scheduler.spawn routine).2 } : World).Plain where
  locals := hw.locals
  tables := hw.tables
  globals := hw.globals
  threads := fun id t other ht hother => by
    rw [Scheduler.thread?_spawn] at ht
    split at ht
    · obtain rfl := Option.some.inj ht
      obtain rfl := Option.some.inj hother
      exact hroutine
    · exact hw.threads id t other ht hother

end Plain

theorem plain_of_writeTarget {h : TargetHandle} {change : RenderTarget → Option RenderTarget}
    {r : Realm} (hw : w.Plain) (hwrite : w.writeTarget h change = .ok (some r)) :
    w.heap.Keeps (w.withRealm r).heap ∧ (w.withRealm r).Plain := by
  obtain ⟨held, -, hwrite⟩ := Except.exists_of_bind_eq_ok hwrite
  split at hwrite
  · obtain ⟨t, -, rfl⟩ := Option.map_eq_some_iff.mp (Except.ok.inj hwrite)
    exact ⟨.refl w.heap, hw.congr rfl rfl rfl⟩
  · cases hwrite

/-! ### Reading -/

/-- What an object holds is a colour or a key. -/
theorem plain_item {o : Object} {key : Value} {d : Datum} (h : w.item o key = .ok d) :
    w.heap.PlainDatum d := by
  cases o with
  | color | fade =>
    obtain rfl := Except.ok.inj h
    exact Heap.plain_nil _
  | thread | key =>
    simp only [item] at h
    split at h <;> cases h
  | suspension => cases h
  | board b =>
    obtain ⟨k, -, h⟩ := Except.exists_of_bind_eq_ok (Except.eq_ok_of_mapError h)
    obtain rfl := Except.ok.inj h
    refine Heap.plain_ofOption _ fun x hx => ?_
    obtain ⟨_, -, rfl⟩ := Option.map_eq_some_iff.mp hx
    exact ObjectType.noConfusion
  | group g =>
    have h := Except.eq_ok_of_mapError h
    unfold groupItem at h
    split at h
    · obtain rfl := Except.ok.inj h
      exact Heap.plain_nil _
    · obtain ⟨group, -, h⟩ := Except.exists_of_bind_eq_ok h
      obtain rfl := Except.ok.inj h
      refine Heap.plain_ofOption _ fun x hx => ?_
      obtain ⟨_, -, rfl⟩ := Option.map_eq_some_iff.mp hx
      exact ObjectType.noConfusion
  | target t =>
    obtain ⟨slot, -, h⟩ := Except.exists_of_bind_eq_ok (Except.eq_ok_of_mapError h)
    cases slot with
    | none =>
      obtain rfl := Except.ok.inj h
      exact Heap.plain_nil _
    | some slot =>
      obtain ⟨target, -, h⟩ := Except.exists_of_bind_eq_ok h
      obtain rfl := Except.ok.inj h
      refine Heap.plain_ofOption _ fun x hx => ?_
      obtain ⟨_, -, rfl⟩ := Option.map_eq_some_iff.mp hx
      exact ObjectType.noConfusion

theorem plain_objectIndex {o : Object} {key : Value} {d : Datum}
    (h : w.objectIndex o key = .ok d) : w.heap.PlainDatum d := by
  unfold objectIndex at h
  split at h
  · rename_i read hread
    obtain ⟨u, hu, rfl⟩ := Except.exists_of_map_eq_ok (Except.eq_ok_of_mapError h)
    obtain ⟨name, -, hfield⟩ := Option.bind_eq_some_iff.mp hread
    have hnodes := nodes_field (hu ▸ hfield)
    change w.heap.Plain u.nodes
    rw [hnodes]
    exact Heap.plain_nil _
  split at h
  · obtain rfl := Except.ok.inj h
    exact Heap.plain_nil _
  · exact plain_item h

/-- **Reading gives no suspension.** -/
theorem Plain.index (hw : w.Plain) {container key : Value} {d : Datum}
    (h : w.index container key = .ok d) : w.heap.PlainDatum d := by
  cases container with
  | table id =>
    obtain rfl := Except.ok.inj h
    exact (hw.tables id).get key
  | text _ =>
    obtain rfl := Except.ok.inj h
    exact Heap.plain_nil _
  | object id =>
    simp only [World.index] at h
    split at h
    · exact plain_objectIndex h
    · cases h
  | nil | bool _ | int _ | float _ | closure _ | builtin _ => cases h

theorem plain_ofInterpolated (h : Heap) (x : Interpolated) : h.PlainDatum (ofInterpolated x) := by
  cases x with
  | color c => exact ObjectType.noConfusion
  | number x => exact Heap.plain_nil h

/-- **Methods give no suspension.** -/
theorem plain_readMethod {m : Method} {d : Datum} (h : w.readMethod m args = .ok d) :
    w.heap.PlainDatum d := by
  cases m with
  | blend =>
    obtain ⟨c, -, h⟩ := Except.exists_of_bind_eq_ok h
    obtain ⟨overlay, -, h⟩ := Except.exists_of_bind_eq_ok h
    obtain rfl := Except.ok.inj h
    exact ObjectType.noConfusion
  | value =>
    obtain ⟨f, -, h⟩ := Except.exists_of_bind_eq_ok h
    obtain rfl := Except.ok.inj h
    exact plain_ofInterpolated _ _
  | «at» =>
    obtain ⟨f, -, h⟩ := Except.exists_of_bind_eq_ok h
    obtain ⟨t, -, h⟩ := Except.exists_of_bind_eq_ok h
    obtain rfl := Except.ok.inj h
    exact plain_ofInterpolated _ _
  | findKeyCode =>
    obtain ⟨b, -, h⟩ := Except.exists_of_bind_eq_ok h
    obtain ⟨code, -, h⟩ := Except.exists_of_bind_eq_ok h
    obtain ⟨k, -, h⟩ := Except.exists_of_bind_eq_ok h
    obtain rfl := Except.ok.inj h
    refine Heap.plain_ofOption _ fun x hx => ?_
    obtain ⟨_, -, rfl⟩ := Option.map_eq_some_iff.mp hx
    exact ObjectType.noConfusion
  | group =>
    obtain ⟨name, -, h⟩ := Except.exists_of_bind_eq_ok h
    obtain ⟨b, -, h⟩ := Except.exists_of_bind_eq_ok h
    obtain ⟨k, -, h⟩ := Except.exists_of_bind_eq_ok h
    obtain rfl := Except.ok.inj h
    refine Heap.plain_ofOption _ fun x hx => ?_
    obtain ⟨_, -, rfl⟩ := Option.map_eq_some_iff.mp hx
    exact ObjectType.noConfusion
  | contains =>
    obtain ⟨g, -, h⟩ := Except.exists_of_bind_eq_ok h
    obtain ⟨k, -, h⟩ := Except.exists_of_bind_eq_ok h
    obtain ⟨b, -, h⟩ := Except.exists_of_bind_eq_ok h
    obtain rfl := Except.ok.inj h
    exact Heap.plain_nil _
  | fill => cases h

end World

/-! ### Functions of the host -/

namespace Effect

/-- What is given, made and started by an effect is no suspension. -/
def Plain (h : Heap) : Effect → Prop
  | .give vs => h.Plain (vs.flatMap Value.nodes)
  | .say .. => True
  | .make o => o.type ≠ .suspension
  | .start routine args => h.Plain (Coroutine.fresh routine args).nodes

variable {w : World}

/-- An effect that is plain keeps the world plain and gives plain values. -/
theorem Plain.perform {effect : Effect} (hplain : effect.Plain w.heap) (hw : w.Plain)
    (s : Stack) :
    w.heap.Keeps (effect.perform w s).1.heap ∧ (effect.perform w s).1.Plain ∧
      (effect.perform w s).1.heap.Plain
        (((effect.perform w s).2.1.results (effect.perform w s).2.2).flatMap Value.nodes) := by
  -- the results are what was pushed
  have single (v : Value) : (s.push v).results 1 = [v] := Stack.results_foldl_push s [v]
  cases effect with
  | give vs =>
    refine ⟨.refl _, hw, ?_⟩
    change w.heap.Plain (((vs.foldl Stack.push s).results vs.length).flatMap Value.nodes)
    rw [Stack.results_foldl_push]
    exact hplain
  | say =>
    refine ⟨.refl _, hw.congr rfl rfl rfl, ?_⟩
    change w.heap.Plain ((s.results 0).flatMap Value.nodes)
    rw [show s.results 0 = [] from Stack.results_foldl_push s []]
    exact Heap.plain_nil _
  | make o =>
    refine ⟨Heap.keeps_addObject w.heap o, hw.addObject o, ?_⟩
    change (w.heap.addObject o).Plain (((s.push _).results 1).flatMap Value.nodes)
    rw [single]
    exact Heap.plain_newObject w.heap hplain
  | start routine args =>
    let thread : Object := .thread ⟨(w.scheduler.spawn (.fresh routine args)).1⟩
    refine ⟨Heap.keeps_addObject w.heap thread, (hw.spawn hplain).addObject thread, ?_⟩
    change (w.heap.addObject thread).Plain (((s.push _).results 1).flatMap Value.nodes)
    rw [single]
    exact Heap.plain_newObject w.heap ObjectType.noConfusion

end Effect

namespace Capability

variable {w : World} {args : List Value}

/-- No capability but that to wait makes a suspension. -/
theorem plain_effect {c : Capability} (hc : c ≠ .wait)
    (hargs : w.heap.Plain (args.flatMap Value.nodes)) {effect : Effect}
    (h : c.effect w (.ofArguments args) = .ok effect) : effect.Plain w.heap := by
  cases c with
  | print =>
    obtain ⟨_, -, h⟩ := Except.exists_of_bind_eq_ok h
    obtain ⟨text, -, h⟩ := Except.exists_of_bind_eq_ok h
    obtain rfl := Except.ok.inj h
    trivial
  | tocolor =>
    obtain ⟨color, -, h⟩ := Except.exists_of_bind_eq_ok h
    cases color with
    | some c =>
      obtain rfl := Except.ok.inj h
      exact ObjectType.noConfusion
    | none =>
      obtain rfl := Except.ok.inj h
      exact Heap.plain_nil _
  | fade =>
    obtain ⟨f, -, h⟩ := Except.exists_of_bind_eq_ok h
    obtain rfl := Except.ok.inj h
    exact ObjectType.noConfusion
  | thread =>
    simp only [Capability.effect] at h
    split at h
    · rename_i routine hroutine
      obtain rfl := Except.ok.inj h
      rw [Heap.plain_flatMap] at hargs
      obtain ⟨hget, -⟩ := Option.filter_eq_some_iff.mp hroutine
      rw [Effect.Plain, Coroutine.nodes_fresh]
      refine Heap.plain_append.mpr ⟨hargs routine (List.mem_of_getElem? hget), ?_⟩
      exact Heap.plain_flatMap.mpr fun v hv => hargs v (List.mem_of_mem_drop hv)
    · cases h
  | wait => exact absurd rfl hc
  | now =>
    obtain rfl := Except.ok.inj h
    exact Heap.plain_nil _

end Capability

namespace World

variable {w : World} {args : List Value}

/-- **A call of a capability keeps the world plain**, and only that to wait gives a suspension. -/
theorem Plain.entryPoint (hw : w.Plain) (hargs : w.heap.Plain (args.flatMap Value.nodes))
    (c : Capability) {result : Except Fault (List Value)} {w' : World}
    (h : KeyLight.entryPoint c.body w args = (result, w')) :
    w.heap.Keeps w'.heap ∧ w'.Plain ∧ ∀ vs, result = .ok vs →
      if c = .wait then ∃ s, vs.head?.bind w'.heap.object? = some (.suspension s)
      else w'.heap.Plain (vs.flatMap Value.nodes) := by
  rw [entryPoint_body] at h
  cases heffect : c.effect w (.ofArguments args) with
  | error f =>
    simp only [heffect, Prod.mk.injEq] at h
    obtain ⟨rfl, rfl⟩ := h
    exact ⟨.refl _, hw, fun _ hvs => by cases hvs⟩
  | ok effect =>
    simp only [heffect, Prod.mk.injEq] at h
    obtain ⟨rfl, rfl⟩ := h
    by_cases hc : c = .wait
    · subst hc
      obtain ⟨x, -, hrequest⟩ := Except.exists_of_bind_eq_ok heffect
      obtain rfl := Except.ok.inj hrequest
      let request : Object := .suspension ⟨if 0.0 < x then x else 0.0⟩
      refine ⟨Heap.keeps_addObject w.heap request, hw.addObject request, fun vs hvs => ?_⟩
      have hresults : vs = [.object w.heap.objects.size] :=
        (Except.ok.inj hvs).symm.trans (Stack.results_foldl_push (.ofArguments args) [_])
      rw [if_pos rfl, hresults]
      exact ⟨_, Heap.object?_addObject w.heap request⟩
    · obtain ⟨hkeeps, hplain, hresults⟩ := (Capability.plain_effect hc hargs heffect).perform hw _
      refine ⟨hkeeps, hplain, fun vs hvs => ?_⟩
      rw [if_neg hc, ← Except.ok.inj hvs]
      exact hresults

/-! ### Writing -/

/-- Making the object of a datum. -/
theorem Plain.realize (hw : w.Plain) {d : Datum} (hd : w.heap.PlainDatum d) :
    w.heap.Keeps (w.realize d).2.heap ∧ (w.realize d).2.Plain ∧
      (w.realize d).2.heap.Plain (w.realize d).1.nodes := by
  cases d with
  | value v => exact ⟨.refl _, hw, hd⟩
  | object o =>
    exact ⟨Heap.keeps_addObject w.heap o, hw.addObject o, Heap.plain_newObject w.heap hd⟩

theorem Plain.put (hw : w.Plain) {container key v : Value} (hkey : w.heap.Plain key.nodes)
    (hv : w.heap.Plain v.nodes) {w' : World} (h : w.put container key v = .ok w') :
    w.heap.Keeps w'.heap ∧ w'.Plain := by
  unfold World.put at h
  split at h
  · split at h
    · rename_i hput
      obtain rfl := Except.ok.inj h
      exact ⟨.refl w.heap, hw.setTable ((hw.tables _).put hkey hv hput) _⟩
    · cases h
  split at h
  · obtain ⟨c, -, h⟩ := Except.exists_of_bind_eq_ok (Except.eq_ok_of_mapError h)
    obtain ⟨slot, -, h⟩ := Except.exists_of_bind_eq_ok h
    -- a key that denotes no slot is refused
    cases slot with
    | none => cases h
    | some slot =>
      obtain ⟨written, hwritten, h⟩ := Except.exists_of_bind_eq_ok h
      cases written with
      | none => cases h
      | some r =>
        obtain rfl := Except.ok.inj h
        exact plain_of_writeTarget hw hwritten
  · cases h

theorem Plain.fill (hw : w.Plain) {w' : World} (h : w.fill args = .ok w') :
    w.heap.Keeps w'.heap ∧ w'.Plain := by
  obtain ⟨handle, -, h⟩ := Except.exists_of_bind_eq_ok h
  obtain ⟨c, -, h⟩ := Except.exists_of_bind_eq_ok h
  obtain ⟨written, hwritten, h⟩ := Except.exists_of_bind_eq_ok h
  cases written with
  | some r =>
    obtain rfl := Except.ok.inj h
    exact plain_of_writeTarget hw (Except.eq_ok_of_mapError hwritten)
  | none =>
    obtain rfl := Except.ok.inj h
    exact ⟨.refl _, hw⟩

/-- **A call of a method keeps the world plain and gives no suspension.** -/
theorem Plain.callMethod (hw : w.Plain) (m : Method) (args : List Value) :
    w.heap.Keeps (w.callMethod m args).2.heap ∧ (w.callMethod m args).2.Plain ∧
      ∀ v, (w.callMethod m args).1 = .ok v → (w.callMethod m args).2.heap.Plain v.nodes := by
  have hread (m : Method) : w.heap.Keeps (w.realizeResult (w.readMethod m args)).2.heap ∧
      (w.realizeResult (w.readMethod m args)).2.Plain ∧
      ∀ v, (w.realizeResult (w.readMethod m args)).1 = .ok v →
        (w.realizeResult (w.readMethod m args)).2.heap.Plain v.nodes := by
    cases hd : w.readMethod m args with
    | error f => exact ⟨.refl _, hw, fun _ hv => by cases hv⟩
    | ok d =>
      obtain ⟨hkeeps, hplain, hv⟩ := hw.realize (plain_readMethod hd)
      exact ⟨hkeeps, hplain, fun v heq => Except.ok.inj heq ▸ hv⟩
  cases m with
  | fill =>
    simp only [World.callMethod]
    cases hfill : w.fill args with
    | error f => exact ⟨.refl _, hw, fun _ hv => by cases hv⟩
    | ok w' =>
      obtain ⟨hkeeps, hplain⟩ := hw.fill hfill
      exact ⟨hkeeps, hplain, fun v heq => Except.ok.inj heq ▸ Heap.plain_nil _⟩
  | blend | value | «at» | findKeyCode | group | contains => exact hread _

end World

end KeyLight
