import KeyLight.Proofs.Host.Change
import KeyLight.Proofs.Native.Effect
import KeyLight.Proofs.World.Change
import KeyLight.Proofs.World.Nodes

/-!
# What a script can get at

A script gets at what it starts from, at what it finds there, and at what it makes. Let `known` tell
what it may get at. A world is `World.Within known` if looking into known variables, tables and
functions leads to known things only, the global variables refer to known things, and all that is
not there yet is known, since the script may make it.

`World.Act known` is one change that a script makes while it keeps to what is known: it writes known
variables and tables, writes a render target through a known handle, and everything it writes, keeps
or starts a thread with is known. The objects it makes are those of `World.Makes`: never a handle on
a board or a render target, and a handle on a key or a group only where a live handle on the board
gave it. Acts keep a world within the known (`Act.within`), and reading, calling the functions of
the host and calling methods are acts with known results.
-/

namespace KeyLight

open Relation

variable {known : Node → Prop}

namespace Heap

/-- Nothing of one heap is missing in another. -/
structure NoLarger (h h' : Heap) : Prop where
  cells : h.cells.size ≤ h'.cells.size
  tables : h.tables.size ≤ h'.tables.size
  closures : h.closures.size ≤ h'.closures.size
  objects : h.objects.size ≤ h'.objects.size

namespace NoLarger

protected theorem refl (h : Heap) : h.NoLarger h :=
  ⟨Nat.le_refl _, Nat.le_refl _, Nat.le_refl _, Nat.le_refl _⟩

protected theorem trans {h h' h'' : Heap} (h₁ : h.NoLarger h') (h₂ : h'.NoLarger h'') :
    h.NoLarger h'' where
  cells := Nat.le_trans h₁.cells h₂.cells
  tables := Nat.le_trans h₁.tables h₂.tables
  closures := Nat.le_trans h₁.closures h₂.closures
  objects := Nat.le_trans h₁.objects h₂.objects

theorem setVariable (h : Heap) (id : Nat) (v : Value) : h.NoLarger (h.setVariable id v) :=
  { NoLarger.refl h with cells := by simp [Heap.setVariable] }

theorem addVariable (h : Heap) (v : Value) : h.NoLarger (h.addVariable v) :=
  { NoLarger.refl h with cells := by simp [Heap.addVariable] }

theorem setTable (h : Heap) (id : Nat) (t : Table) : h.NoLarger (h.setTable id t) :=
  { NoLarger.refl h with tables := by simp [Heap.setTable] }

theorem addTable (h : Heap) (t : Table) : h.NoLarger (h.addTable t) :=
  { NoLarger.refl h with tables := by simp [Heap.addTable] }

theorem addClosure (h : Heap) (c : Closure) : h.NoLarger (h.addClosure c) :=
  { NoLarger.refl h with closures := by simp [Heap.addClosure] }

theorem addObject (h : Heap) (o : Object) : h.NoLarger (h.addObject o) :=
  { NoLarger.refl h with objects := by simp [Heap.addObject] }

end NoLarger

theorem readTable_addTable (h : Heap) (t : Table) (id : Nat) :
    (h.addTable t).readTable id = if id = h.tables.size then t else h.readTable id := by
  simp only [addTable, readTable, Array.getElem?_push]
  split <;> rfl

end Heap

namespace World

/-- Whether a thing is there. -/
def Has (w : World) : Node → Prop
  | .cell id => id < w.heap.cells.size
  | .table id => id < w.heap.tables.size
  | .closure id => id < w.heap.closures.size
  | .object id => id < w.heap.objects.size
  | .thread id => id ≤ w.scheduler.threads.size

/-- What a script finds by looking into a thing. Objects and threads do not let it look inside. -/
def openLinks (w : World) : Node → List Node
  | .cell id => (w.heap.readVariable id).nodes
  | .table id => (w.heap.readTable id).nodes
  | .closure id => (w.heap.closures[id]?.map fun c => Scope.nodes c.scope).getD []
  | .object _ | .thread _ => []

/-- What the global variables refer to. -/
def globalNodes (w : World) : List Node := w.globals.flatMap fun entry => entry.2.nodes

/-- Nothing leads from what is known to what is not. -/
structure Within (known : Node → Prop) (w : World) : Prop where
  links : ∀ n, known n → ∀ m ∈ w.openLinks n, known m
  globals : ∀ n ∈ w.globalNodes, known n
  fresh : ∀ n, ¬w.Has n → known n

/-- Anything may be known. -/
theorem within_true (w : World) : w.Within fun _ => True :=
  ⟨fun _ _ _ _ => trivial, fun _ _ => trivial, fun _ _ => trivial⟩

/-- The objects that a script can make. -/
def Makes (known : Node → Prop) (w : World) : Object → Prop
  | .color _ | .fade _ | .suspension _ => True
  | .thread h => known (.thread h.id)
  | .group h => ∃ k, w.board h.board = .ok k ∧ h.index < k.groups.length
  | .key h => ∃ k, w.board h.board = .ok k ∧ k.Names h.index
  | .board _ | .target _ => False

/-- One change that a script makes within what is known. -/
inductive Act (known : Node → Prop) (w : World) : World → Prop
  | setVariable {id : Nat} {v : Value} (hid : known (.cell id)) (hv : ∀ n ∈ v.nodes, known n) :
      Act known w (w.updateHeap (·.setVariable id v))
  | addVariable {v : Value} (hv : ∀ n ∈ v.nodes, known n) :
      Act known w (w.updateHeap (·.addVariable v))
  | setTable {id : Nat} {t : Table} (hid : known (.table id)) (ht : ∀ n ∈ t.nodes, known n) :
      Act known w (w.updateHeap (·.setTable id t))
  | addTable {t : Table} (ht : ∀ n ∈ t.nodes, known n) : Act known w (w.updateHeap (·.addTable t))
  | addClosure {c : Closure} (hc : ∀ n ∈ Scope.nodes c.scope, known n) :
      Act known w (w.updateHeap (·.addClosure c))
  | make {o : Object} (ho : w.Makes known o) : Act known w (w.updateHeap (·.addObject o))
  | global (x : String) {v : Value} (hv : ∀ n ∈ v.nodes, known n) :
      Act known w (w.withRealm (w.setGlobal x v))
  | print (controller : Nat) (text : String) :
      Act known w (w.tell (@Notice.printed controller text))
  | target {id : Nat} {h : TargetHandle} {change : RenderTarget → Option RenderTarget} {r : Realm}
      (hid : known (.object id)) (ho : w.heap.objects[id]? = some (.target h))
      (hr : w.writeTarget h change = .ok (some r)) : Act known w (w.withRealm r)
  | start {routine : Value} {args : List Value}
      (hroutine : ∀ n ∈ (Coroutine.fresh routine args).nodes, known n) :
      Act known w { w with scheduler := (w.scheduler.spawn (.fresh routine args)).2 }

/-- Changes that a script makes within what is known, one after the other. -/
def Acts (known : Node → Prop) (w w' : World) : Prop := ReflTransGen (Act known) w w'

variable {w w' w'' : World}

theorem Acts.refl (w : World) : w.Acts known w := ReflTransGen.refl

theorem Acts.trans (h₁ : w.Acts known w') (h₂ : w'.Acts known w'') : w.Acts known w'' :=
  ReflTransGen.trans h₁ h₂

theorem Act.acts (h : w.Act known w') : w.Acts known w' := ReflTransGen.single h

theorem Act.change (h : w.Act known w') : w.Change w' := by
  cases h with
  | setVariable | addVariable | setTable | addTable | addClosure | make => exact .heap _
  | global x => exact .global x _
  | print controller text => exact .print controller text
  | @target id h change r hid ho hr => exact .target (v := .object id) ho hr
  | start => exact .start _ _

theorem Acts.changes (h : w.Acts known w') : w.Changes w' :=
  ReflTransGen.mono (fun _ _ hact => Act.change hact) _ _ h

/-! ### Acts keep to what is known -/

/-- What is not there leads nowhere. -/
theorem openLinks_of_not_has {n : Node} (h : ¬w.Has n) : w.openLinks n = [] := by
  cases n with
  | cell id =>
    simp [openLinks, Heap.readVariable, Array.getElem?_eq_none (Nat.not_lt.mp h), Value.nodes]
  | table id =>
    simp [openLinks, Heap.readTable, Array.getElem?_eq_none (Nat.not_lt.mp h), Table.nodes,
      Table.empty]
  | closure id => simp [openLinks, Array.getElem?_eq_none (Nat.not_lt.mp h)]
  | object id => rfl
  | thread id => rfl

theorem Within.global (hw : w.Within known) (x : String) : ∀ n ∈ (w.global x).nodes, known n :=
  fun n hn => hw.globals n (Realm.nodes_global_subset w.toRealm x hn)

theorem Within.closure {id : Nat} {c : Closure} (hw : w.Within known) (hid : known (.closure id))
    (hc : w.heap.closures[id]? = some c) : ∀ n ∈ Scope.nodes c.scope, known n := by
  have hlinks := hw.links _ hid
  rwa [openLinks, hc] at hlinks

/-- Another heap in which nothing is missing, and in which variables, tables and functions refer to
what they did before or to what is known. -/
theorem Within.withHeap {h : Heap} (hw : w.Within known) (hgrows : w.heap.NoLarger h)
    (hcells : ∀ id, ∀ n ∈ (h.readVariable id).nodes,
      n ∈ (w.heap.readVariable id).nodes ∨ known n)
    (htables : ∀ id, ∀ n ∈ (h.readTable id).nodes, n ∈ (w.heap.readTable id).nodes ∨ known n)
    (hclosures : ∀ (id : Nat) (c : Closure), h.closures[id]? = some c →
      w.heap.closures[id]? = some c ∨ ∀ n ∈ Scope.nodes c.scope, known n) :
    (w.updateHeap fun _ => h).Within known where
  links := fun n hn m hm => by
    have hold := hw.links n hn m
    cases n with
    | cell id => exact (hcells id m hm).elim hold fun hm => hm
    | table id => exact (htables id m hm).elim hold fun hm => hm
    | closure id =>
      cases hc : h.closures[id]? with
      | none => simp [openLinks, updateHeap, hc] at hm
      | some c =>
        replace hm : m ∈ Scope.nodes c.scope := by simpa [openLinks, updateHeap, hc] using hm
        exact (hclosures id c hc).elim (fun hc => hw.closure hn hc m hm) fun hc => hc m hm
    | object | thread => cases hm
  globals := hw.globals
  fresh := fun n hn => by
    refine hw.fresh n fun hhad => hn ?_
    cases n with
    | cell id => exact Nat.lt_of_lt_of_le hhad hgrows.cells
    | table id => exact Nat.lt_of_lt_of_le hhad hgrows.tables
    | closure id => exact Nat.lt_of_lt_of_le hhad hgrows.closures
    | object id => exact Nat.lt_of_lt_of_le hhad hgrows.objects
    | thread id => exact hhad

/-- A part of the world that scripts cannot look into does not matter. -/
theorem Within.congr (hw : w.Within known) (hheap : w'.heap = w.heap)
    (hglobals : w'.globals = w.globals)
    (hthreads : w.scheduler.threads.size ≤ w'.scheduler.threads.size) : w'.Within known where
  links := fun n hn m hm => by
    refine hw.links n hn m ?_
    cases n <;> simpa only [openLinks, hheap] using hm
  globals := fun n hn => hw.globals n (by rwa [globalNodes, hglobals] at hn)
  fresh := fun n hn => by
    refine hw.fresh n fun hhad => hn ?_
    cases n with
    | thread id => exact Nat.le_trans hhad hthreads
    | cell | table | closure | object => simpa only [Has, hheap] using hhad

theorem exists_of_writeTarget {h : TargetHandle} {change : RenderTarget → Option RenderTarget}
    {r : Realm} (hr : w.writeTarget h change = .ok (some r)) :
    ∃ held t, w.hostTarget h = .ok held ∧ held.hold = .free ∧ change held.target = some t ∧
      r = { w.toRealm with host := w.host.setTarget h.target t } := by
  obtain ⟨held, hheld, hr⟩ := Except.exists_of_bind_eq_ok hr
  split at hr
  · rename_i hfree
    obtain ⟨t, ht, rfl⟩ := Option.map_eq_some_iff.mp (Except.ok.inj hr)
    exact ⟨held, t, hheld, hfree, ht, rfl⟩
  · cases hr

theorem Within.addObject (hw : w.Within known) (o : Object) :
    (w.updateHeap (·.addObject o)).Within known :=
  hw.withHeap (.addObject _ o) (fun _ _ => .inl) (fun _ _ => .inl) fun _ _ => .inl

/-- **Acts keep a world within what is known.** -/
theorem Act.within (h : w.Act known w') (hw : w.Within known) : w'.Within known := by
  cases h with
  | @setVariable id v hid hv =>
    refine hw.withHeap (.setVariable _ id v) (fun other n hn => ?_) (fun _ _ => .inl)
      fun _ _ => .inl
    rw [Heap.readVariable_setVariable] at hn
    split at hn
    · exact .inr (hv n hn)
    · exact .inl hn
  | @addVariable v hv =>
    refine hw.withHeap (.addVariable _ v) (fun other n hn => ?_) (fun _ _ => .inl) fun _ _ => .inl
    rw [Heap.readVariable_addVariable] at hn
    split at hn
    · exact .inr (hv n hn)
    · exact .inl hn
  | @setTable id t hid ht =>
    refine hw.withHeap (.setTable _ id t) (fun _ _ => .inl) (fun other n hn => ?_) fun _ _ => .inl
    rw [Heap.readTable_setTable] at hn
    split at hn
    · exact .inr (ht n hn)
    · exact .inl hn
  | @addTable t ht =>
    refine hw.withHeap (.addTable _ t) (fun _ _ => .inl) (fun other n hn => ?_) fun _ _ => .inl
    rw [Heap.readTable_addTable] at hn
    split at hn
    · exact .inr (ht n hn)
    · exact .inl hn
  | @addClosure c hc =>
    refine hw.withHeap (.addClosure _ c) (fun _ _ => .inl) (fun _ _ => .inl) fun id d hd => ?_
    rw [Heap.addClosure, Array.getElem?_push] at hd
    split at hd
    · obtain rfl := Option.some.inj hd
      exact .inr hc
    · exact .inl hd
  | @make o => exact hw.addObject o
  | @global x v hv =>
    refine ⟨hw.links, fun n hn => ?_, hw.fresh⟩
    obtain ⟨entry, hentry, hn⟩ := List.mem_flatMap.mp hn
    obtain rfl | hentry := List.mem_cons.mp hentry
    · exact hv n hn
    · exact hw.globals n (List.mem_flatMap.mpr ⟨entry, (List.mem_filter.mp hentry).1, hn⟩)
  | print => exact hw.congr rfl rfl (Nat.le_refl _)
  | target hid ho hr =>
    obtain ⟨held, t, -, -, -, rfl⟩ := exists_of_writeTarget hr
    exact hw.congr rfl rfl (Nat.le_refl _)
  | start hroutine => exact hw.congr rfl rfl (by simp [Scheduler.spawn])

theorem Acts.within (h : w.Acts known w') (hw : w.Within known) : w'.Within known := by
  induction h with
  | refl => exact hw
  | tail _ hact ih => exact hact.within ih

/-! ### Reading -/

/-- What is read refers to what is known, or is an object that a script can make. -/
def KnownDatum (known : Node → Prop) (w : World) : Datum → Prop
  | .value v => ∀ n ∈ v.nodes, known n
  | .object o => w.Makes known o

theorem knownDatum_ofOption {o : Option Object} (ho : ∀ x, o = some x → w.Makes known x) :
    w.KnownDatum known (.ofOption o) := by
  cases o with
  | none => exact List.forall_mem_nil _
  | some x => exact ho x rfl

theorem exists_board_of_group {h : GroupHandle} {g : KeyGroup} (hg : w.group h = .ok g) :
    ∃ k, w.board h.board = .ok k ∧ g ∈ k.groups := by
  obtain ⟨k, hk, hg⟩ := Except.exists_of_bind_eq_ok hg
  refine ⟨k, hk, ?_⟩
  split at hg
  · rename_i group hgroup
    exact Except.ok.inj hg ▸ List.mem_of_getElem? hgroup
  · cases hg

/-- A key that a board holds is one of its keys. -/
theorem mem_keys_of_boardKey? {k : Keyboard} {key : Value} {found : Key}
    (h : boardKey? k key = some found) : found ∈ k.keys := by
  unfold boardKey? at h
  split at h
  · exact List.mem_of_find?_eq_some h
  · obtain ⟨i, -, hfound⟩ := Option.bind_eq_some_iff.mp h
    exact List.mem_of_getElem? hfound

/-- What an object holds is a colour, or a key of a board that it gives access to. -/
theorem knownDatum_item {o : Object} {key : Value} {d : Datum} (h : w.item o key = .ok d) :
    w.KnownDatum known d := by
  cases o with
  | color | fade =>
    obtain rfl := Except.ok.inj h
    exact List.forall_mem_nil _
  | thread | key =>
    simp only [item] at h
    split at h <;> cases h
  | suspension => cases h
  | board b =>
    obtain ⟨k, hk, h⟩ := Except.exists_of_bind_eq_ok (Except.eq_ok_of_mapError h)
    obtain rfl := Except.ok.inj h
    refine knownDatum_ofOption fun x hx => ?_
    obtain ⟨found, hfound, rfl⟩ := Option.map_eq_some_iff.mp hx
    exact ⟨k, hk, .inl ⟨found, mem_keys_of_boardKey? hfound, rfl⟩⟩
  | group g =>
    have h := Except.eq_ok_of_mapError h
    unfold groupItem at h
    split at h
    · obtain rfl := Except.ok.inj h
      exact List.forall_mem_nil _
    · obtain ⟨group, hgroup, h⟩ := Except.exists_of_bind_eq_ok h
      obtain rfl := Except.ok.inj h
      refine knownDatum_ofOption fun x hx => ?_
      obtain ⟨i, hi, rfl⟩ := Option.map_eq_some_iff.mp hx
      obtain ⟨k, hk, hmem⟩ := exists_board_of_group hgroup
      exact ⟨k, hk, .inr ⟨group, hmem, List.mem_of_getElem? hi⟩⟩
  | target t =>
    obtain ⟨slot, -, h⟩ := Except.exists_of_bind_eq_ok (Except.eq_ok_of_mapError h)
    cases slot with
    | none =>
      obtain rfl := Except.ok.inj h
      exact List.forall_mem_nil _
    | some slot =>
      obtain ⟨target, -, h⟩ := Except.exists_of_bind_eq_ok h
      obtain rfl := Except.ok.inj h
      refine knownDatum_ofOption fun x hx => ?_
      obtain ⟨_, -, rfl⟩ := Option.map_eq_some_iff.mp hx
      trivial

theorem knownDatum_objectIndex {o : Object} {key : Value} {d : Datum}
    (h : w.objectIndex o key = .ok d) : w.KnownDatum known d := by
  unfold objectIndex at h
  split at h
  · rename_i read hread
    obtain ⟨u, hu, rfl⟩ := Except.exists_of_map_eq_ok (Except.eq_ok_of_mapError h)
    obtain ⟨name, -, hfield⟩ := Option.bind_eq_some_iff.mp hread
    have hnodes : u.nodes = [] := nodes_field (hu ▸ hfield)
    intro n hn
    rw [hnodes] at hn
    cases hn
  split at h
  · obtain rfl := Except.ok.inj h
    exact List.forall_mem_nil _
  · exact knownDatum_item h

/-- **Reading leads from what is known to what is known.** -/
theorem Within.index (hw : w.Within known) {container key : Value} {d : Datum}
    (hcontainer : ∀ n ∈ container.nodes, known n) (h : w.index container key = .ok d) :
    w.KnownDatum known d := by
  cases container with
  | table id =>
    obtain rfl := Except.ok.inj h
    have hid := hcontainer _ (List.mem_singleton_self _)
    exact fun n hn => hw.links _ hid n (Table.nodes_get_subset _ key hn)
  | text _ =>
    obtain rfl := Except.ok.inj h
    exact List.forall_mem_nil _
  | object id =>
    simp only [World.index] at h
    split at h
    · exact knownDatum_objectIndex h
    · cases h
  | nil | bool _ | int _ | float _ | closure _ | builtin _ => cases h

theorem knownDatum_ofInterpolated (x : Interpolated) : w.KnownDatum known (ofInterpolated x) := by
  cases x with
  | color c => trivial
  | number x => exact List.forall_mem_nil _

/-- **Methods give new objects or values that refer to nothing.** -/
theorem knownDatum_readMethod {m : Method} {args : List Value} {d : Datum}
    (h : w.readMethod m args = .ok d) : w.KnownDatum known d := by
  cases m with
  | blend =>
    obtain ⟨c, -, h⟩ := Except.exists_of_bind_eq_ok h
    obtain ⟨overlay, -, h⟩ := Except.exists_of_bind_eq_ok h
    obtain rfl := Except.ok.inj h
    trivial
  | value =>
    obtain ⟨f, -, h⟩ := Except.exists_of_bind_eq_ok h
    obtain rfl := Except.ok.inj h
    exact knownDatum_ofInterpolated _
  | «at» =>
    obtain ⟨f, -, h⟩ := Except.exists_of_bind_eq_ok h
    obtain ⟨t, -, h⟩ := Except.exists_of_bind_eq_ok h
    obtain rfl := Except.ok.inj h
    exact knownDatum_ofInterpolated _
  | findKeyCode =>
    obtain ⟨b, -, h⟩ := Except.exists_of_bind_eq_ok h
    obtain ⟨code, -, h⟩ := Except.exists_of_bind_eq_ok h
    obtain ⟨k, hk, h⟩ := Except.exists_of_bind_eq_ok h
    obtain rfl := Except.ok.inj h
    refine knownDatum_ofOption fun x hx => ?_
    obtain ⟨found, hfound, rfl⟩ := Option.map_eq_some_iff.mp hx
    exact ⟨k, Except.eq_ok_of_mapError hk, .inl ⟨found, List.mem_of_find?_eq_some hfound, rfl⟩⟩
  | group =>
    obtain ⟨name, -, h⟩ := Except.exists_of_bind_eq_ok h
    obtain ⟨b, -, h⟩ := Except.exists_of_bind_eq_ok h
    obtain ⟨k, hk, h⟩ := Except.exists_of_bind_eq_ok h
    obtain rfl := Except.ok.inj h
    refine knownDatum_ofOption fun x hx => ?_
    obtain ⟨i, hi, rfl⟩ := Option.map_eq_some_iff.mp hx
    refine ⟨k, Except.eq_ok_of_mapError hk, ?_⟩
    obtain ⟨hlt, -⟩ := List.findIdx?_eq_some_iff_getElem.mp hi
    exact hlt
  | contains =>
    obtain ⟨g, -, h⟩ := Except.exists_of_bind_eq_ok h
    obtain ⟨k, -, h⟩ := Except.exists_of_bind_eq_ok h
    obtain ⟨b, -, h⟩ := Except.exists_of_bind_eq_ok h
    obtain rfl := Except.ok.inj h
    exact List.forall_mem_nil _
  | fill => cases h

/-! ### Making and writing -/

/-- A new object is not there yet, so it is known. -/
theorem Within.newObject (hw : w.Within known) {n : Node}
    (hn : n ∈ (Value.object w.heap.objects.size).nodes) : known n := by
  obtain rfl := List.mem_singleton.mp hn
  exact hw.fresh _ (Nat.lt_irrefl _)

/-- Making the object of a datum. -/
theorem Within.realize (hw : w.Within known) {d : Datum} (hd : w.KnownDatum known d) :
    w.Acts known (w.realize d).2 ∧ ∀ n ∈ (w.realize d).1.nodes, known n := by
  cases d with
  | value v => exact ⟨.refl w, hd⟩
  | object o => exact ⟨(Act.make hd).acts, fun n hn => hw.newObject hn⟩

/-- Starting a thread and making its object. -/
theorem Within.startThread (hw : w.Within known) {routine : Value} {args : List Value}
    (hroutine : ∀ n ∈ (Coroutine.fresh routine args).nodes, known n) :
    w.Acts known (Effect.startThread w routine args).2 ∧
      ∀ n ∈ (Effect.startThread w routine args).1.nodes, known n := by
  let id := (w.scheduler.spawn (Coroutine.fresh routine args)).1
  have hid : known (.thread id) := hw.fresh _ (Nat.not_succ_le_self _)
  have hmake : Makes known { w with scheduler := (w.scheduler.spawn (.fresh routine args)).2 }
      (.thread ⟨id⟩) := hid
  exact ⟨(Act.start hroutine).acts.trans (Act.make hmake).acts, fun n hn => hw.newObject hn⟩

theorem acts_addVariables {vs : List Value} (hvs : ∀ n ∈ vs.flatMap Value.nodes, known n) :
    w.Acts known (w.updateHeap (·.addVariables vs)) := by
  induction vs generalizing w with
  | nil => exact .refl w
  | cons v vs ih =>
    obtain ⟨hv, hvs⟩ := List.forall_mem_append.mp hvs
    exact (Act.addVariable hv).acts.trans (ih hvs)

theorem acts_target {v : Value} {h : TargetHandle} {change : RenderTarget → Option RenderTarget}
    {r : Realm} (hv : ∀ n ∈ v.nodes, known n) (ho : w.heap.object? v = some (.target h))
    (hr : w.writeTarget h change = .ok (some r)) : w.Acts known (w.withRealm r) := by
  cases v with
  | object id => exact (Act.target (hv _ (List.mem_singleton_self _)) ho hr).acts
  | nil | bool | int | float | text | table | closure | builtin => cases ho

theorem acts_fill {args : List Value} (hargs : ∀ n ∈ args.flatMap Value.nodes, known n)
    (h : w.fill args = .ok w') : w.Acts known w' := by
  obtain ⟨handle, hreceiver, h⟩ := Except.exists_of_bind_eq_ok h
  obtain ⟨c, -, h⟩ := Except.exists_of_bind_eq_ok h
  obtain ⟨written, hwritten, h⟩ := Except.exists_of_bind_eq_ok h
  obtain ⟨v, hv, ho⟩ := exists_mem_of_receiver hreceiver
  cases written with
  | some r =>
    obtain rfl := Except.ok.inj h
    exact acts_target (fun n hn => hargs n (Value.nodes_subset_of_mem hv hn)) ho
      (Except.eq_ok_of_mapError hwritten)
  | none =>
    obtain rfl := Except.ok.inj h
    exact .refl w

theorem Within.put (hw : w.Within known) {container key v : Value}
    (hcontainer : ∀ n ∈ container.nodes, known n) (hkey : ∀ n ∈ key.nodes, known n)
    (hv : ∀ n ∈ v.nodes, known n) (h : w.put container key v = .ok w') : w.Acts known w' := by
  unfold World.put at h
  split at h
  · rename_i id
    split at h
    · rename_i t ht
      obtain rfl := Except.ok.inj h
      have hid := hcontainer _ (List.mem_singleton_self _)
      refine (Act.setTable hid fun n hn => ?_).acts
      obtain hn | hn := List.mem_append.mp (Table.nodes_put_subset ht hn)
      · exact (List.mem_append.mp hn).elim (hkey n) (hv n)
      · exact hw.links _ hid n hn
    · cases h
  split at h
  · rename_i ho
    obtain ⟨c, -, h⟩ := Except.exists_of_bind_eq_ok (Except.eq_ok_of_mapError h)
    obtain ⟨slot, -, h⟩ := Except.exists_of_bind_eq_ok h
    -- a key that denotes no slot is refused
    cases slot with
    | none => cases h
    | some slot =>
      obtain ⟨written, hwritten, h⟩ := Except.exists_of_bind_eq_ok h
      cases written with
      | none => cases h
      | some r =>
        obtain rfl := Except.ok.inj h
        exact acts_target hcontainer ho hwritten
  · cases h

/-- **A call of a method acts within what is known.** -/
theorem Within.callMethod (hw : w.Within known) (m : Method) {args : List Value}
    (hargs : ∀ n ∈ args.flatMap Value.nodes, known n) :
    w.Acts known (w.callMethod m args).2 ∧
      ∀ v, (w.callMethod m args).1 = .ok v → ∀ n ∈ v.nodes, known n := by
  have hread (m : Method) : w.Acts known (w.realizeResult (w.readMethod m args)).2 ∧
      ∀ v, (w.realizeResult (w.readMethod m args)).1 = .ok v → ∀ n ∈ v.nodes, known n := by
    cases hd : w.readMethod m args with
    | error f => exact ⟨.refl w, fun _ hv => by cases hv⟩
    | ok d =>
      obtain ⟨hacts, hv⟩ := hw.realize (knownDatum_readMethod hd)
      exact ⟨hacts, fun v heq => Except.ok.inj heq ▸ hv⟩
  cases m with
  | fill =>
    simp only [World.callMethod]
    cases hfill : w.fill args with
    | error f => exact ⟨.refl w, fun _ hv => by cases hv⟩
    | ok w' => exact ⟨acts_fill hargs hfill, fun v heq => Except.ok.inj heq ▸ List.forall_mem_nil _⟩
  | blend | value | «at» | findKeyCode | group | contains => exact hread _

/-! ### Functions of the host -/

/-- What an effect gives, makes and starts is known. -/
def KnownEffect (known : Node → Prop) (w : World) : Effect → Prop
  | .give vs => ∀ n ∈ vs.flatMap Value.nodes, known n
  | .say .. => True
  | .make o => w.Makes known o
  | .start routine args => ∀ n ∈ (Coroutine.fresh routine args).nodes, known n

theorem knownEffect_effect {c : Capability} {args : List Value}
    (hargs : ∀ n ∈ args.flatMap Value.nodes, known n) {effect : Effect}
    (h : c.effect w (.ofArguments args) = .ok effect) : w.KnownEffect known effect := by
  cases c with
  | print =>
    obtain ⟨_, -, h⟩ := Except.exists_of_bind_eq_ok h
    obtain ⟨text, -, h⟩ := Except.exists_of_bind_eq_ok h
    obtain rfl := Except.ok.inj h
    trivial
  | tocolor =>
    obtain ⟨color, -, h⟩ := Except.exists_of_bind_eq_ok h
    cases color with
    | some c =>
      obtain rfl := Except.ok.inj h
      trivial
    | none =>
      obtain rfl := Except.ok.inj h
      exact List.forall_mem_nil _
  | fade =>
    obtain ⟨f, -, h⟩ := Except.exists_of_bind_eq_ok h
    obtain rfl := Except.ok.inj h
    trivial
  | thread =>
    simp only [Capability.effect] at h
    split at h
    · rename_i routine hroutine
      obtain rfl := Except.ok.inj h
      obtain ⟨hget, -⟩ := Option.filter_eq_some_iff.mp hroutine
      have hmem : routine ∈ args := List.mem_of_getElem? hget
      rw [KnownEffect, Coroutine.nodes_fresh]
      exact List.forall_mem_append.mpr
        ⟨fun n hn => hargs n (Value.nodes_subset_of_mem hmem hn),
          fun n hn => hargs n (Value.nodes_drop_subset args 1 hn)⟩
    · cases h
  | wait =>
    obtain ⟨x, -, h⟩ := Except.exists_of_bind_eq_ok h
    obtain rfl := Except.ok.inj h
    trivial
  | now =>
    obtain rfl := Except.ok.inj h
    exact List.forall_mem_nil _

/-- An effect that is known acts within what is known and gives known values. -/
theorem Within.perform (hw : w.Within known) {effect : Effect}
    (heffect : w.KnownEffect known effect) (s : Stack) :
    w.Acts known (effect.perform w s).1 ∧
      ∀ n ∈ ((effect.perform w s).2.1.results (effect.perform w s).2.2).flatMap Value.nodes,
        known n := by
  -- the results are what was pushed
  have single (v : Value) : (s.push v).results 1 = [v] := Stack.results_foldl_push s [v]
  cases effect with
  | give vs =>
    refine ⟨.refl w, ?_⟩
    simp only [Effect.perform, Stack.results_foldl_push]
    exact heffect
  | say controller text =>
    refine ⟨(Act.print controller text).acts, ?_⟩
    simp only [Effect.perform]
    rw [show s.results 0 = [] from Stack.results_foldl_push s []]
    exact List.forall_mem_nil _
  | make o =>
    refine ⟨(Act.make heffect).acts, ?_⟩
    simp only [Effect.perform, single, List.flatMap_singleton]
    exact fun n hn => hw.newObject hn
  | start routine args =>
    obtain ⟨hacts, hv⟩ := hw.startThread heffect
    refine ⟨hacts, ?_⟩
    simp only [Effect.perform, single, List.flatMap_singleton]
    exact hv

/-- **A call of a capability acts within what is known.** -/
theorem Within.entryPoint (hw : w.Within known) {args : List Value}
    (hargs : ∀ n ∈ args.flatMap Value.nodes, known n) (c : Capability)
    {result : Except Fault (List Value)} (h : KeyLight.entryPoint c.body w args = (result, w')) :
    w.Acts known w' ∧ ∀ vs, result = .ok vs → ∀ n ∈ vs.flatMap Value.nodes, known n := by
  rw [entryPoint_body] at h
  cases heffect : c.effect w (.ofArguments args) with
  | error f =>
    simp only [heffect, Prod.mk.injEq] at h
    obtain ⟨rfl, rfl⟩ := h
    exact ⟨.refl w, fun _ hvs => by cases hvs⟩
  | ok effect =>
    simp only [heffect, Prod.mk.injEq] at h
    obtain ⟨rfl, rfl⟩ := h
    obtain ⟨hacts, hresults⟩ := hw.perform (knownEffect_effect hargs heffect) (.ofArguments args)
    exact ⟨hacts, fun vs hvs => Except.ok.inj hvs ▸ hresults⟩

end World

end KeyLight
