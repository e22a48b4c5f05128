import KeyLight.Proofs.World.Change
import KeyLight.World.Collection

/-!
# What values are made of

What a script gets by reading a table, a variable or an argument refers to nothing that the table,
the variables or the arguments did not refer to, and a table that it writes refers to nothing but
what it referred to before and what was written. So a property of things that holds of everything a
script starts from holds of all that it can put together; there is one inclusion here for each way
to do so.
-/

namespace KeyLight

/-! ### Lists of values -/

theorem Value.nodes_subset_of_mem {v : Value} {vs : List Value} (h : v ∈ vs) :
    v.nodes ⊆ vs.flatMap Value.nodes :=
  fun _ hn => List.mem_flatMap.mpr ⟨v, h, hn⟩

theorem Value.nodes_getD_subset (vs : List Value) (i : Nat) :
    (vs.getD i .nil).nodes ⊆ vs.flatMap Value.nodes := by
  rw [List.getD_eq_getElem?_getD]
  cases hv : vs[i]? with
  | none => exact List.nil_subset _
  | some v => exact nodes_subset_of_mem (List.mem_of_getElem? hv)

theorem Value.nodes_headD_subset (vs : List Value) :
    (vs.headD .nil).nodes ⊆ vs.flatMap Value.nodes := by
  rw [List.headD_eq_getD]
  exact nodes_getD_subset vs 0

theorem Value.nodes_drop_subset (vs : List Value) (n : Nat) :
    (vs.drop n).flatMap Value.nodes ⊆ vs.flatMap Value.nodes := fun node hnode => by
  obtain ⟨v, hv, hnode⟩ := List.mem_flatMap.mp hnode
  exact nodes_subset_of_mem (List.mem_of_mem_drop hv) hnode

/-- A parameter is an argument or nil. -/
theorem nodes_parameterValues_subset (params : List String) (args : List Value) :
    (parameterValues params args).flatMap Value.nodes ⊆ args.flatMap Value.nodes := by
  induction params generalizing args with
  | nil => exact List.nil_subset _
  | cons x xs ih =>
    refine List.append_subset.mpr ⟨Value.nodes_headD_subset args, fun n hn => ?_⟩
    have hn := ih args.tail hn
    rw [← List.drop_one] at hn
    exact Value.nodes_drop_subset args 1 hn

/-! ### Scopes -/

/-- A variable in scope is one that was there, or one of those that the new names have. -/
theorem Scope.mem_nodes_bind {scope : Scope} {place : Nat} {names : List String} {n : Node}
    (h : n ∈ Scope.nodes (scope.bind place names)) :
    n ∈ Scope.nodes scope ∨ ∃ id, n = .cell id ∧ place ≤ id := by
  induction names generalizing scope place with
  | nil => exact .inl h
  | cons x xs ih =>
    obtain hscope | ⟨id, rfl, hid⟩ := ih h
    · obtain rfl | hscope := List.mem_cons.mp hscope
      · exact .inr ⟨place, rfl, Nat.le_refl place⟩
      · exact .inl hscope
    · exact .inr ⟨id, rfl, by omega⟩

theorem Closure.nodes_captured_subset (params : List String) (body : List Stmt) (scope : Scope) :
    Scope.nodes (captured params body scope) ⊆ Scope.nodes scope :=
  List.map_subset _ List.filter_sublist.subset

/-! ### Tables -/

namespace Table

variable {t t' : Table} {key v : Value}

/-- What fields refer to. -/
def fieldNodes (fields : List (Value × Value)) : List Node :=
  fields.flatMap fun (key, v) => key.nodes ++ v.nodes

theorem nodes_eq (t : Table) : t.nodes = t.items.flatMap Value.nodes ++ fieldNodes t.fields := rfl

theorem nodes_field_subset (t : Table) (key : Value) :
    (t.field key).nodes ⊆ fieldNodes t.fields := by
  unfold field
  cases hv : t.fields.lookup key with
  | none => exact List.nil_subset _
  | some v =>
    obtain ⟨l₁, l₂, hfields, -⟩ := List.lookup_eq_some_iff.mp hv
    intro n hn
    refine List.mem_flatMap.mpr ⟨(key, v), ?_, List.mem_append_right _ hn⟩
    rw [hfields]
    exact List.mem_append_right l₁ List.mem_cons_self

/-- What is read from a table. -/
theorem nodes_get_subset (t : Table) (key : Value) : (t.get key).nodes ⊆ t.nodes := by
  unfold get
  split
  · exact List.nil_subset _
  · split
    · exact fun n hn => List.mem_append_left _ (Value.nodes_getD_subset _ _ hn)
    · exact fun n hn => List.mem_append_right _ (nodes_field_subset t _ hn)

/-- The form of a key refers to what the key refers to. -/
theorem nodes_key_subset {k : Value} (h : key? key = some k) : k.nodes ⊆ key.nodes := by
  cases key with
  | nil => cases h
  | float x =>
    simp only [key?] at h
    split at h
    · obtain rfl := Option.some.inj h
      cases integral? x <;> exact List.nil_subset _
    · cases h
  | bool _ | int _ | text _ | table _ | closure _ | builtin _ | object _ =>
    obtain rfl := Option.some.inj h
    exact List.Subset.refl _

theorem nodes_putField_subset (fields : List (Value × Value)) (key v : Value) :
    fieldNodes (putField fields key v) ⊆ (key.nodes ++ v.nodes) ++ fieldNodes fields := by
  have hothers : fieldNodes (fields.filter (·.1 != key)) ⊆ fieldNodes fields := fun n hn => by
    obtain ⟨entry, hentry, hn⟩ := List.mem_flatMap.mp hn
    exact List.mem_flatMap.mpr ⟨entry, (List.mem_filter.mp hentry).1, hn⟩
  unfold putField
  simp only
  split
  · exact fun n hn => List.mem_append_right _ (hothers hn)
  · exact List.append_subset.mpr ⟨List.subset_append_left _ _,
      fun n hn => List.mem_append_right _ (hothers hn)⟩

/-- Moving fields to the items refers to nothing new. -/
theorem nodes_gather_subset (fuel : Nat) (t : Table) : (gather fuel t).nodes ⊆ t.nodes := by
  induction fuel generalizing t with
  | zero => exact List.Subset.refl _
  | succ fuel ih =>
    unfold gather
    simp only
    split
    · exact List.Subset.refl _
    · refine List.Subset.trans (ih _) fun n hn => ?_
      rw [nodes_eq, List.flatMap_append, List.flatMap_singleton, List.append_assoc] at hn
      obtain hn | hn := List.mem_append.mp hn
      · exact List.mem_append_left _ hn
      refine List.mem_append_right _ ?_
      obtain hn | hn := List.mem_append.mp hn
      · exact nodes_field_subset t _ hn
      · exact nodes_putField_subset t.fields (position (t.items.length + 1)) .nil hn

/-- What is written to a table. -/
theorem nodes_put_subset (h : t.put? key v = some t') :
    t'.nodes ⊆ (key.nodes ++ v.nodes) ++ t.nodes := by
  have old {n : Node} (hn : n ∈ t.nodes) : n ∈ (key.nodes ++ v.nodes) ++ t.nodes :=
    List.mem_append_right _ hn
  have new {n : Node} (hn : n ∈ v.nodes) : n ∈ (key.nodes ++ v.nodes) ++ t.nodes :=
    List.mem_append_left _ (List.mem_append_right _ hn)
  unfold put? at h
  split at h
  · cases h
  rename_i k hk
  have put {u : Value} {n : Node} (hu : u.nodes ⊆ v.nodes)
      (hn : n ∈ fieldNodes (putField t.fields k u)) : n ∈ (key.nodes ++ v.nodes) ++ t.nodes := by
    obtain hn | hn := List.mem_append.mp (nodes_putField_subset t.fields k u hn)
    · refine List.mem_append_left _ ?_
      exact List.append_subset.mpr ⟨fun n hn => List.mem_append_left _ (nodes_key_subset hk hn),
        fun n hn => List.mem_append_right _ (hu hn)⟩ hn
    · exact old (List.mem_append_right _ hn)
  split at h
  · obtain rfl := Option.some.inj h
    intro n hn
    obtain hn | hn := List.mem_append.mp hn
    · obtain ⟨u, hu, hn⟩ := List.mem_flatMap.mp hn
      obtain hu | heq := List.mem_or_eq_of_mem_set hu
      · exact old (List.mem_append_left _ (Value.nodes_subset_of_mem hu hn))
      · exact new (heq ▸ hn)
    · exact old (List.mem_append_right _ hn)
  split at h
  · obtain rfl := Option.some.inj h
    intro n hn
    have hn := nodes_gather_subset _ _ hn
    rw [nodes_eq, List.flatMap_append, List.flatMap_singleton, List.append_assoc] at hn
    obtain hn | hn := List.mem_append.mp hn
    · exact old (List.mem_append_left _ hn)
    obtain hn | hn := List.mem_append.mp hn
    · exact new hn
    · exact put (u := .nil) (List.nil_subset _) hn
  · obtain rfl := Option.some.inj h
    intro n hn
    obtain hn | hn := List.mem_append.mp hn
    · exact old (List.mem_append_left _ hn)
    · exact put (List.Subset.refl _) hn

theorem nodes_ofItems (vs : List Value) : (ofItems vs).nodes = vs.flatMap Value.nodes :=
  List.append_nil _

end Table

/-! ### Global variables -/

theorem Realm.nodes_global_subset (r : Realm) (x : String) :
    (r.global x).nodes ⊆ r.globals.flatMap fun entry => entry.2.nodes := by
  unfold global
  cases hv : r.globals.lookup x with
  | none => exact List.nil_subset _
  | some v =>
    obtain ⟨l₁, l₂, hglobals, -⟩ := List.lookup_eq_some_iff.mp hv
    intro n hn
    refine List.mem_flatMap.mpr ⟨(x, v), ?_, hn⟩
    rw [hglobals]
    exact List.mem_append_right l₁ List.mem_cons_self

/-! ### Fields of objects -/

namespace World

variable {w : World} {v : Value}

theorem nodes_colorField {c : Rgba} {name : String} (h : colorField? c name = some v) :
    v.nodes = [] := by
  unfold colorField? at h
  split at h <;> cases h <;> rfl

theorem nodes_fadeField {f : Interpolator} {name : String} (h : w.fadeField? f name = some v) :
    v.nodes = [] := by
  unfold fadeField? at h
  split at h <;> cases h <;> rfl

theorem nodes_threadField {t : ThreadHandle} {name : String} (h : w.threadField? t name = some v) :
    v.nodes = [] := by
  unfold threadField? at h
  split at h <;> cases h <;> rfl

theorem nodes_keyField {k : Key} {name : String} (h : keyField? k name = some v) :
    v.nodes = [] := by
  unfold keyField? at h
  split at h <;> cases h <;> rfl

/-- A field of an object refers to nothing. -/
theorem nodes_field {o : Object} {name : String} (h : w.field? o name = some (.ok v)) :
    v.nodes = [] := by
  cases o with
  | color c =>
    obtain ⟨u, hu, heq⟩ := Option.map_eq_some_iff.mp h
    exact Except.ok.inj heq ▸ nodes_colorField hu
  | fade f =>
    obtain ⟨u, hu, heq⟩ := Option.map_eq_some_iff.mp h
    exact Except.ok.inj heq ▸ nodes_fadeField hu
  | thread t =>
    obtain ⟨u, hu, heq⟩ := Option.map_eq_some_iff.mp h
    exact Except.ok.inj heq ▸ nodes_threadField hu
  | group g =>
    simp only [field?] at h
    split at h
    · obtain ⟨_, -, rfl⟩ := Except.exists_of_map_eq_ok (Option.some.inj h)
      rfl
    · cases h
  | key k =>
    simp only [field?] at h
    split at h
    · obtain ⟨key, -, rfl⟩ := Except.exists_of_map_eq_ok (Option.some.inj h)
      cases hu : keyField? key name with
      | none => rfl
      | some u => exact nodes_keyField hu
    · cases h
  | suspension _ | board _ | target _ => cases h

end World

/-! ### Results of operations -/

namespace Machine

variable {w : World}

/-- The text of a value refers to nothing. -/
theorem nodes_of_tostring {args : List Value} {v : Value} (h : tostring w args = .ok v) :
    v.nodes = [] := by
  unfold tostring at h
  split at h
  · cases h
  · obtain ⟨bytes, -, rfl⟩ := Except.exists_of_map_eq_ok (Except.eq_ok_of_mapError h)
    rfl

/-- The value of an operation with two operands refers to nothing. -/
theorem nodes_of_binary {op : BinaryOp} {a b v : Value} (h : binary w op a b = .ok v) :
    v.nodes = [] := by
  have orFault {u : Option Value} (hu : ∀ x, u = some x → x.nodes = [])
      (h : u.elim (Except.error Fault.interpreter) Except.ok = .ok v) : v.nodes = [] := by
    cases u with
    | none => cases h
    | some x => exact Except.ok.inj h ▸ hu x rfl
  have arithmetic (op : Value.Arithmetic) (x : Value) (hx : Value.arithmetic? op a b = some x) :
      x.nodes = [] := by
    obtain ⟨m, -, hx⟩ := Option.bind_eq_some_iff.mp hx
    obtain ⟨n, -, hx⟩ := Option.bind_eq_some_iff.mp hx
    split at hx <;> exact Option.some.inj hx ▸ rfl
  cases op with
  | add => exact orFault (arithmetic .add) h
  | sub => exact orFault (arithmetic .sub) h
  | mul => exact orFault (arithmetic .mul) h
  | concat =>
    refine orFault (fun x hx => ?_) h
    obtain ⟨s, -, hx⟩ := Option.bind_eq_some_iff.mp hx
    obtain ⟨t, -, hx⟩ := Option.bind_eq_some_iff.mp hx
    exact Option.some.inj hx ▸ rfl
  | equal =>
    obtain ⟨b, -, rfl⟩ := Except.exists_of_map_eq_ok h
    rfl
  | less =>
    refine orFault (fun x hx => ?_) h
    obtain ⟨b, -, rfl⟩ := Option.map_eq_some_iff.mp hx
    rfl

end Machine

end KeyLight
