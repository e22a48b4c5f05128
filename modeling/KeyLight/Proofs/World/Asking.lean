import KeyLight.Proofs.World.Change
import KeyLight.Proofs.World.Stale
import KeyLight.World.Method

/-!
# What is asked for

What reading, writing and calling a method come to for a handle, with arguments of the types that
they take: which board, group, key or render target is asked for, and what is done with it. A key of
a render target denotes a slot without being asked for (`World.targetSlot_key`), so only numbers can
denote none (`World.targetSlot_of_slotKey`).
-/

namespace KeyLight

/-! ### Render targets in use -/

namespace Realm

/-- Reading a target that is there fails just if the host writes it. -/
theorem readTarget_cases (r : Realm) (h : TargetHandle) :
    (∃ e, r.hostTarget h = .error e ∧ r.readTarget h = .error e) ∨
      ∃ held, r.hostTarget h = .ok held ∧
        (r.readTarget h = .ok held.target ∨ r.readTarget h = .error (.handleBusy .target)) := by
  unfold readTarget
  cases r.hostTarget h with
  | error e => exact .inl ⟨e, rfl, rfl⟩
  | ok held =>
    refine .inr ⟨held, rfl, ?_⟩
    simp only [bind, Except.bind]
    split
    · exact .inr rfl
    · exact .inl rfl

/-- A target that the host is not writing is read. -/
theorem readTarget_of_hold {r : Realm} {h : TargetHandle} {held : HostTarget}
    (hheld : r.hostTarget h = .ok held) (hhold : held.hold ≠ .writing) :
    r.readTarget h = .ok held.target := by
  simp only [readTarget, hheld, bind, Except.bind, if_neg hhold]

/-- Writing a target that is there fails just if the host uses it. -/
theorem writeTarget_cases (r : Realm) (h : TargetHandle)
    (change : RenderTarget → Option RenderTarget) :
    (∃ e, r.hostTarget h = .error e ∧ r.writeTarget h change = .error e) ∨
      ∃ held, r.hostTarget h = .ok held ∧
        ((∃ r', r.writeTarget h change = .ok r') ∨
          r.writeTarget h change = .error (.handleBusy .target)) := by
  unfold writeTarget
  cases r.hostTarget h with
  | error e => exact .inl ⟨e, rfl, rfl⟩
  | ok held =>
    refine .inr ⟨held, rfl, ?_⟩
    simp only [bind, Except.bind]
    split
    · exact .inl ⟨_, rfl⟩
    · exact .inr rfl

end Realm

namespace World

variable {w : World} {v key : Value} {o : Object}

/-! ### Reading a handle at a key -/

/-- An object at a key that is neither a field nor a method. -/
theorem index_item (ho : w.heap.object? v = some o) (hfield : key.name?.bind (w.field? o) = none)
    (hmethod : key.name?.bind (Method.find? o.type) = none) : w.index v key = w.item o key := by
  cases v with
  | object id =>
    simp only [index, show w.heap.objects[id]? = some o from ho, objectIndex, hfield, hmethod]
  | nil | bool | int | float | text | table | closure | builtin => cases ho

/-- A number is neither a field nor a method. -/
theorem index_number (ho : w.heap.object? v = some o) (hkey : key.number?.isSome) :
    w.index v key = w.item o key := by
  have hname : key.name? = none := by
    cases key <;> first | rfl | cases hkey
  exact index_item ho (by rw [hname]; rfl) (by rw [hname]; rfl)

/-- Nor is an object. -/
theorem index_object {k : Object} (ho : w.heap.object? v = some o)
    (hk : w.heap.object? key = some k) : w.index v key = w.item o key := by
  have hname : key.name? = none := by
    cases key <;> first | rfl | cases hk
  exact index_item ho (by rw [hname]; rfl) (by rw [hname]; rfl)

theorem index_field {name : String} {read : Except CallError Value}
    (ho : w.heap.object? v = some o) (hname : (Value.ofString name).name? = some name)
    (hread : w.field? o name = some read) :
    w.index v (.ofString name) = (read.map .value).mapError .call := by
  cases v with
  | object id =>
    simp only [index, show w.heap.objects[id]? = some o from ho, objectIndex, hname,
      Option.bind_some, hread]
  | nil | bool | int | float | text | table | closure | builtin => cases ho

/-- Names of fields are read as they are written. -/
theorem name?_of_mem_keyFieldNames :
    ∀ name ∈ keyFieldNames, (Value.ofString name).name? = some name := by decide

/-- **A method is found by its name**, whether or not the object is a stale handle. -/
theorem index_method {m : Method} (ho : w.heap.object? v = some o) (hm : m.owner = o.type) :
    w.index v (.ofString m.name) = .ok (.value (.builtin (.method m))) := by
  have hname : (Value.ofString m.name).name? = some m.name := by cases m <;> decide
  have hfield : w.field? o m.name = none := by cases m <;> cases o <;> rfl
  have hmethod : Method.find? o.type m.name = some m := hm ▸ by cases m <;> decide
  cases v with
  | object id =>
    simp only [index, show w.heap.objects[id]? = some o from ho, objectIndex, hname,
      Option.bind_some, hfield, hmethod]
  | nil | bool | int | float | text | table | closure | builtin => cases ho

/-- The keys that a render target takes: numbers and keys of a board. -/
def SlotKey (w : World) (key : Value) : Prop :=
  key.number?.isSome ∨ ∃ k, w.heap.object? key = some (.key k)

theorem targetSlot_number (hnumber : key.number?.isSome) (position : Nat) :
    w.targetSlot key position = .ok key.index? := by
  cases key <;> first | rfl | cases hnumber

theorem targetSlot_key {k : KeyHandle} (hk : w.heap.object? key = some (.key k))
    (position : Nat) : w.targetSlot key position = .ok (some k.index) := by
  simp only [targetSlot, hk]

/-- **A key of a render target denotes a slot**, or is a number that is no position. -/
theorem targetSlot_of_slotKey (hkey : w.SlotKey key) (position : Nat) :
    (∃ slot, w.targetSlot key position = .ok (some slot)) ∨
      (key.number?.isSome ∧ key.index? = none) := by
  obtain hnumber | ⟨k, hk⟩ := hkey
  · cases hi : key.index? with
    | none => exact .inr ⟨hnumber, rfl⟩
    | some i => exact .inl ⟨i, (targetSlot_number hnumber position).trans (congrArg _ hi)⟩
  · exact .inl ⟨k.index, targetSlot_key hk position⟩

theorem index_target {h : TargetHandle} (ho : w.heap.object? v = some (.target h))
    (hkey : w.SlotKey key) : w.index v key = (w.targetItem h key).mapError .call := by
  obtain hnumber | ⟨k, hk⟩ := hkey
  · exact index_number ho hnumber
  · exact index_object ho hk

/-! ### What is asked for -/

theorem length_object (ho : w.heap.object? v = some o) : w.length v = w.objectLength o := by
  cases v with
  | object id => simp only [length, ho]
  | nil | bool | int | float | text | table | closure | builtin => cases ho

theorem text_object (ho : w.heap.object? v = some o) :
    w.text v = (w.objectText o).map Utf8.encode := by
  cases v with
  | object id =>
    simp only [text, show w.heap.objects[id]? = some o from ho]
    cases w.objectText o <;> rfl
  | nil | bool | int | float | text | table | closure | builtin => cases ho

theorem put_target {h : TargetHandle} (ho : w.heap.object? v = some (.target h)) (new : Value) :
    w.put v key new = (w.putSlot h key new).mapError .call := by
  cases v with
  | object id => simp only [put, ho]
  | nil | bool | int | float | text | table | closure | builtin => cases ho

theorem putSlot_of_slot {h : TargetHandle} {new : Value} {slot : Nat} {c : Rgba}
    (hslot : w.targetSlot key 2 = .ok (some slot)) (hnew : w.slotColor new 3 = .ok c) :
    w.putSlot h key new = (do
      match ← w.writeTarget h (·.set? slot c) with
      | some r => .ok (w.withRealm r)
      | none => .error (.argument "__newindex" 2 "key index out of range")) := by
  rw [putSlot, hnew, hslot]
  rfl

theorem receiver_cons {α : Type} [Exposed α] {a : α} (m : Method) (args : List Value)
    (ho : w.heap.object? v = some (Exposed.wrap a)) : w.receiver m (v :: args) = .ok a := by
  have hunwrap : Exposed.unwrap? (Exposed.wrap a) = some a :=
    (Exposed.unwrap?_eq_some _ a).mpr rfl
  simp only [receiver, ho, Option.bind_some, hunwrap]

variable {arg : Value} {more : List Value}

/-- A key code is an unsigned integer. -/
theorem keyCode_cases (v : Value) : (∃ code, keyCode v = .ok code) ∨
    keyCode v = .error (.argument "find_key_code" 2 "key code must be an unsigned integer") := by
  unfold keyCode
  split
  · split
    · exact .inl ⟨_, rfl⟩
    · exact .inr rfl
  · exact .inr rfl

theorem readMethod_findKeyCode {h : BoardHandle} (ho : w.heap.object? v = some (.board h)) :
    w.readMethod .findKeyCode (v :: arg :: more) =
      ((keyCode arg).bind fun code => (w.board h).map fun k => Datum.ofOption
        ((k.findKeyCode? code).map fun k => .key (h.key k.index))).mapError .call := by
  have hreceiver : w.receiver .findKeyCode (v :: arg :: more) = .ok h := receiver_cons _ _ ho
  have harg : argument (v :: arg :: more) 2 = arg := rfl
  simp only [readMethod, hreceiver, harg, bind, Except.bind]
  cases keyCode arg with
  | error e => rfl
  | ok code => cases w.board h <;> rfl

theorem readMethod_group {h : BoardHandle} {name : String}
    (ho : w.heap.object? v = some (.board h)) (hname : textArgument .group 2 arg = .ok name) :
    w.readMethod .group (v :: arg :: more) = ((w.board h).map fun k =>
      Datum.ofOption ((k.groupIndex? name).map fun i => .group (h.group i))).mapError .call := by
  have hreceiver : w.receiver .group (v :: arg :: more) = .ok h := receiver_cons _ _ ho
  have hname : groupName .group (v :: arg :: more) = .ok name := hname
  simp only [readMethod, hreceiver, hname, bind, Except.bind]
  cases w.board h <;> rfl

theorem readMethod_contains {h : GroupHandle} {k : KeyHandle}
    (ho : w.heap.object? v = some (.group h)) (hk : w.heap.object? arg = some (.key k)) :
    w.readMethod .contains (v :: arg :: more) =
      ((w.hasKey h k).map fun b => .value (.bool b)).mapError .call := by
  have hreceiver : w.receiver .contains (v :: arg :: more) = .ok h := receiver_cons _ _ ho
  have hcheck : w.heap.check (some (argument (v :: arg :: more) 2)) 2 = .ok k := by
    have harg : argument (v :: arg :: more) 2 = arg := rfl
    have hunwrap : Exposed.unwrap? (Object.key k) = some k :=
      (Exposed.unwrap?_eq_some _ k).mpr rfl
    simp only [Heap.check, harg, Option.bind_some, hk, hunwrap]
  simp only [readMethod, hreceiver, hcheck, bind, Except.bind, Except.mapError_ok]
  cases w.hasKey h k <;> rfl

theorem fill_target {h : TargetHandle} {c : Rgba}
    (ho : w.heap.object? v = some (.target h)) (hc : w.slotColor arg 2 = .ok c) :
    w.fill (v :: arg :: more) = ((w.writeTarget h fun t => some (t.fill c)).map fun written =>
      (written.map w.withRealm).getD w).mapError .call := by
  have hreceiver : w.receiver .fill (v :: arg :: more) = .ok h := receiver_cons _ _ ho
  have hc : w.slotColor (argument (v :: arg :: more) 2) 2 = .ok c := hc
  simp only [fill, hreceiver, hc, bind, Except.bind, Except.mapError_ok]
  cases w.writeTarget h fun t => some (t.fill c) with
  | error e => rfl
  | ok written => cases written <;> rfl

end World

end KeyLight
