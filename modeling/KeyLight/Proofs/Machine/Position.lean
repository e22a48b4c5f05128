import KeyLight.Proofs.Host.Change
import KeyLight.Proofs.Machine.Refusal
import KeyLight.Proofs.Number.Integer

/-!
# Positions counted from one

A handle on a board, a group or a render target that can be read holds a row of objects
(`World.Row`): handles on keys, or colours. A number reaches the entry of the row that it counts from
one, and no other number reaches it, whether it is an integer that is rounded when it is read or a
floating-point number (`Machine.access_index_row`). A render target that the host is writing answers
a number that denotes no place, and reports that it is busy otherwise (`Machine.access_index_busy`).

A board also finds its keys by their key codes, the first one if several have the same
(`Machine.access_findKeyCode`).
-/

namespace KeyLight

/-! ### Numbers and rows -/

/-- **A number finds the entry of a row that it counts from one**, and nothing else. -/
theorem Value.index?_bind_eq_some_iff {α : Type} {row : List α}
    (hrow : row.length < Binary64.exactBound) {n : Value} {x : α} :
    n.index?.bind (row[·]?) = some x ↔ ∃ i, row[i]? = some x ∧ n.IsInteger (i + 1 : Nat) := by
  have hplace (i : Nat) (hx : row[i]? = some x) :
      n.index? = some i ↔ n.IsInteger (i + 1 : Nat) := by
    have hi : i < row.length := (List.getElem?_eq_some_iff.mp hx).1
    exact index?_eq_some_iff (by omega)
  rw [Option.bind_eq_some_iff]
  exact exists_congr fun i =>
    ⟨fun ⟨hi, hx⟩ => ⟨hx, (hplace i hx).mp hi⟩, fun ⟨hx, hi⟩ => ⟨(hplace i hx).mpr hi, hx⟩⟩

/-- A number that counts no entry of a row finds nothing. -/
theorem Value.index?_bind_eq_none {α : Type} {row : List α}
    (hrow : row.length < Binary64.exactBound) {n : Value}
    (hn : ∀ i < row.length, ¬n.IsInteger (i + 1 : Nat)) : n.index?.bind (row[·]?) = none := by
  rw [Option.eq_none_iff_forall_ne_some]
  intro x hx
  obtain ⟨i, hi, hinteger⟩ := (index?_bind_eq_some_iff hrow).mp hx
  exact hn i (List.getElem?_eq_some_iff.mp hi).1 hinteger

/-- The first key with a property is found at its place. -/
theorem Keyboard.find?_eq_key? (k : Keyboard) {p : Key → Bool} {i : Nat} {key : Key}
    (hkey : k.key? i = some key) (hp : p key = true)
    (hfirst : ∀ j < i, ∀ other, k.key? j = some other → p other = false) :
    k.keys.find? p = k.key? i := by
  obtain ⟨hi, rfl⟩ := List.getElem?_eq_some_iff.mp hkey
  rw [hkey, List.find?_eq_some_iff_getElem]
  refine ⟨hp, i, hi, rfl, fun j hj => ?_⟩
  rw [hfirst j hj _ (List.getElem?_eq_getElem (Nat.lt_trans hj hi))]
  rfl

/-- A place of a board that holds the first key with a key code. -/
structure Keyboard.FirstOfCode (k : Keyboard) (code i : Nat) : Prop where
  found : ∃ key, k.key? i = some key ∧ key.keyCode = code
  first : ∀ j < i, ∀ key, k.key? j = some key → key.keyCode ≠ code

theorem Keyboard.FirstOfCode.findKeyCode? {k : Keyboard} {code i : Nat}
    (h : k.FirstOfCode code i) : k.findKeyCode? code = k.key? i := by
  obtain ⟨key, hkey, hcode⟩ := h.found
  exact k.find?_eq_key? hkey (beq_iff_eq.mpr hcode) fun j hj other hother =>
    beq_eq_false_iff_ne.mpr (h.first j hj other hother)

namespace World

variable {w : World} {v n : Value} {row : List Object}

/-! ### Reading a row -/

/-- The row of objects that a handle holds, if it can be read. -/
inductive Row (w : World) (v : Value) : List Object → Prop
  | board {h : BoardHandle} {k : Keyboard} (ho : w.heap.object? v = some (.board h))
      (hk : w.board h = .ok k) : Row w v ((List.range k.size).map fun i => .key (h.key i))
  | group {h : GroupHandle} {g : KeyGroup} (ho : w.heap.object? v = some (.group h))
      (hg : w.group h = .ok g) : Row w v (g.keys.map fun i => .key (h.board.key i))
  | target {h : TargetHandle} {held : HostTarget} (ho : w.heap.object? v = some (.target h))
      (hheld : w.hostTarget h = .ok held) (hhold : held.hold ≠ .writing) :
      Row w v (held.target.colors.map .color)

theorem board?_of_board {h : BoardHandle} {k : Keyboard} (hk : w.board h = .ok k) :
    w.host.board? h.board = some k := by
  unfold Realm.board at hk
  split at hk
  · split at hk
    · cases hk
      assumption
    · cases hk
  · cases hk

/-- The length of a handle is that of its row. -/
theorem Row.length (hrow : w.Row v row) : w.length v = .ok row.length := by
  cases hrow with
  | board ho hk =>
    rw [length_object ho, objectLength, hk, List.length_map, List.length_range]
    rfl
  | group ho hg =>
    rw [length_object ho, objectLength, hg, List.length_map]
    rfl
  | target ho hheld hhold =>
    rw [length_object ho, objectLength, Realm.readTarget_of_hold hheld hhold, List.length_map]
    rfl

/-- The keys of a board are at the places that they are numbered by. -/
theorem boardKey?_map {k : Keyboard} (hk : k.Normal) (hn : n.number?.isSome) (h : BoardHandle) :
    (boardKey? k n).map (fun key => Object.key (h.key key.index)) =
      n.index?.bind (((List.range k.size).map fun i => Object.key (h.key i))[·]?) := by
  have hkey : boardKey? k n = n.index?.bind k.key? := by
    cases n <;> first | rfl | cases hn
  rw [hkey]
  cases n.index? with
  | none => rfl
  | some i =>
    simp only [Option.bind_some, List.getElem?_map]
    cases hi : k.key? i with
    | none =>
      have hge : k.size ≤ i := List.getElem?_eq_none_iff.mp hi
      simp [Nat.not_lt_of_le hge]
    | some key =>
      have hlt : i < k.size := (List.getElem?_eq_some_iff.mp hi).1
      simp [hlt, hk.numbered i key hi]

/-- A handle that can be read holds at a number what its row has at the place of the number. -/
theorem Row.index (hrow : w.Row v row) (hnormal : w.host.Normal) (hn : n.number?.isSome) :
    w.index v n = .ok (.ofOption (n.index?.bind (row[·]?))) := by
  cases hrow with
  | @board h k ho hk =>
    have hk' : k.Normal := hnormal _ k (board?_of_board hk)
    rw [index_number ho hn, item, boardItem, hk, ← boardKey?_map hk' hn]
    rfl
  | group ho hg =>
    rw [index_number ho hn, item, groupItem, hg]
    cases n.index? with
    | none => rfl
    | some i => simp only [Option.bind_some, List.getElem?_map]; rfl
  | target ho hheld hhold =>
    rw [index_target ho (.inl hn), targetItem, targetSlot_number hn,
      Realm.readTarget_of_hold hheld hhold]
    cases n.index? with
    | none => rfl
    | some i => simp only [Option.bind_some, List.getElem?_map]; rfl

/-- **A render target that the host is writing** is not asked for at a number that denotes no place,
and is busy at any other number. -/
theorem index_busy {h : TargetHandle} {held : HostTarget}
    (ho : w.heap.object? v = some (.target h)) (hheld : w.hostTarget h = .ok held)
    (hhold : held.hold = .writing) (hn : n.number?.isSome) :
    w.index v n = if n.index?.isSome then .error (.call (.handleBusy .target))
      else .ok (.value .nil) := by
  rw [index_target ho (.inl hn), targetItem, targetSlot_number hn]
  cases n.index? with
  | none => rfl
  | some i =>
    simp only [Realm.readTarget, hheld, bind, Except.bind, if_pos hhold]
    rfl

/-! ### Finding key codes -/

/-- **A key code is an integer of 32 bits without a sign.** -/
theorem keyCode_eq_ok_iff {code : Nat} :
    keyCode n = .ok code ↔ code < UInt32.size ∧ n.IsInteger code := by
  have hsize : UInt32.size < Binary64.exactBound := by decide
  have hread : keyCode n = .ok code ↔ code < UInt32.size ∧ n.roundedInt? = some (code : Int) := by
    unfold keyCode
    cases n.roundedInt? with
    | none => simp
    | some m =>
      simp only [Option.some_inj]
      split
      · rw [Except.ok.injEq]
        omega
      · refine iff_of_false nofun ?_
        omega
  rw [hread]
  exact and_congr_right fun hcode => Value.roundedInt?_eq_some_iff (by omega)

end World

namespace Machine

variable {place : Place} {w : World} {scope : Scope} {frames : List Frame} {v n : Value}
variable {row : List Object}

/-- **A number gives the entry of a row that it counts from one**, and nil if there is none. -/
theorem access_index_row (hrow : w.Row v row) (hnormal : w.host.Normal)
    (hsize : row.length < Binary64.exactBound) (hn : n.number?.isSome) :
    (∀ i o, row[i]? = some o → n.IsInteger (i + 1 : Nat) →
      access place w scope frames (.index v n) =
        .running (w.newObject o).2 (.give (w.newObject o).1) frames) ∧
    ((∀ i < row.length, ¬n.IsInteger (i + 1 : Nat)) →
      access place w scope frames (.index v n) = .running w (.give .nil) frames) := by
  refine ⟨fun i o ho hi => ?_, fun hnone => ?_⟩
  · have hfound := (Value.index?_bind_eq_some_iff hsize).mpr ⟨i, ho, hi⟩
    rw [access_index, hrow.index hnormal hn, hfound]
    rfl
  · rw [access_index, hrow.index hnormal hn, Value.index?_bind_eq_none hsize hnone]
    rfl

/-- **A render target that the host is writing** is busy at the integers from one on, and answers
any other number with nil. -/
theorem access_index_busy {h : TargetHandle} {held : HostTarget}
    (ho : w.heap.object? v = some (.target h)) (hheld : w.hostTarget h = .ok held)
    (hhold : held.hold = .writing) (hn : n.number?.isSome) :
    ((∃ m : Int, 1 ≤ m ∧ n.IsInteger m) → access place w scope frames (.index v n) =
      .running w (.raise (.call (.handleBusy .target))) frames) ∧
    ((∀ m : Int, 1 ≤ m → ¬n.IsInteger m) →
      access place w scope frames (.index v n) = .running w (.give .nil) frames) := by
  rw [access_index, World.index_busy ho hheld hhold hn]
  refine ⟨fun hplace => ?_, fun hnone => ?_⟩
  · rw [if_pos (Value.isSome_index?_iff.mpr hplace)]
    rfl
  · have hno : ¬n.index?.isSome := fun hplace => by
      obtain ⟨m, hm, hinteger⟩ := Value.isSome_index?_iff.mp hplace
      exact hnone m hm hinteger
    rw [if_neg hno]
    rfl

/-- **A board that is asked for a key code** gives the first key that has it, and nil if there is
none. Any number but an integer of 32 bits without a sign is refused. -/
theorem access_findKeyCode {h : BoardHandle} {k : Keyboard}
    (ho : w.heap.object? v = some (.board h)) (hk : w.board h = .ok k)
    (hnormal : w.host.Normal) (more : List Value) :
    ((∀ code < UInt32.size, ¬n.IsInteger code) →
      access place w scope frames (.call .findKeyCode v n more) = .running w (.raise (.call
        (.argument "find_key_code" 2 "key code must be an unsigned integer"))) frames) ∧
    ∀ code < UInt32.size, n.IsInteger code →
      (∀ i, k.FirstOfCode code i →
        access place w scope frames (.call .findKeyCode v n more) =
          .running (w.newObject (.key (h.key i))).2 (.give (w.newObject (.key (h.key i))).1)
            frames) ∧
      ((∀ key ∈ k.keys, key.keyCode ≠ code) →
        access place w scope frames (.call .findKeyCode v n more) =
          .running w (.give .nil) frames) := by
  have hcall : access place w scope frames (.call .findKeyCode v n more) =
      replyDatum w frames (w.readMethod .findKeyCode (v :: n :: more)) :=
    access_call (m := .findKeyCode) nofun v n more
  rw [World.readMethod_findKeyCode ho, hk] at hcall
  refine ⟨fun hnone => ?_, fun code hcode hinteger => ?_⟩
  · obtain ⟨code, hread⟩ | hread := World.keyCode_cases n
    · obtain ⟨hcode, hinteger⟩ := World.keyCode_eq_ok_iff.mp hread
      exact absurd hinteger (hnone code hcode)
    · rw [hcall, hread]
      rfl
  · rw [World.keyCode_eq_ok_iff.mpr ⟨hcode, hinteger⟩] at hcall
    refine ⟨fun i hi => ?_, fun hnone => ?_⟩
    · obtain ⟨key, hkey, -⟩ := hi.found
      have hindex : key.index = i := (hnormal _ k (World.board?_of_board hk)).numbered i key hkey
      have hfound : k.findKeyCode? code = some key := hi.findKeyCode?.trans hkey
      simp only [hcall, Except.bind, Except.map, hfound, Option.map_some, hindex]
      rfl
    · have hlost : k.findKeyCode? code = none :=
        List.find?_eq_none.mpr fun key hkey => by simpa using hnone key hkey
      simp only [hcall, Except.bind, Except.map, hlost, Option.map_none]
      rfl

end Machine

end KeyLight
