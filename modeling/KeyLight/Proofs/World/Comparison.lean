import KeyLight.Proofs.World.Asking
import KeyLight.Proofs.World.Plain

/-!
# What comparing objects decides

Two colours stand for the same if they have the same red, green and blue, two handles on threads if
they have the same thread, and two handles on keys if they have the same place of the same board
(`Object.Alike`). Comparing two objects decides this, whether the handles are live or stale, as long
as the type on the left says how to compare, or the type on the right does not say it either
(`World.equal_of_comparable`). A type on the right that does is asked in vain
(`World.equal_of_not_comparable`).
-/

namespace KeyLight

/-- Two objects stand for the same. -/
inductive Object.Alike : Object → Object → Prop
  | color {a b : Rgba} (red : a.red = b.red) (green : a.green = b.green) (blue : a.blue = b.blue) :
      Alike (.color a) (.color b)
  | thread {a b : ThreadHandle} (id : a.id = b.id) : Alike (.thread a) (.thread b)
  | key {a b : KeyHandle} (board : a.board.board = b.board.board) (index : a.index = b.index) :
      Alike (.key a) (.key b)

namespace Object.Alike

variable {x y z : Object}

theorem symm (h : x.Alike y) : y.Alike x := by
  cases h with
  | color red green blue => exact .color red.symm green.symm blue.symm
  | thread id => exact .thread id.symm
  | key board index => exact .key board.symm index.symm

theorem type_eq (h : x.Alike y) : x.type = y.type := by
  cases h <;> rfl

/-- Only objects of types that say how to compare stand for the same. -/
theorem comparesContents (h : x.Alike y) : World.comparesContents x.type = true := by
  cases h <;> rfl

end Object.Alike

/-- Two handles on keys stand for the same just if they name one place of one board. -/
theorem Object.alike_key_iff {a b : KeyHandle} : (Object.key a).Alike (.key b) ↔
    a.board.board = b.board.board ∧ a.index = b.index :=
  ⟨fun h => by cases h with | key board index => exact ⟨board, index⟩, fun h => .key h.1 h.2⟩

namespace World

variable {w w' : World} {a b : Value} {x y : Object}

theorem sameContents_iff : sameContents x y = true ↔ x.Alike y := by
  constructor
  · intro h
    cases x with
    | color c =>
      cases y with
      | color c' =>
        simp only [sameContents, Rgba.agrees, Rgba.rgb, beq_iff_eq, Rgb.mk.injEq] at h
        exact .color h.1 h.2.1 h.2.2
      | _ => cases h
    | thread t =>
      cases y with
      | thread t' => exact .thread (beq_iff_eq.mp h)
      | _ => cases h
    | key k =>
      cases y with
      | key k' =>
        simp only [sameContents, Bool.and_eq_true, beq_iff_eq] at h
        exact .key h.2 h.1
      | _ => cases h
    | _ => cases h
  · intro h
    cases h with
    | color red green blue => simp [sameContents, Rgba.agrees, Rgba.rgb, red, green, blue]
    | thread id => exact beq_iff_eq.mpr id
    | key board index => simp [sameContents, board, index]

/-- Two values that refer to objects are the same if they refer to one object. -/
theorem sameAs_iff_eq (ha : w.heap.object? a = some x) (hb : w.heap.object? b = some y) :
    a.sameAs b = true ↔ a = b := by
  cases a with
  | object id =>
    cases b with
    | object id' => exact decide_eq_true_iff
    | nil | bool | int | float | text | table | closure | builtin => cases hb
  | nil | bool | int | float | text | table | closure | builtin => cases ha

theorem equal_self (ha : w.heap.object? a = some x) : w.equal a a = .ok true := by
  rw [equal, if_pos ((sameAs_iff_eq ha ha).mpr rfl)]

theorem equal_of_ne (ha : w.heap.object? a = some x) (hb : w.heap.object? b = some y)
    (hne : a ≠ b) : w.equal a b = compareObjects x y := by
  rw [equal, if_neg fun hsame => hne ((sameAs_iff_eq ha hb).mp hsame)]
  simp only [ha, hb]

/-- **Comparing two objects** decides whether they stand for the same, if the type on the left says
how to compare or no type does. -/
theorem equal_of_comparable (ha : w.heap.object? a = some x) (hb : w.heap.object? b = some y)
    (hcomparable : comparesContents x.type = true ∨ comparesContents y.type = false) :
    ∃ r, w.equal a b = .ok r ∧ (r = true ↔ a = b ∨ x.Alike y) := by
  by_cases hab : a = b
  · subst hab
    exact ⟨true, equal_self ha, iff_of_true rfl (.inl rfl)⟩
  rw [equal_of_ne ha hb hab, compareObjects]
  by_cases hleft : comparesContents x.type = true
  · exact ⟨sameContents x y, if_pos hleft, by rw [sameContents_iff, or_iff_right hab]⟩
  · have hright := hcomparable.resolve_left hleft
    refine ⟨false, by rw [if_neg hleft, hright]; rfl, iff_of_false nofun ?_⟩
    exact not_or.mpr ⟨hab, fun halike => hleft halike.comparesContents⟩

/-- **A type on the right that says how to compare is asked in vain**: it takes only an object of
its own on the left. -/
theorem equal_of_not_comparable (ha : w.heap.object? a = some x)
    (hb : w.heap.object? b = some y) (hne : a ≠ b) (hleft : comparesContents x.type = false)
    (hright : comparesContents y.type = true) :
    w.equal a b = .error (.conversion ("bad argument \x60self\x60 to \x60" ++
      y.type.methodOwner ++ ".__eq\x60: userdata is not expected type")) := by
  rw [equal_of_ne ha hb hne, compareObjects, hleft, hright]
  rfl

/-- What comparing two objects comes to depends on the objects alone. -/
theorem equal_eq_of_objects (ha : w.heap.object? a = some x) (hb : w.heap.object? b = some y)
    (ha' : w'.heap.object? a = some x) (hb' : w'.heap.object? b = some y) :
    w'.equal a b = w.equal a b := by
  by_cases hab : a = b
  · subst hab
    rw [equal_self ha, equal_self ha']
  · rw [equal_of_ne ha hb hab, equal_of_ne ha' hb' hab]

/-! ### Keys -/

/-- **Two handles on keys are equal just if they name one place of one board**, whenever they were
leased. -/
theorem equal_keys_eq {h h' : KeyHandle} (ha : w.heap.object? a = some (.key h))
    (hb : w.heap.object? b = some (.key h')) :
    w.equal a b = .ok (decide (h.board.board = h'.board.board ∧ h.index = h'.index)) := by
  obtain ⟨r, hr, hiff⟩ := equal_of_comparable ha hb (.inl rfl)
  rw [hr, Except.ok.injEq, Bool.eq_iff_iff, hiff, decide_eq_true_iff, Object.alike_key_iff]
  refine or_iff_right_of_imp ?_
  rintro rfl
  obtain rfl := Object.key.inj (Option.some.inj (ha.symm.trans hb))
  exact ⟨rfl, rfl⟩

theorem equal_keys_iff {h h' : KeyHandle} (ha : w.heap.object? a = some (.key h))
    (hb : w.heap.object? b = some (.key h')) :
    w.equal a b = .ok true ↔ h.board.board = h'.board.board ∧ h.index = h'.index := by
  rw [equal_keys_eq ha hb, Except.ok.injEq, decide_eq_true_iff]

/-- Equality of handles on keys is an equivalence. -/
theorem equivalence_equal_keys (w : World) :
    Equivalence fun a b : { v : Value // ∃ h, w.heap.object? v = some (.key h) } =>
      w.equal a b = .ok true where
  refl := fun ⟨_, _, ha⟩ => equal_self ha
  symm := fun {a b} hab => by
    obtain ⟨a, h, ha⟩ := a
    obtain ⟨b, h', hb⟩ := b
    obtain ⟨hboard, hindex⟩ := (equal_keys_iff ha hb).mp hab
    exact (equal_keys_iff hb ha).mpr ⟨hboard.symm, hindex.symm⟩
  trans := fun {a b c} hab hbc => by
    obtain ⟨a, h, ha⟩ := a
    obtain ⟨b, h', hb⟩ := b
    obtain ⟨c, h'', hc⟩ := c
    obtain ⟨hboard, hindex⟩ := (equal_keys_iff ha hb).mp hab
    obtain ⟨hboard', hindex'⟩ := (equal_keys_iff hb hc).mp hbc
    exact (equal_keys_iff ha hc).mpr ⟨hboard.trans hboard', hindex.trans hindex'⟩

end World

end KeyLight
