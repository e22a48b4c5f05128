import KeyLight.Layout.Json
import KeyLight.Proofs.Host.Change
import KeyLight.Proofs.Json.RoundTrip

/-!
# Layouts and their texts

A layout that is read has the keys that are given, numbered by their positions whatever numbers they
are given, and the groups that are given without the entries that no key has. To number and prune it
once more changes nothing, and it is read back from its own text
(`Keyboard.read_layouts_are_read_back`).

The numbers in a layout are words: key codes and coordinates have 32 bits, indices and the entries
of groups 64 (`Keyboard.Fits`). Every layout that is given in a text fits, and every layout that
fits is read back as it is written (`Keyboard.given?_toText`).
-/

namespace KeyLight

variable {j : Json}

/-! ### Components -/

namespace Json

variable {α : Type} {P : α → Prop} {read : Json → Option α} {component : Option Json} {a : α}

theorem lt_of_natBelow? {bound n : Nat} (h : j.natBelow? bound = some n) : n < bound := by
  unfold natBelow? at h
  split at h
  · split at h
    · rename_i hbound
      obtain rfl := Option.some.inj h
      omega
    · cases h
  · cases h

/-- What holds of all that is read holds of a component. -/
theorem of_required (hread : ∀ {j a}, read j = some a → P a)
    (h : required read component = some a) : P a := by
  obtain ⟨j, -, hj⟩ := Option.bind_eq_some_iff.mp h
  exact hread hj

theorem of_optional {fallback : α} (hread : ∀ {j a}, read j = some a → P a)
    (hfallback : P fallback) (h : optional fallback read component = some a) : P a := by
  cases component with
  | none => exact Option.some.inj h ▸ hfallback
  | some j => exact hread h

theorem of_listOf? {as : List α} (hread : ∀ {j a}, read j = some a → P a)
    (h : j.listOf? read = some as) : ∀ a ∈ as, P a := by
  unfold listOf? at h
  split at h
  · rename_i items
    induction items generalizing as with
    | nil =>
      obtain rfl := Option.some.inj h
      exact List.forall_mem_nil P
    | cons item items ih =>
      rw [List.mapM_cons] at h
      obtain ⟨a, ha, h⟩ := Option.bind_eq_some_iff.mp h
      obtain ⟨as, has, h⟩ := Option.bind_eq_some_iff.mp h
      obtain rfl := Option.some.inj h
      exact List.forall_mem_cons.mpr ⟨hread ha, ih has⟩
  · cases h

/-- A record of values whose numbers are integers. -/
theorem isWhole_record {fields : List (String × Json)} (h : ∀ field ∈ fields, field.2.IsWhole) :
    (record fields).IsWhole := by
  refine .object fun field hfield => ?_
  obtain ⟨given, hgiven, rfl⟩ := List.mem_map.mp hfield
  exact h given hgiven

theorem isWhole_array {write : α → Json} (h : ∀ a, (write a).IsWhole) (as : List α) :
    (array (as.map write)).IsWhole := by
  refine .array fun j hj => ?_
  obtain ⟨a, -, rfl⟩ := List.mem_map.mp hj
  exact h a

end Json

theorem word32OfJson?_natToJson {n : Nat} (h : n < UInt32.size) :
    word32OfJson? (natToJson n) = some n := Json.natBelow?_integer h

theorem word64OfJson?_natToJson {n : Nat} (h : n < UInt64.size) :
    word64OfJson? (natToJson n) = some n := Json.natBelow?_integer h

theorem lt_of_required_word32 {component : Option Json} {n : Nat}
    (h : Json.required word32OfJson? component = some n) : n < UInt32.size :=
  Json.of_required (P := (· < UInt32.size)) Json.lt_of_natBelow? h

-- Each record is read component by component, which is stated for any components that there are:
-- with those of a record that is written in their place, bounds of 32 and 64 bits would be unfolded.

/-! ### Boxes -/

namespace KeyRect

variable {r : KeyRect}

/-- The coordinates are words. -/
structure Fits (r : KeyRect) : Prop where
  x0 : r.x0 < UInt32.size
  y0 : r.y0 < UInt32.size
  x1 : r.x1 < UInt32.size
  y1 : r.y1 < UInt32.size

theorem fits_zero : zero.Fits := by constructor <;> decide

/-- A box is read component by component. -/
theorem ofJson?_eq_some_iff : ofJson? j = some r ↔
    ∃ x0 y0 x1 y1, j.components? ["x0", "y0", "x1", "y1"] = some [x0, y0, x1, y1] ∧
      Json.required word32OfJson? x0 = some r.x0 ∧ Json.required word32OfJson? y0 = some r.y0 ∧
      Json.required word32OfJson? x1 = some r.x1 ∧ Json.required word32OfJson? y1 = some r.y1 := by
  constructor
  · intro h
    obtain ⟨components, hcomponents, h⟩ := Option.bind_eq_some_iff.mp h
    split at h
    · rename_i x0 y0 x1 y1
      obtain ⟨_, hx0, h⟩ := Option.bind_eq_some_iff.mp h
      obtain ⟨_, hy0, h⟩ := Option.bind_eq_some_iff.mp h
      obtain ⟨_, hx1, h⟩ := Option.bind_eq_some_iff.mp h
      obtain ⟨_, hy1, h⟩ := Option.bind_eq_some_iff.mp h
      obtain rfl := Option.some.inj h
      exact ⟨x0, y0, x1, y1, hcomponents, hx0, hy0, hx1, hy1⟩
    · cases h
  · rintro ⟨x0, y0, x1, y1, hcomponents, hx0, hy0, hx1, hy1⟩
    simp only [ofJson?, hcomponents, hx0, hy0, hx1, hy1, Option.bind_eq_bind, Option.bind_some]

theorem ofJson?_toJson (h : r.Fits) : ofJson? r.toJson = some r :=
  ofJson?_eq_some_iff.mpr ⟨_, _, _, _, Json.components?_record (by simp),
    Json.required_some (word32OfJson?_natToJson h.x0),
    Json.required_some (word32OfJson?_natToJson h.y0),
    Json.required_some (word32OfJson?_natToJson h.x1),
    Json.required_some (word32OfJson?_natToJson h.y1)⟩

theorem fits_of_ofJson? (h : ofJson? j = some r) : r.Fits := by
  obtain ⟨x0, y0, x1, y1, -, hx0, hy0, hx1, hy1⟩ := ofJson?_eq_some_iff.mp h
  exact ⟨lt_of_required_word32 hx0, lt_of_required_word32 hy0, lt_of_required_word32 hx1,
    lt_of_required_word32 hy1⟩

theorem isWhole_toJson (r : KeyRect) : r.toJson.IsWhole := by
  refine Json.isWhole_record ?_
  simp only [List.forall_mem_cons]
  exact ⟨.integer _, .integer _, .integer _, .integer _, List.forall_mem_nil _⟩

end KeyRect

/-! ### Keys -/

namespace Key

variable {k : Key}

/-- The numbers of a key are words. -/
structure Fits (k : Key) : Prop where
  index : k.index < UInt64.size
  keyCode : k.keyCode < UInt32.size
  position : k.position.Fits

/-- A key is read component by component. -/
theorem ofJson?_eq_some_iff : ofJson? j = some k ↔
    ∃ index keyCode name position,
      j.components? ["index", "key_code", "name", "position"] =
        some [index, keyCode, name, position] ∧
      Json.optional 0 word64OfJson? index = some k.index ∧
      Json.required word32OfJson? keyCode = some k.keyCode ∧
      Json.required Json.toString? name = some k.name ∧
      Json.optional .zero KeyRect.ofJson? position = some k.position := by
  constructor
  · intro h
    obtain ⟨components, hcomponents, h⟩ := Option.bind_eq_some_iff.mp h
    split at h
    · rename_i index keyCode name position
      obtain ⟨_, hindex, h⟩ := Option.bind_eq_some_iff.mp h
      obtain ⟨_, hkeyCode, h⟩ := Option.bind_eq_some_iff.mp h
      obtain ⟨_, hname, h⟩ := Option.bind_eq_some_iff.mp h
      obtain ⟨_, hposition, h⟩ := Option.bind_eq_some_iff.mp h
      obtain rfl := Option.some.inj h
      exact ⟨index, keyCode, name, position, hcomponents, hindex, hkeyCode, hname, hposition⟩
    · cases h
  · rintro ⟨index, keyCode, name, position, hcomponents, hindex, hkeyCode, hname, hposition⟩
    simp only [ofJson?, hcomponents, hindex, hkeyCode, hname, hposition, Option.bind_eq_bind,
      Option.bind_some]

theorem ofJson?_toJson (h : k.Fits) : ofJson? k.toJson = some k :=
  ofJson?_eq_some_iff.mpr ⟨_, _, _, _, Json.components?_record (by simp),
    Json.optional_some (word64OfJson?_natToJson h.index),
    Json.required_some (word32OfJson?_natToJson h.keyCode), Json.required_some rfl,
    Json.optional_some (KeyRect.ofJson?_toJson h.position)⟩

theorem fits_of_ofJson? (h : ofJson? j = some k) : k.Fits := by
  obtain ⟨index, keyCode, name, position, -, hindex, hkeyCode, -, hposition⟩ :=
    ofJson?_eq_some_iff.mp h
  exact ⟨Json.of_optional (P := (· < UInt64.size)) Json.lt_of_natBelow? (by decide) hindex,
    lt_of_required_word32 hkeyCode,
    Json.of_optional KeyRect.fits_of_ofJson? KeyRect.fits_zero hposition⟩

theorem isWhole_toJson (k : Key) : k.toJson.IsWhole := by
  refine Json.isWhole_record ?_
  simp only [List.forall_mem_cons]
  exact ⟨.integer _, .integer _, .string _, k.position.isWhole_toJson, List.forall_mem_nil _⟩

end Key

/-! ### Groups -/

namespace KeyGroup

variable {g : KeyGroup}

/-- The entries of a group are words. -/
def Fits (g : KeyGroup) : Prop := ∀ i ∈ g.keys, i < UInt64.size

/-- A group is read component by component. -/
theorem ofJson?_eq_some_iff : ofJson? j = some g ↔
    ∃ name keys, j.components? ["name", "keys"] = some [name, keys] ∧
      Json.required Json.toString? name = some g.name ∧
      Json.required (Json.listOf? word64OfJson?) keys = some g.keys := by
  constructor
  · intro h
    obtain ⟨components, hcomponents, h⟩ := Option.bind_eq_some_iff.mp h
    split at h
    · rename_i name keys
      obtain ⟨_, hname, h⟩ := Option.bind_eq_some_iff.mp h
      obtain ⟨_, hkeys, h⟩ := Option.bind_eq_some_iff.mp h
      obtain rfl := Option.some.inj h
      exact ⟨name, keys, hcomponents, hname, hkeys⟩
    · cases h
  · rintro ⟨name, keys, hcomponents, hname, hkeys⟩
    simp only [ofJson?, hcomponents, hname, hkeys, Option.bind_eq_bind, Option.bind_some]

theorem ofJson?_toJson (h : g.Fits) : ofJson? g.toJson = some g :=
  ofJson?_eq_some_iff.mpr ⟨_, _, Json.components?_record (by simp), Json.required_some rfl,
    Json.required_some (Json.listOf?_array fun i hi => word64OfJson?_natToJson (h i hi))⟩

theorem fits_of_ofJson? (h : ofJson? j = some g) : g.Fits := by
  obtain ⟨name, keys, -, -, hkeys⟩ := ofJson?_eq_some_iff.mp h
  obtain ⟨items, -, hitems⟩ := Option.bind_eq_some_iff.mp hkeys
  exact Json.of_listOf? (P := (· < UInt64.size)) Json.lt_of_natBelow? hitems

theorem isWhole_toJson (g : KeyGroup) : g.toJson.IsWhole := by
  refine Json.isWhole_record ?_
  simp only [List.forall_mem_cons]
  exact ⟨.string _, Json.isWhole_array (fun n : Nat => .integer n) g.keys, List.forall_mem_nil _⟩

end KeyGroup

/-! ### Boards -/

namespace Keyboard

variable {k given : Keyboard} {text : String}

/-- The numbers of all keys and groups are words. -/
structure Fits (k : Keyboard) : Prop where
  keys : ∀ key ∈ k.keys, key.Fits
  groups : ∀ g ∈ k.groups, g.Fits

/-- A board is read component by component. -/
theorem ofJson?_eq_some_iff : ofJson? j = some k ↔
    ∃ keys groups, j.components? ["keys", "groups"] = some [keys, groups] ∧
      Json.required (Json.listOf? Key.ofJson?) keys = some k.keys ∧
      Json.optional [] (Json.listOf? KeyGroup.ofJson?) groups = some k.groups := by
  constructor
  · intro h
    obtain ⟨components, hcomponents, h⟩ := Option.bind_eq_some_iff.mp h
    split at h
    · rename_i keys groups
      obtain ⟨_, hkeys, h⟩ := Option.bind_eq_some_iff.mp h
      obtain ⟨_, hgroups, h⟩ := Option.bind_eq_some_iff.mp h
      obtain rfl := Option.some.inj h
      exact ⟨keys, groups, hcomponents, hkeys, hgroups⟩
    · cases h
  · rintro ⟨keys, groups, hcomponents, hkeys, hgroups⟩
    simp only [ofJson?, hcomponents, hkeys, hgroups, Option.bind_eq_bind, Option.bind_some]

theorem ofJson?_toJson (h : k.Fits) : ofJson? k.toJson = some k :=
  ofJson?_eq_some_iff.mpr ⟨_, _, Json.components?_record (by simp),
    Json.required_some (Json.listOf?_array fun key hkey => Key.ofJson?_toJson (h.keys key hkey)),
    Json.optional_some (Json.listOf?_array fun g hg => KeyGroup.ofJson?_toJson (h.groups g hg))⟩

theorem fits_of_ofJson? (h : ofJson? j = some k) : k.Fits := by
  obtain ⟨keys, groups, -, hkeys, hgroups⟩ := ofJson?_eq_some_iff.mp h
  exact ⟨Json.of_required (fun h => Json.of_listOf? Key.fits_of_ofJson? h) hkeys,
    Json.of_optional (fun h => Json.of_listOf? KeyGroup.fits_of_ofJson? h)
      (List.forall_mem_nil _) hgroups⟩

theorem isWhole_toJson (k : Keyboard) : k.toJson.IsWhole := by
  refine Json.isWhole_record ?_
  simp only [List.forall_mem_cons]
  exact ⟨Json.isWhole_array Key.isWhole_toJson k.keys,
    Json.isWhole_array KeyGroup.isWhole_toJson k.groups, List.forall_mem_nil _⟩

/-- The keys and groups of a text as it gives them. -/
def given? (text : String) : Option Keyboard := (Json.parse? text).bind ofJson?

theorem ofText?_eq (text : String) :
    ofText? text = (given? text).map fun given => normal given.keys given.groups := by
  rw [ofText?, given?]
  cases Json.parse? text with
  | none => rfl
  | some j => cases h : ofJson? j <;> simp [h]

theorem fits_of_given? (h : given? text = some given) : given.Fits := by
  obtain ⟨j, -, hj⟩ := Option.bind_eq_some_iff.mp h
  exact fits_of_ofJson? hj

/-- A layout that fits is read back as it is written. -/
theorem given?_toText (h : k.Fits) : given? k.toText = some k := by
  rw [given?, toText, Json.parse?_render k.isWhole_toJson, Option.bind_some, ofJson?_toJson h]

/-! ### Numbering and pruning -/

/-- A normal board is numbered and pruned already. -/
theorem Normal.normal_eq (h : k.Normal) : normal k.keys k.groups = k := by
  -- each key is numbered by its position already, and no entry is dropped
  have hkeys : number 0 k.keys = k.keys := List.ext_getElem? fun i => by
    rw [getElem?_number, Nat.zero_add]
    cases hkey : k.keys[i]? with
    | none => rfl
    | some key => rw [Option.map_some, ← h.numbered i key hkey]
  have hgroups : k.groups.map (prune k.keys.length) = k.groups := by
    refine (List.map_congr_left fun g hg => ?_).trans (List.map_id k.groups)
    have hpruned : g.keys.filter (· < k.keys.length) = g.keys :=
      List.filter_eq_self.mpr fun i hi => decide_eq_true (h.pruned g hg i hi)
    rw [prune, hpruned, id]
  rw [normal, hkeys, hgroups]

/-- Numbers and entries of a board fit as soon as there are not too many keys. -/
theorem fits_normal {keys : List Key} (groups : List KeyGroup) (hsize : keys.length ≤ UInt64.size)
    (hkeys : ∀ key ∈ keys, key.keyCode < UInt32.size ∧ key.position.Fits) :
    (normal keys groups).Fits := by
  constructor
  · intro key hkey
    obtain ⟨i, hi⟩ := List.getElem?_of_mem hkey
    rw [normal, getElem?_number, Nat.zero_add] at hi
    obtain ⟨given, hgiven, rfl⟩ := Option.map_eq_some_iff.mp hi
    obtain ⟨hkeyCode, hposition⟩ := hkeys given (List.mem_of_getElem? hgiven)
    have hlt : i < keys.length := (List.getElem?_eq_some_iff.mp hgiven).1
    exact ⟨Nat.lt_of_lt_of_le hlt hsize, hkeyCode, hposition⟩
  · intro g hg i hi
    have hlt : i < (number 0 keys).length := lt_size_of_mem_normal hg hi
    rw [length_number] at hlt
    exact Nat.lt_of_lt_of_le hlt hsize

/-- A numbered and pruned board is read back from its text. -/
theorem ofText?_toText_normal {keys : List Key} (groups : List KeyGroup)
    (hsize : keys.length ≤ UInt64.size)
    (hkeys : ∀ key ∈ keys, key.keyCode < UInt32.size ∧ key.position.Fits) :
    ofText? (normal keys groups).toText = some (normal keys groups) := by
  rw [ofText?_eq, given?_toText (fits_normal groups hsize hkeys), Option.map_some,
    (normal_normal keys groups).normal_eq]

/-- **Layouts are numbered and pruned, and read back from their texts.** A layout that is read from
a text has the keys that the text gives, in their order and with all that is given of them but the
index, which is the position of the key whatever index is given. It has the groups that are given,
with the names they are given and the entries that are less than the number of keys, in their order
and as often as they are given. It is not changed by numbering and pruning it, and it is read from
the text that is written for it.

So is every board that is put together from keys whose key codes and coordinates have 32 bits, if
their number has 64. -/
theorem read_layouts_are_read_back :
    (∀ text k, ofText? text = some k →
      (∃ given, given? text = some given ∧ k.keys.length = given.keys.length ∧
        (∀ i : Nat, k.keys[i]? = given.keys[i]?.map fun key => { key with index := i }) ∧
        k.groups = given.groups.map fun g =>
          { g with keys := g.keys.filter (· < given.keys.length) }) ∧
      normal k.keys k.groups = k ∧
      (k.keys.length ≤ UInt64.size → ofText? k.toText = some k)) ∧
    ∀ keys groups, keys.length ≤ UInt64.size →
      (∀ key ∈ keys, key.keyCode < UInt32.size ∧ key.position.Fits) →
      ofText? (normal keys groups).toText = some (normal keys groups) := by
  refine ⟨fun text k h => ?_, fun keys groups => ofText?_toText_normal groups⟩
  rw [ofText?_eq] at h
  obtain ⟨given, hgiven, rfl⟩ := Option.map_eq_some_iff.mp h
  refine ⟨⟨given, hgiven, length_number 0 given.keys, fun i => ?_, rfl⟩,
    (normal_normal given.keys given.groups).normal_eq, fun hsize => ?_⟩
  · rw [normal, getElem?_number, Nat.zero_add]
  · rw [normal, length_number] at hsize
    refine ofText?_toText_normal given.groups hsize fun key hkey => ?_
    have hfits := (fits_of_given? hgiven).keys key hkey
    exact ⟨hfits.keyCode, hfits.position⟩

/-- A text with a key in either form, numbers that are not the positions, a name that is escaped and
a group that has an entry twice and one too many. -/
def crookedText : String :=
  "[[[7,4294967295,\"\\u00e9\\n\"],\x7b\"name\":\"A\",\"key_code\":2\x7d],[[\"all\",[1,1,9,0]]]]"

/-- The layout of that text. -/
def crooked : Keyboard :=
  ⟨[⟨0, 4294967295, "é\n", .zero⟩, ⟨1, 2, "A", .zero⟩], [⟨"all", [1, 1, 0]⟩]⟩

theorem read_layouts_are_read_back_crooked :
    (∃ given, given? crookedText = some given ∧ given.keys.map (·.index) = [7, 0]) ∧
    normal crooked.keys crooked.groups = crooked ∧
    ofText? crooked.toText = some crooked := by
  have hread : ofText? crookedText = some crooked := by decide +kernel
  obtain ⟨htexts, -⟩ := read_layouts_are_read_back
  obtain ⟨-, hnormal, hback⟩ := htexts crookedText crooked hread
  exact ⟨⟨⟨[⟨7, 4294967295, "é\n", .zero⟩, ⟨0, 2, "A", .zero⟩], [⟨"all", [1, 1, 9, 0]⟩]⟩,
    by decide +kernel, rfl⟩, hnormal, hback (by decide)⟩

end Keyboard

end KeyLight
