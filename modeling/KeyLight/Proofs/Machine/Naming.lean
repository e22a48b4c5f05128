import KeyLight.Proofs.Machine.Answering
import KeyLight.Proofs.Machine.Comparison
import KeyLight.Proofs.Machine.Position
import KeyLight.Proofs.Text.Utf8

/-!
# Keys asked for by their names

A board that is indexed with a byte string gives the first key that has the name which the byte
string is read as, in either case of the letters A to Z (`Machine.access_board_named`). The names of
the two methods of a board are kept for the methods, but only as they are written: a key of such a
name is found under another spelling. So a key whose name is its own is found by the name and by its
number alike (`Machine.equate_named_numbered`).
-/

namespace KeyLight

/-- A place of a board that holds the first key of a name. -/
structure Keyboard.FirstNamed (k : Keyboard) (name : String) (i : Nat) : Prop where
  found : ∃ key, k.key? i = some key ∧ Text.sameName key.name name = true
  first : ∀ j < i, ∀ key, k.key? j = some key → Text.sameName key.name name = false

theorem Keyboard.FirstNamed.findName? {k : Keyboard} {name : String} {i : Nat}
    (h : k.FirstNamed name i) : k.findName? name = k.key? i := by
  obtain ⟨key, hkey, hname⟩ := h.found
  exact k.find?_eq_key? hkey hname h.first

/-- The first key of a name is that of every spelling of it. -/
theorem Keyboard.FirstNamed.respell {k : Keyboard} {name spelling : String} {i : Nat}
    (h : k.FirstNamed name i) (hspelling : Text.sameName name spelling = true) :
    k.FirstNamed spelling i := by
  have hsame (other : String) : Text.sameName other spelling = Text.sameName other name := by
    rw [Text.sameName, Text.sameName, beq_iff_eq.mp hspelling]
  exact ⟨by simpa only [hsame] using h.found, by simpa only [hsame] using h.first⟩

/-- The names of the methods of a board. -/
def Method.boardNames : List String := ["find_key_code", "group"]

theorem Method.mem_boardNames {name : String} {m : Method} (h : find? .board name = some m) :
    name ∈ boardNames := by
  have hm := List.find?_some h
  rw [Bool.and_eq_true, beq_iff_eq, beq_iff_eq] at hm
  obtain ⟨howner, rfl⟩ := hm
  cases m with
  | findKeyCode => exact List.mem_cons_self
  | group => exact List.mem_cons_of_mem _ List.mem_cons_self
  | blend | value | «at» | contains | fill => cases howner

namespace World

variable {w : World} {v : Value} {h : BoardHandle} {k : Keyboard} {bytes : Bytes}

/-- A byte string that is not the name of a method is not taken for one. -/
theorem index_board_text (ho : w.heap.object? v = some (.board h))
    (hbytes : ∀ name ∈ Method.boardNames, bytes ≠ Utf8.encode name) :
    w.index v (.text bytes) = (w.boardItem h (.text bytes)).mapError .call := by
  have hfield : (Value.text bytes).name?.bind (w.field? (.board h)) = none :=
    Option.bind_eq_none_iff.mpr fun _ _ => rfl
  have hmethod : (Value.text bytes).name?.bind (Method.find? (Object.board h).type) = none := by
    rw [Option.eq_none_iff_forall_ne_some]
    intro m hm
    obtain ⟨name, hname, hfind⟩ := Option.bind_eq_some_iff.mp hm
    exact hbytes name (Method.mem_boardNames hfind) (Utf8.decode?_eq_some_iff.mp hname)
  rw [index_item ho hfield hmethod, item]

end World

namespace Machine

variable {place : Place} {w : World} {scope : Scope} {frames : List Frame} {v : Value}
variable {h : BoardHandle} {k : Keyboard}

/-- **A board gives the first key of the name that a byte string is read as**, and nil if there is
none. -/
theorem access_board_named (ho : w.heap.object? v = some (.board h)) (hk : w.board h = .ok k)
    (hnormal : w.host.Normal) {bytes : Bytes}
    (hbytes : ∀ name ∈ Method.boardNames, bytes ≠ Utf8.encode name) :
    (∀ i, k.FirstNamed (Utf8.decodeLossy bytes) i →
      access place w scope frames (.index v (.text bytes)) =
        .running (w.newObject (.key (h.key i))).2 (.give (w.newObject (.key (h.key i))).1) frames) ∧
    ((∀ key ∈ k.keys, Text.sameName key.name (Utf8.decodeLossy bytes) = false) →
      access place w scope frames (.index v (.text bytes)) = .running w (.give .nil) frames) := by
  have hindex : access place w scope frames (.index v (.text bytes)) =
      replyDatum w frames (.ok (.ofOption
        ((k.findName? (Utf8.decodeLossy bytes)).map fun key => .key (h.key key.index)))) := by
    rw [access_index, World.index_board_text ho hbytes, World.boardItem, hk]
    rfl
  refine ⟨fun i hi => ?_, fun hnone => ?_⟩
  · obtain ⟨key, hkey, -⟩ := hi.found
    have hnumber : key.index = i := (hnormal _ k (World.board?_of_board hk)).numbered i key hkey
    rw [hindex, hi.findName?, hkey, Option.map_some, hnumber]
    rfl
  · have hlost : k.findName? (Utf8.decodeLossy bytes) = none :=
      List.find?_eq_none.mpr fun key hkey => by simp [hnone key hkey]
    rw [hindex, hlost]
    rfl

/-- **A key whose name no earlier key has** is equal to what the board gives at the number of the
key, when it is asked for by any spelling of the name that is not that of a method. -/
theorem equate_named_numbered (ho : w.heap.object? v = some (.board h)) (hk : w.board h = .ok k)
    (hnormal : w.host.Normal) {name : String} {i : Nat} (hi : k.FirstNamed name i)
    (hname : name ∉ Method.boardNames) (hnumber : i + 1 < Binary64.exactBound) :
    ∃ w₁ v₁ w₂ v₂,
      access place w scope frames (.index v (.ofString name)) = .running w₁ (.give v₁) frames ∧
      access place w₁ scope frames (.index v (.ofNat (i + 1))) = .running w₂ (.give v₂) frames ∧
      equate place w₂ scope frames v₁ v₂ = .running w₂ (.give (.bool true)) frames := by
  have hbytes : ∀ other ∈ Method.boardNames, Utf8.encode name ≠ Utf8.encode other :=
    fun other hother heq => hname (Utf8.encode_injective heq ▸ hother)
  have hread : Utf8.decodeLossy (Utf8.encode name) = name := Utf8.decodeLossy_encode name
  obtain ⟨key, hkey, -⟩ := hi.found
  have hindex : key.index = i := (hnormal _ k (World.board?_of_board hk)).numbered i key hkey
  have hnamed : access place w scope frames (.index v (.ofString name)) =
      .running (w.newObject (.key (h.key i))).2 (.give (w.newObject (.key (h.key i))).1) frames :=
    (access_board_named ho hk hnormal hbytes).1 i (hread.symm ▸ hi)
  let w₁ := (w.newObject (.key (h.key i))).2
  have ho₁ : w₁.heap.object? v = some (.board h) := World.object?_newObject_of_some ho _
  have hk₁ : w₁.board h = .ok k := hk
  have hnumbered : access place w₁ scope frames (.index v (.ofNat (i + 1))) =
      .running (w₁.newObject (.key (h.key i))).2 (.give (w₁.newObject (.key (h.key i))).1)
        frames := by
    rw [access_index, World.index_board_key ho₁ hk₁ hkey hnumber, hindex]
    rfl
  refine ⟨w₁, _, _, _, hnamed, hnumbered, ?_⟩
  have hfirst : w₁.heap.object? (w.newObject (.key (h.key i))).1 = some (.key (h.key i)) :=
    w.object?_newObject _
  exact (equate_eq_true_iff ..).mpr ((World.equal_keys_iff (World.object?_newObject_of_some hfirst _)
    (w₁.object?_newObject _)).mpr ⟨rfl, rfl⟩)

end Machine

end KeyLight
