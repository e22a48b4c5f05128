import KeyLight.Text.Blank

/-!
# Key layouts

A keyboard is a list of keys and of named groups of keys, a group being a list of positions in the
list of keys. `Keyboard.normal` numbers the keys by their position and drops the positions from the
groups that no key has, so in every keyboard it builds a key's index is its position
(`index_of_key?_normal`) and every group entry denotes a key (`lt_size_of_mem_normal`).
-/

namespace KeyLight

/-- The box a key takes on the board. -/
structure KeyRect where
  x0 : Nat
  y0 : Nat
  x1 : Nat
  y1 : Nat
  deriving Repr, DecidableEq

/-- The box of a key without a position. -/
def KeyRect.zero : KeyRect := ⟨0, 0, 0, 0⟩

/-- A key. -/
structure Key where
  index : Nat
  keyCode : Nat
  name : String
  position : KeyRect
  deriving Repr, DecidableEq

/-- A named group of keys, given by their positions. -/
structure KeyGroup where
  name : String
  keys : List Nat
  deriving Repr, DecidableEq

/-- The keys of a board and their groups. -/
structure Keyboard where
  keys : List Key
  groups : List KeyGroup
  deriving Repr, DecidableEq

namespace Keyboard

/-- Numbers keys from `first` on. -/
def number (first : Nat) : List Key → List Key
  | [] => []
  | k :: ks => { k with index := first } :: number (first + 1) ks

/-- Keeps the entries of a group that denote one of `count` keys. -/
def prune (count : Nat) (g : KeyGroup) : KeyGroup := { g with keys := g.keys.filter (· < count) }

/-- The keyboard of the given keys and groups, numbered and pruned. -/
def normal (keys : List Key) (groups : List KeyGroup) : Keyboard :=
  ⟨number 0 keys, groups.map (prune keys.length)⟩

/-- The number of keys. -/
def size (k : Keyboard) : Nat := k.keys.length

def isEmpty (k : Keyboard) : Bool := k.keys.isEmpty

/-- The key at a position. -/
def key? (k : Keyboard) (index : Nat) : Option Key := k.keys[index]?

/-- The first key of a name. -/
def findName? (k : Keyboard) (name : String) : Option Key :=
  k.keys.find? fun key => Text.sameName key.name name

/-- The first key of a key code. -/
def findKeyCode? (k : Keyboard) (code : Nat) : Option Key := k.keys.find? (·.keyCode == code)

/-- The position of the first group of a name. -/
def groupIndex? (k : Keyboard) (name : String) : Option Nat :=
  k.groups.findIdx? fun g => Text.sameName g.name name

/-- The group at a position. -/
def group? (k : Keyboard) (index : Nat) : Option KeyGroup := k.groups[index]?

theorem getElem?_number (first : Nat) (ks : List Key) (i : Nat) :
    (number first ks)[i]? = ks[i]?.map fun k => { k with index := first + i } := by
  induction ks generalizing first i with
  | nil => simp [number]
  | cons k ks ih =>
    cases i with
    | zero => simp [number]
    | succ i => simp [number, ih, Nat.add_right_comm, Nat.add_assoc]

@[simp] theorem length_number (first : Nat) (ks : List Key) :
    (number first ks).length = ks.length := by
  induction ks generalizing first with
  | nil => rfl
  | cons k ks ih => simp [number, ih]

/-- A key's index is its position. -/
theorem index_of_key?_normal {keys : List Key} {groups : List KeyGroup} {i : Nat} {k : Key}
    (h : (normal keys groups).key? i = some k) : k.index = i := by
  simp only [normal, key?, getElem?_number, Option.map_eq_some_iff] at h
  obtain ⟨a, -, rfl⟩ := h
  simp

/-- Every entry of a group denotes a key. -/
theorem lt_size_of_mem_normal {keys : List Key} {groups : List KeyGroup} {g : KeyGroup} {i : Nat}
    (hg : g ∈ (normal keys groups).groups) (hi : i ∈ g.keys) : i < (normal keys groups).size := by
  simp only [normal, List.mem_map] at hg
  obtain ⟨a, -, rfl⟩ := hg
  simp only [prune, List.mem_filter, decide_eq_true_eq] at hi
  simpa [normal, size] using hi.2

end Keyboard

end KeyLight
