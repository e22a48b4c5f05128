import KeyLight.Script.Number

/-!
# Tables

A table maps values other than nil and not-a-number to values. The positions it was made with, and
those appended to them, are kept as a row of items; all other keys are kept as fields. A key that is
a floating-point number equal to an integer counts as that integer, so a key has one form
(`Table.key?`). A key with the value nil is the same as a missing one.

The length of a table is a position that holds a value while the next one holds none, or zero if the
first position holds none.
-/

namespace KeyLight

/-- A table. -/
structure Table where
  /-- The values at the positions 1, 2, … -/
  items : List Value
  /-- The values at all other keys. -/
  fields : List (Value × Value)
  deriving Repr, DecidableEq, Inhabited

namespace Table

/-- The table without keys. -/
def empty : Table := ⟨[], []⟩

/-- The table of the given values from position 1 on. -/
def ofItems (items : List Value) : Table := ⟨items, []⟩

/-- The integer of 64 bits that a number is equal to, if there is one. -/
def integral? (x : Float) : Option Int64 :=
  match Binary64.toInt? x with
  | some n =>
    if Int64.minValue.toInt ≤ n ∧ n ≤ Int64.maxValue.toInt then some (Int64.ofInt n) else none
  | none => none

/-- The form in which a value is a key, if it may be one. -/
def key? : Value → Option Value
  | .nil => none
  | .float x =>
    if x == x then some ((integral? x).elim (.float x) .int) else none
  | v => some v

/-- The place among the items that a key denotes. -/
def slot? (t : Table) : Value → Option Nat
  | .int n => if 1 ≤ n.toInt ∧ n.toInt ≤ t.items.length then some (n.toInt.toNat - 1) else none
  | _ => none

/-- The value of a field. -/
def field (t : Table) (key : Value) : Value := (t.fields.lookup key).getD .nil

/-- The value at a key. -/
def get (t : Table) (key : Value) : Value :=
  match key? key with
  | none => .nil
  | some k =>
    match t.slot? k with
    | some i => t.items.getD i .nil
    | none => t.field k

/-- The fields with a new value at a key. -/
def putField (fields : List (Value × Value)) (key v : Value) : List (Value × Value) :=
  let others := fields.filter (·.1 != key)
  if v = .nil then others else (key, v) :: others

/-- The integer key of a position. -/
def position (n : Nat) : Value := .int (Int64.ofNat n)

/-- Moves the fields at the positions after the items to the items, one at most `fuel` times. -/
def gather : Nat → Table → Table
  | 0, t => t
  | fuel + 1, t =>
    let next := position (t.items.length + 1)
    let v := t.field next
    if v = .nil then t else gather fuel ⟨t.items ++ [v], putField t.fields next .nil⟩

/-- Whether a value at the position after the items is kept as an item: the last item holds a
value. -/
def extends? (t : Table) (key v : Value) : Bool :=
  key == position (t.items.length + 1) && v != .nil && (t.items.getLast?.getD .nil) != .nil

/-- The table with a new value at a key; `none` if the value is no key. -/
def put? (t : Table) (key v : Value) : Option Table :=
  match key? key with
  | none => none
  | some k =>
    match t.slot? k with
    | some i => some { t with items := t.items.set i v }
    | none =>
      if t.extends? k v then
        some (gather t.fields.length ⟨t.items ++ [v], putField t.fields k .nil⟩)
      else some { t with fields := putField t.fields k v }

/-- A position between `low`, which holds a value or is zero, and `high`, which holds none, at which
a value is followed by none. The distance is halved at most `fuel` times. -/
def border (items : List Value) : Nat → Nat → Nat → Nat
  | 0, low, _ => low
  | fuel + 1, low, high =>
    if high ≤ low + 1 then low
    else
      let middle := (low + high) / 2
      if items.getD (middle - 1) .nil = .nil then border items fuel low middle
      else border items fuel middle high

/-- The number of consecutive positions after `n` that are fields. -/
def run (t : Table) : Nat → Nat → Nat
  | 0, _ => 0
  | fuel + 1, n => if t.field (position (n + 1)) = .nil then 0 else run t fuel (n + 1) + 1

/-- The length. -/
def length (t : Table) : Nat :=
  let n := t.items.length
  if 0 < n ∧ t.items.getD (n - 1) .nil = .nil then
    if 2 ≤ n ∧ t.items.getD (n - 2) .nil ≠ .nil then n - 1 else border t.items n 0 n
  else n + t.run t.fields.length n

end Table

end KeyLight
