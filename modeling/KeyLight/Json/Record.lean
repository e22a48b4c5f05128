import KeyLight.Json.Basic

/-!
# Records in JSON

A record is written as an object with a field for each of its components, or as an array of the
components in order. In an object the order does not matter and other fields are passed over, but no
component may occur twice; in an array components may be missing at the end, but none may be added.
`Json.components?` brings both forms to the list of the components that are there.
-/

namespace KeyLight.Json

/-- The component of a name: there at most once. -/
def component? (fields : List (Option String × Json)) (name : String) : Option (Option Json) :=
  match fields.filter (·.1 == some name) with
  | [] => some none
  | [field] => some (some field.2)
  | _ => none

/-- The components of a record, in the order of `names`; `none` if the value is no such record. -/
def components? (names : List String) : Json → Option (List (Option Json))
  | .object fields =>
    if fields.all (·.1.isSome) then names.mapM (component? fields) else none
  | .array items =>
    if items.length ≤ names.length then
      some (items.map some ++ List.replicate (names.length - items.length) none)
    else none
  | _ => none

/-- A component that has to be there. -/
def required {α : Type} (read : Json → Option α) (component : Option Json) : Option α :=
  component.bind read

/-- A component that `fallback` stands in for. -/
def optional {α : Type} (fallback : α) (read : Json → Option α) : Option Json → Option α
  | some j => read j
  | none => some fallback

/-- An integer from zero on, below a bound. -/
def natBelow? (bound : Nat) (j : Json) : Option Nat :=
  match j with
  | .integer n => if 0 ≤ n ∧ n < bound then some n.toNat else none
  | _ => none

/-- A list whose items are all read. -/
def listOf? {α : Type} (read : Json → Option α) : Json → Option (List α)
  | .array items => items.mapM read
  | _ => none

end KeyLight.Json
