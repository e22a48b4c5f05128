/-!
# JSON values

Layouts, configurations and script trees are written in JSON. A value keeps what the readers of
records need to know of the text: whether a number is written as an integer, the order of the fields
of an object and those that occur twice, and strings that name an unpaired surrogate and so stand
for no text.
-/

namespace KeyLight

/-- A JSON value. -/
inductive Json
  | null
  | bool (b : Bool)
  /-- A number written without a fraction and an exponent, other than minus zero. -/
  | integer (n : Int)
  /-- Any other number, as it is written. -/
  | real (literal : String)
  | string (text : String)
  /-- A string with an unpaired surrogate. -/
  | unpaired
  | array (items : List Json)
  /-- The fields in the order of the text. A name with an unpaired surrogate is `none`. -/
  | object (fields : List (Option String × Json))
  deriving Repr, Inhabited

namespace Json

/-- An object whose field names are texts. -/
def record (fields : List (String × Json)) : Json :=
  .object (fields.map fun field => (some field.1, field.2))

/-- The first field of a name. -/
def field? (j : Json) (name : String) : Option Json :=
  match j with
  | .object fields => fields.lookup (some name)
  | _ => none

def toInt? : Json → Option Int
  | .integer n => some n
  | _ => none

def toNat? (j : Json) : Option Nat := j.toInt?.bind Int.toNat?

def toBool? : Json → Option Bool
  | .bool b => some b
  | _ => none

def toString? : Json → Option String
  | .string text => some text
  | _ => none

def toList? : Json → Option (List Json)
  | .array items => some items
  | _ => none

/-- The fields whose names are texts. -/
def toFields? : Json → Option (List (String × Json))
  | .object fields => fields.mapM fun field => field.1.map (·, field.2)
  | _ => none

end Json

end KeyLight
