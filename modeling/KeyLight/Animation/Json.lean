import KeyLight.Animation.Easing
import KeyLight.Json.Record

/-!
# Easing curves in JSON

A curve is its name as a string, or an object with the name as its only field and null as its value.
-/

namespace KeyLight.Easing

def toJson (e : Easing) : Json := .string e.name

/-- The curve of exactly this name. -/
def ofExactName? (name : String) : Option Easing := all.find? (·.name == name)

def ofJson? : Json → Option Easing
  | .string name => ofExactName? name
  | .object [(some name, .null)] => ofExactName? name
  | _ => none

end KeyLight.Easing
