import KeyLight.Json.Record
import KeyLight.Animation.Json
import KeyLight.Color.Palette
import KeyLight.Json.Parser

/-!
# Configuration

A configuration names the easing curve of fades that name none, and further colours. Both may be
missing. Of two colours of one name the later one counts.
-/

namespace KeyLight

/-- The settings of an environment. -/
structure Config where
  defaultEasing : Easing := .linear
  /-- Further colours, as literals. -/
  palette : List (String × String) := []
  deriving Repr, DecidableEq

namespace Config

/-- Puts a literal under a name, in place of the one there. -/
def putLiteral (entries : List (String × String)) (entry : String × String) :
    List (String × String) :=
  if entries.any (·.1 == entry.1) then
    entries.map fun e => if e.1 == entry.1 then entry else e
  else entries ++ [entry]

/-- A map of names to literals. -/
def literalsOfJson? (j : Json) : Option (List (String × String)) := do
  let fields ← j.toFields?
  let entries ← fields.mapM fun (name, value) => value.toString?.map (name, ·)
  some (entries.foldl putLiteral [])

def literalsToJson (entries : List (String × String)) : Json :=
  .record (entries.map fun (name, literal) => (name, .string literal))

def toJson (c : Config) : Json :=
  .record [("default_easing", c.defaultEasing.toJson), ("palette", literalsToJson c.palette)]

def ofJson? (j : Json) : Option Config := do
  match ← j.components? ["default_easing", "palette"] with
  | [easing, palette] =>
    some ⟨← Json.optional .linear Easing.ofJson? easing,
      ← Json.optional [] literalsOfJson? palette⟩
  | _ => none

/-- The configuration of a text. -/
def ofText? (text : String) : Option Config := Json.parse? text |>.bind ofJson?

/-- What is said of a text that is no configuration. -/
def invalidMessage : String := "Invalid environment configuration"

/-- The standard palette with the further colours. -/
def colors (c : Config) : Palette := Palette.standard.extend c.palette

end Config

end KeyLight
