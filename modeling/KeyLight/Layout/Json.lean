import KeyLight.Layout.Keyboard
import KeyLight.Json.Record
import KeyLight.Json.Parser
import KeyLight.Json.Printer

/-!
# Key layouts in JSON

Key codes and coordinates have 32 bits and indices 64. The index of a key, its position and the
groups of a board may be missing. `Keyboard.ofText?` reads a board and normalizes it.
-/

namespace KeyLight

/-- An unsigned integer of 32 bits. -/
def word32OfJson? (j : Json) : Option Nat := j.natBelow? UInt32.size

/-- An unsigned integer of 64 bits. -/
def word64OfJson? (j : Json) : Option Nat := j.natBelow? UInt64.size

/-- A natural number as an integer. -/
def natToJson (n : Nat) : Json := .integer n

namespace KeyRect

def toJson (r : KeyRect) : Json :=
  .record [("x0", natToJson r.x0), ("y0", natToJson r.y0), ("x1", natToJson r.x1),
    ("y1", natToJson r.y1)]

def ofJson? (j : Json) : Option KeyRect := do
  match ← j.components? ["x0", "y0", "x1", "y1"] with
  | [x0, y0, x1, y1] =>
    some ⟨← Json.required word32OfJson? x0, ← Json.required word32OfJson? y0,
      ← Json.required word32OfJson? x1, ← Json.required word32OfJson? y1⟩
  | _ => none

end KeyRect

namespace Key

def toJson (k : Key) : Json :=
  .record [("index", natToJson k.index), ("key_code", natToJson k.keyCode),
    ("name", .string k.name), ("position", k.position.toJson)]

def ofJson? (j : Json) : Option Key := do
  match ← j.components? ["index", "key_code", "name", "position"] with
  | [index, keyCode, name, position] =>
    some ⟨← Json.optional 0 word64OfJson? index, ← Json.required word32OfJson? keyCode,
      ← Json.required Json.toString? name, ← Json.optional .zero KeyRect.ofJson? position⟩
  | _ => none

end Key

namespace KeyGroup

def toJson (g : KeyGroup) : Json :=
  .record [("name", .string g.name), ("keys", .array (g.keys.map natToJson))]

def ofJson? (j : Json) : Option KeyGroup := do
  match ← j.components? ["name", "keys"] with
  | [name, keys] =>
    some ⟨← Json.required Json.toString? name,
      ← Json.required (Json.listOf? word64OfJson?) keys⟩
  | _ => none

end KeyGroup

namespace Keyboard

def toJson (k : Keyboard) : Json :=
  .record
    [("keys", .array (k.keys.map Key.toJson)), ("groups", .array (k.groups.map KeyGroup.toJson))]

/-- The keys and groups as they are given. -/
def ofJson? (j : Json) : Option Keyboard := do
  match ← j.components? ["keys", "groups"] with
  | [keys, groups] =>
    some ⟨← Json.required (Json.listOf? Key.ofJson?) keys,
      ← Json.optional [] (Json.listOf? KeyGroup.ofJson?) groups⟩
  | _ => none

/-- The text of a layout. -/
def toText (k : Keyboard) : String := k.toJson.render

/-- The normalized keyboard of a layout text. -/
def ofText? (text : String) : Option Keyboard := do
  let given ← (← Json.parse? text) |> ofJson?
  some (normal given.keys given.groups)

end Keyboard

end KeyLight
