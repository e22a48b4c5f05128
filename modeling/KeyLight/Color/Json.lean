import KeyLight.Color.Rgb
import KeyLight.Json.Record

/-!
# Colours in JSON

A colour is a record of its channels, each an integer from 0 to 255.
-/

namespace KeyLight

/-- A channel. -/
def channelOfJson? (j : Json) : Option UInt8 := (j.natBelow? 256).map UInt8.ofNat

/-- A channel as an integer. -/
def channelToJson (c : UInt8) : Json := .integer c.toNat

namespace Rgb

def toJson (c : Rgb) : Json :=
  .record [("red", channelToJson c.red), ("green", channelToJson c.green),
    ("blue", channelToJson c.blue)]

def ofJson? (j : Json) : Option Rgb := do
  match ← j.components? ["red", "green", "blue"] with
  | [r, g, b] =>
    some ⟨← Json.required channelOfJson? r, ← Json.required channelOfJson? g,
      ← Json.required channelOfJson? b⟩
  | _ => none

end Rgb

namespace Rgba

def toJson (c : Rgba) : Json :=
  .record [("red", channelToJson c.red), ("green", channelToJson c.green),
    ("blue", channelToJson c.blue), ("alpha", channelToJson c.alpha)]

def ofJson? (j : Json) : Option Rgba := do
  match ← j.components? ["red", "green", "blue", "alpha"] with
  | [r, g, b, a] =>
    some ⟨← Json.required channelOfJson? r, ← Json.required channelOfJson? g,
      ← Json.required channelOfJson? b, ← Json.required channelOfJson? a⟩
  | _ => none

end Rgba

end KeyLight
