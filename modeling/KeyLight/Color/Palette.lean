import KeyLight.Color.Rgb

/-!
# Palettes

A palette gives colours names. A name is looked up trimmed and with its letters folded, before the
text is read as a literal. Entries are added under their folded names, the last one of a name wins,
and an entry whose literal is no colour without opacity is passed over.
-/

namespace KeyLight

/-- Named colours, each name once. -/
structure Palette where
  entries : List (String × Rgb)
  deriving Repr, DecidableEq

namespace Palette

/-- Puts a colour under a name, in place of the one there. -/
def put (p : Palette) (name : String) (c : Rgb) : Palette :=
  if p.entries.any (·.1 == name) then
    ⟨p.entries.map fun e => if e.1 == name then (name, c) else e⟩
  else ⟨p.entries ++ [(name, c)]⟩

/-- The colour under a name. -/
def find? (p : Palette) (name : String) : Option Rgb := p.entries.lookup name

/-- The number of names. -/
def size (p : Palette) : Nat := p.entries.length

/-- The names every palette starts with. -/
def standard : Palette where
  entries := [
    ("black", ⟨0x00, 0x00, 0x00⟩), ("white", ⟨0xFF, 0xFF, 0xFF⟩), ("red", ⟨0xFF, 0x00, 0x00⟩),
    ("green", ⟨0x00, 0xFF, 0x00⟩), ("blue", ⟨0x00, 0x00, 0xFF⟩), ("yellow", ⟨0xFF, 0xFF, 0x00⟩),
    ("cyan", ⟨0x00, 0xFF, 0xFF⟩), ("magenta", ⟨0xFF, 0x00, 0xFF⟩), ("orange", ⟨0xFF, 0xA5, 0x00⟩),
    ("purple", ⟨0x80, 0x00, 0x80⟩), ("pink", ⟨0xFF, 0xC0, 0xCB⟩), ("gray", ⟨0x80, 0x80, 0x80⟩),
    ("grey", ⟨0x80, 0x80, 0x80⟩), ("navy", ⟨0x00, 0x00, 0x80⟩), ("teal", ⟨0x00, 0x80, 0x80⟩),
    ("gold", ⟨0xFF, 0xD7, 0x00⟩)]

/-- The form a name is stored in: folded, with its blank characters. -/
def storedForm (name : String) : String := String.ofList (Text.fold name.toList)

/-- Adds one entry, given by a literal, unless the literal is no colour. -/
def addLiteral (p : Palette) (entry : String × String) : Palette :=
  match Rgb.parse? entry.2 with
  | some c => p.put (storedForm entry.1) c
  | none => p

/-- Adds entries given by literals, one after the other. -/
def extend (p : Palette) (entries : List (String × String)) : Palette :=
  entries.foldl addLiteral p

/-- The entries that are passed over because their literal is no colour. -/
def ignored (entries : List (String × String)) : List (String × String) :=
  entries.filter fun entry => (Rgb.parse? entry.2).isNone

/-- The colour a text describes: a name, or a literal. -/
def parse? (p : Palette) (text : String) : Option Rgba :=
  match p.find? (Text.lookupForm text) with
  | some c => some (Rgba.solid c)
  | none => Rgba.parse? text

end Palette

end KeyLight
