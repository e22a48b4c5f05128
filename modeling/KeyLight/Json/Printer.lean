import KeyLight.Json.Basic

/-!
# Writing JSON

`Json.render` writes a value without blank characters. In a string, quotes, backslashes and control
characters are escaped, the latter with their letter if they have one and otherwise with the four
digits of their code point; all other characters are written as they are.
-/

namespace KeyLight.Json

/-- A digit of a code point, in lower case. -/
def hexDigit (d : Nat) : Char := Char.ofNat (if d < 10 then 48 + d else 87 + d)

/-- One character of a string. -/
def escapeChar (c : Char) : List Char :=
  match c with
  | '"' => ['\\', '"']
  | '\\' => ['\\', '\\']
  | '\n' => ['\\', 'n']
  | '\r' => ['\\', 'r']
  | '\t' => ['\\', 't']
  | c =>
    if c.toNat = 0x08 then ['\\', 'b']
    else if c.toNat = 0x0C then ['\\', 'f']
    else if c.toNat < 0x20 then
      ['\\', 'u', '0', '0', hexDigit (c.toNat / 16), hexDigit (c.toNat % 16)]
    else [c]

/-- A string between quotes. -/
def renderText (text : String) : List Char := '"' :: text.toList.flatMap escapeChar ++ ['"']

/-- A string, or one with an unpaired surrogate. -/
def renderName : Option String → List Char
  | some text => renderText text
  | none => ['"', '\\', 'u', 'd', '8', '0', '0', '"']

mutual

/-- The characters of a value. -/
def renderChars : Json → List Char
  | .null => ['n', 'u', 'l', 'l']
  | .bool true => ['t', 'r', 'u', 'e']
  | .bool false => ['f', 'a', 'l', 's', 'e']
  | .integer n => (if n < 0 then ['-'] else []) ++ Nat.toDigits 10 n.natAbs
  | .real literal => literal.toList
  | .string text => renderText text
  | .unpaired => renderName none
  | .array items => '[' :: renderItems items ++ [']']
  | .object fields => '{' :: renderFields fields ++ ['}']

/-- Values with commas between them. -/
def renderItems : List Json → List Char
  | [] => []
  | [item] => renderChars item
  | item :: next :: items => renderChars item ++ ',' :: renderItems (next :: items)

/-- Fields with commas between them. -/
def renderFields : List (Option String × Json) → List Char
  | [] => []
  | [(name, value)] => renderName name ++ ':' :: renderChars value
  | (name, value) :: next :: fields =>
    renderName name ++ ':' :: renderChars value ++ ',' :: renderFields (next :: fields)

end

/-- The text of a value. -/
def render (j : Json) : String := String.ofList (renderChars j)

end KeyLight.Json
