import KeyLight.Json.Basic
import KeyLight.Number.Numeral

/-!
# Reading JSON

`Json.parse?` reads one value from a whole text, blank characters around its parts allowed. It
accepts the grammar of JSON and nothing beyond: no leading zeros, no control characters in strings,
no trailing text. How deep values are nested is not limited.
-/

namespace KeyLight.Json

/-- The blank characters between the parts of a JSON text. -/
def isBlank (c : Char) : Bool := c == ' ' || c == '\n' || c == '\t' || c == '\r'

/-- Drops the blank characters in front. -/
def skip (cs : List Char) : List Char := cs.dropWhile isBlank

/-! ### Strings -/

/-- The number of four hexadecimal digits. -/
def hexUnit? (a b c d : Char) : Option Nat :=
  if [a, b, c, d].all (isDigitIn 16) then some (ofDigits 16 [a, b, c, d]) else none

/-- The character that an escape of one letter stands for. -/
def escaped? : Char → Option Nat
  | '"' => some 0x22
  | '\\' => some 0x5C
  | '/' => some 0x2F
  | 'b' => some 0x08
  | 'f' => some 0x0C
  | 'n' => some 0x0A
  | 'r' => some 0x0D
  | 't' => some 0x09
  | _ => none

/-- The code points and surrogates of a string up to the closing quote, and the text after it. -/
def readUnits? : List Char → Option (List Nat × List Char)
  | [] => none
  | '"' :: rest => some ([], rest)
  | '\\' :: 'u' :: a :: b :: c :: d :: rest => do
    let n ← hexUnit? a b c d
    let (units, rest) ← readUnits? rest
    some (n :: units, rest)
  | '\\' :: c :: rest => do
    let n ← escaped? c
    let (units, rest) ← readUnits? rest
    some (n :: units, rest)
  | c :: rest =>
    if c.toNat < 0x20 ∨ c = '\\' then none
    else do
      let (units, rest) ← readUnits? rest
      some (c.toNat :: units, rest)

def isHighSurrogate (n : Nat) : Bool := 0xD800 ≤ n && n < 0xDC00

def isLowSurrogate (n : Nat) : Bool := 0xDC00 ≤ n && n < 0xE000

/-- Joins pairs of surrogates to characters; `none` if a surrogate is left over. -/
def joinUnits? : List Nat → Option (List Char)
  | [] => some []
  | [n] => if isHighSurrogate n || isLowSurrogate n then none else some [Char.ofNat n]
  | n :: m :: rest =>
    if isLowSurrogate n then none
    else if isHighSurrogate n then
      if isLowSurrogate m then
        (joinUnits? rest).map (Char.ofNat (0x10000 + (n - 0xD800) * 0x400 + (m - 0xDC00)) :: ·)
      else none
    else (joinUnits? (m :: rest)).map (Char.ofNat n :: ·)

/-- The text of a string after its opening quote, if it has no unpaired surrogate. -/
def readText? (cs : List Char) : Option (Option String × List Char) := do
  let (units, rest) ← readUnits? cs
  some ((joinUnits? units).map String.ofList, rest)

/-! ### Numbers -/

/-- Digits without a leading zero. -/
def readWhole? (cs : List Char) : Option (List Char × List Char) :=
  match cs with
  | '0' :: rest => if (rest.head?.map (isDigitIn 10)).getD false then none else some (['0'], rest)
  | cs =>
    let ds := cs.takeWhile (isDigitIn 10)
    if ds.isEmpty then none else some (ds, cs.dropWhile (isDigitIn 10))

/-- At least one digit. -/
def readDigits? (cs : List Char) : Option (List Char × List Char) :=
  let ds := cs.takeWhile (isDigitIn 10)
  if ds.isEmpty then none else some (ds, cs.dropWhile (isDigitIn 10))

/-- The fraction of a number, empty if there is none. -/
def readFraction? (cs : List Char) : Option (List Char × List Char) :=
  match cs with
  | '.' :: rest => (readDigits? rest).map fun (ds, rest) => ('.' :: ds, rest)
  | cs => some ([], cs)

/-- The exponent of a number, empty if there is none. -/
def readExponent? (cs : List Char) : Option (List Char × List Char) :=
  match cs with
  | c :: rest =>
    if c = 'e' ∨ c = 'E' then
      match rest with
      | s :: more =>
        if s = '+' ∨ s = '-' then (readDigits? more).map fun (ds, rest) => (c :: s :: ds, rest)
        else (readDigits? rest).map fun (ds, rest) => (c :: ds, rest)
      | [] => none
    else some ([], cs)
  | [] => some ([], [])

/-- A number. -/
def readNumber? (cs : List Char) : Option (Json × List Char) := do
  let (sign, cs) := match cs with
    | '-' :: rest => (['-'], rest)
    | cs => ([], cs)
  let (whole, rest) ← readWhole? cs
  let (fraction, rest) ← readFraction? rest
  let (exponent, rest) ← readExponent? rest
  if fraction.isEmpty && exponent.isEmpty && (sign.isEmpty || whole != ['0']) then
    let n : Int := ofDigits 10 whole
    some (.integer (if sign.isEmpty then n else -n), rest)
  else some (.real (String.ofList (sign ++ whole ++ fraction ++ exponent)), rest)

/-! ### Values -/

mutual

/-- A value at the front of the text, whose parts nest at most `fuel` deep and wide. -/
def readValue? (fuel : Nat) (cs : List Char) : Option (Json × List Char) :=
  match fuel with
  | 0 => none
  | fuel + 1 =>
    match cs with
    | 'n' :: 'u' :: 'l' :: 'l' :: rest => some (.null, rest)
    | 't' :: 'r' :: 'u' :: 'e' :: rest => some (.bool true, rest)
    | 'f' :: 'a' :: 'l' :: 's' :: 'e' :: rest => some (.bool false, rest)
    | '"' :: rest =>
      (readText? rest).map fun (text, rest) => ((text.map Json.string).getD .unpaired, rest)
    | '[' :: rest =>
      match skip rest with
      | ']' :: rest => some (.array [], rest)
      | rest => (readItems? fuel rest).map fun (items, rest) => (.array items, rest)
    | '{' :: rest =>
      match skip rest with
      | '}' :: rest => some (.object [], rest)
      | rest => (readFields? fuel rest).map fun (fields, rest) => (.object fields, rest)
    | cs => readNumber? cs

/-- The items of an array, one at least, and its closing bracket. -/
def readItems? (fuel : Nat) (cs : List Char) : Option (List Json × List Char) :=
  match fuel with
  | 0 => none
  | fuel + 1 => do
    let (item, rest) ← readValue? fuel cs
    match skip rest with
    | ']' :: rest => some ([item], rest)
    | ',' :: rest =>
      let (items, rest) ← readItems? fuel (skip rest)
      some (item :: items, rest)
    | _ => none

/-- The fields of an object, one at least, and its closing brace. -/
def readFields? (fuel : Nat) (cs : List Char) : Option (List (Option String × Json) × List Char) :=
  match fuel with
  | 0 => none
  | fuel + 1 =>
    match cs with
    | '"' :: rest => do
      let (name, rest) ← readText? rest
      match skip rest with
      | ':' :: rest =>
        let (value, rest) ← readValue? fuel (skip rest)
        match skip rest with
        | '}' :: rest => some ([(name, value)], rest)
        | ',' :: rest =>
          let (fields, rest) ← readFields? fuel (skip rest)
          some ((name, value) :: fields, rest)
        | _ => none
      | _ => none
    | _ => none

end

/-- The value of a whole text. -/
def parse? (text : String) : Option Json :=
  let cs := text.toList
  match readValue? (cs.length + 1) (skip cs) with
  | some (value, rest) => if (skip rest).isEmpty then some value else none
  | none => none

end KeyLight.Json
