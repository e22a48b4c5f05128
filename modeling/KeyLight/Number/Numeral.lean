import KeyLight.Number.Binary64
import KeyLight.Text.Utf8

/-!
# Numerals

Texts that stand for numbers. A *numeral* of the script language is a decimal or hexadecimal integer
or fraction, with a sign in front and white space around it; `Numeral.read?` reads one from a byte
string. An integer numeral is an integer if it fits into 64 bits (a hexadecimal one is reduced to 64
bits), and otherwise the nearest floating-point number. `readDecimal?` reads the plain decimals that
options are given in.
-/

namespace KeyLight

/-- The value of a digit in a base up to sixteen. -/
def digitValue? (base : Nat) (c : Char) : Option Nat :=
  let n := c.toNat
  let v : Option Nat :=
    if 48 ≤ n ∧ n ≤ 57 then some (n - 48)
    else if 97 ≤ n ∧ n ≤ 102 then some (n - 87)
    else if 65 ≤ n ∧ n ≤ 70 then some (n - 55)
    else none
  v.filter (· < base)

/-- Whether a character is a digit in a base up to sixteen. -/
def isDigitIn (base : Nat) (c : Char) : Bool := (digitValue? base c).isSome

/-- Digits are ASCII characters. -/
theorem le_of_isDigitIn {base : Nat} {c : Char} (h : isDigitIn base c = true) : c.toNat ≤ 102 := by
  obtain ⟨v, hv⟩ := Option.isSome_iff_exists.mp h
  simp only [digitValue?, Option.filter_eq_some_iff] at hv
  have hsome := hv.1
  split at hsome
  · omega
  split at hsome
  · omega
  split at hsome
  · omega
  · cases hsome

/-- The number that digits write, most significant first. -/
def ofDigits (base : Nat) (cs : List Char) : Nat :=
  cs.foldl (fun n c => n * base + (digitValue? base c).getD 0) 0

/-- Drops one plus sign in front. -/
def dropPlus : List Char → List Char
  | '+' :: cs => cs
  | cs => cs

/-- Reads a number below 256: digits, at least one of them, with a plus sign in front or without. -/
def readByte? (base : Nat) (cs : List Char) : Option UInt8 :=
  let ds := dropPlus cs
  if ds ≠ [] ∧ ds.all (isDigitIn base) ∧ ofDigits base ds < 256 then
    some (UInt8.ofNat (ofDigits base ds))
  else none

/-- A number written as an integer mantissa, a base and an exponent. -/
structure Scaled where
  mantissa : Nat
  exponent : Int
  deriving Repr, DecidableEq

namespace Scaled

/-- Reads a sign, if there is one. -/
def readSign : List Char → Bool × List Char
  | '-' :: cs => (true, cs)
  | '+' :: cs => (false, cs)
  | cs => (false, cs)

/-- Reads the exponent after a mantissa: nothing, or one of the `marks`, a sign and decimal
digits. -/
def readExponent? (marks : List Char) : List Char → Option Int
  | [] => some 0
  | c :: cs =>
    let (negative, ds) := readSign cs
    if marks.contains c ∧ ds ≠ [] ∧ ds.all (isDigitIn 10) then
      let n : Int := ofDigits 10 ds
      some (if negative then -n else n)
    else none

/-- Reads digits, perhaps with a point among them, and perhaps an exponent. A digit after the point
lowers the exponent by `perDigit`. -/
def read? (base perDigit : Nat) (marks : List Char) (cs : List Char) : Option Scaled :=
  let whole := cs.takeWhile (isDigitIn base)
  let rest := cs.dropWhile (isDigitIn base)
  let (fraction, rest) := match rest with
    | '.' :: more => (more.takeWhile (isDigitIn base), more.dropWhile (isDigitIn base))
    | rest => ([], rest)
  if whole.isEmpty && fraction.isEmpty then none
  else (readExponent? marks rest).map fun e =>
    ⟨ofDigits base (whole ++ fraction), e - (perDigit * fraction.length : Nat)⟩

/-- The number nearest to `± mantissa · 10^exponent`. -/
def decimal (negative : Bool) (s : Scaled) : Float :=
  let length : Int := (Nat.toDigits 10 s.mantissa).length
  if s.mantissa = 0 ∨ length + s.exponent < -400 then Binary64.ofRatio negative 0 1
  else if 400 < length + s.exponent then Binary64.ofRatio negative (Nat.pow 10 400) 1
  else
    let (num, den) := Binary64.quotient 10 s.mantissa s.exponent
    Binary64.ofRatio negative num den

/-- The number nearest to `± mantissa · 2^exponent`. -/
def binary (negative : Bool) (s : Scaled) : Float :=
  let length : Int := s.mantissa.log2
  if s.mantissa = 0 ∨ length + s.exponent < -1200 then Binary64.ofRatio negative 0 1
  else if 1200 < length + s.exponent then Binary64.ofRatio negative (Nat.pow 2 1200) 1
  else
    let (num, den) := Binary64.quotient 2 s.mantissa s.exponent
    Binary64.ofRatio negative num den

end Scaled

/-- Reads a decimal: an optional sign, then digits, perhaps with a point and an exponent, or the
name of an infinity or of not-a-number in any case. -/
def readDecimal? (text : String) : Option Float :=
  let (negative, cs) := Scaled.readSign text.toList
  let word := String.ofList (cs.map Char.toLower)
  if word = "inf" ∨ word = "infinity" then
    some (if negative then Float.ofBits 0xFFF0000000000000 else Float.ofBits 0x7FF0000000000000)
  else if word = "nan" then some (Float.ofBits 0x7FF8000000000000)
  else (Scaled.read? 10 1 ['e', 'E'] cs).map (Scaled.decimal negative)

/-- The number that a numeral stands for. -/
inductive Numeral
  | int (n : Int64)
  | float (x : Float)

namespace Numeral

/-- The white space allowed around a numeral. -/
def isSpace (c : Char) : Bool := c == ' ' || (9 ≤ c.toNat && c.toNat ≤ 13)

/-- Reads an integer numeral without its sign. A decimal one has to fit into 64 bits. -/
def readInt? (negative : Bool) (cs : List Char) : Option Int64 :=
  let signed (n : Nat) : Int64 := Int64.ofInt (if negative then -(n : Int) else n)
  let hex (ds : List Char) : Option Int64 :=
    if ds ≠ [] ∧ ds.all (isDigitIn 16) then some (signed (ofDigits 16 ds)) else none
  match cs with
  | '0' :: 'x' :: ds => hex ds
  | '0' :: 'X' :: ds => hex ds
  | ds =>
    let n := ofDigits 10 ds
    let largest := Int64.maxValue.toInt + (if negative then 1 else 0)
    if ds ≠ [] ∧ ds.all (isDigitIn 10) ∧ n ≤ largest then
      some (signed n)
    else none

/-- Reads a numeral that is no integer, without its sign. -/
def readFloat? (negative : Bool) (cs : List Char) : Option Float :=
  let hex (ds : List Char) : Option Float :=
    (Scaled.read? 16 4 ['p', 'P'] ds).map (Scaled.binary negative)
  match cs with
  | '0' :: 'x' :: ds => hex ds
  | '0' :: 'X' :: ds => hex ds
  | ds => (Scaled.read? 10 1 ['e', 'E'] ds).map (Scaled.decimal negative)

/-- The number that a byte string stands for, if it is a numeral. -/
def read? (bytes : Bytes) : Option Numeral :=
  let cs := bytes.map fun b => Char.ofNat b.toNat
  let (negative, body) := Scaled.readSign (cs.dropWhile isSpace)
  let body := (body.reverse.dropWhile isSpace).reverse
  match readInt? negative body with
  | some n => some (.int n)
  | none => (readFloat? negative body).map .float

end Numeral

end KeyLight
