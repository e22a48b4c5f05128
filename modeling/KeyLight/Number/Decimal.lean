import KeyLight.Number.Binary64

/-!
# Decimal texts of floating-point numbers

Two families of decimal texts are written. `shortest` finds the fewest digits that read back as the
same number, and of those the nearest; `significant n` rounds the exact value to `n` digits, a tie
to the even last digit. Both give digits and an exponent, and the layouts below put the point.

* `plain` never uses an exponent and has no point in an integer.
* `marked` shows that the number is a fraction: an integer ends in `.0`, and a very great or very
  small number has an exponent.
* `general` has fourteen significant digits without trailing zeros, with an exponent when the number
  is below `10^-4` or has more than fourteen digits in front of the point.
-/

namespace KeyLight.Decimal

/-- The decimal `0.d₁d₂…dₙ · 10^point`, its digits written as characters. -/
structure Digits where
  digits : List Char
  point : Int
  deriving Repr, DecidableEq

/-- The number of decimal digits of a positive number. -/
def length (n : Nat) : Nat := (Nat.toDigits 10 n).length

/-- Drops the zeros at the end. -/
def dropTrailingZeros (cs : List Char) : List Char := (cs.reverse.dropWhile (· == '0')).reverse

/-- The decimal of `n · 10^-places`, without zeros at the end. -/
def ofScaled (n : Nat) (places : Int) : Digits :=
  let ds := Nat.toDigits 10 n
  ⟨dropTrailingZeros ds, ds.length - places⟩

/-- The quotient `num · 10^places / den` as a quotient of natural numbers. -/
def scale (num den : Nat) (places : Int) : Nat × Nat :=
  let (a, b) := Binary64.quotient 10 num places
  (a, den * b)

/-- The number of digits in front of the point of `num / den`; for a quotient below one, minus the
number of zeros after it. -/
def magnitude (num den : Nat) : Int :=
  if den ≤ num then length (num / den)
  else
    let zeros : Nat := length (den / num) - 1
    if num * Nat.pow 10 zeros = den then 1 - (zeros : Int) else -(zeros : Int)

/-! ### A given number of digits -/

/-- The value `num / den` rounded to `count` significant digits. -/
def significant (count : Nat) (num den : Nat) : Digits :=
  let places : Int := count - magnitude num den
  let (a, b) := scale num den places
  ofScaled (Binary64.divNearestEven a b) places

/-! ### The fewest digits -/

/-- Whether `n · 10^-places` reads back as the number `m · 2^e`: it lies between the midpoints
towards the two neighbours, and may be a midpoint if `m` is even. Values are compared in units of
a quarter of `2^e`. -/
def readsBack (m : Nat) (e : Int) (n : Nat) (places : Int) : Bool :=
  let (num, den) := Binary64.quotient 10 (4 * n) (-places)
  let (unit, part) := Binary64.quotient 2 1 e
  let a := num * part
  let b := den * unit
  let low := if m = Nat.pow 2 52 ∧ -1074 < e then 4 * m - 1 else 4 * m - 2
  let high := 4 * m + 2
  if m % 2 = 0 then low * b ≤ a && a ≤ high * b else low * b < a && a < high * b

/-- Of the two decimals with `count` digits around `m · 2^e`, the one that reads back; if both do,
the nearer, and at a tie the even one. -/
def shortestWith (m : Nat) (e : Int) (count : Nat) : Option Digits :=
  let (num, den) := Binary64.quotient 2 m e
  let places : Int := count - magnitude num den
  let (a, b) := scale num den places
  let nearest := Binary64.divNearestEven a b
  let below := a / b
  if readsBack m e nearest places then some (ofScaled nearest places)
  else if readsBack m e below places then some (ofScaled below places)
  else if readsBack m e (below + 1) places then some (ofScaled (below + 1) places)
  else none

/-- The fewest digits that read back as `m · 2^e`. Seventeen always do. -/
def shortest (m : Nat) (e : Int) : Digits :=
  ((List.range 17).firstM fun i => shortestWith m e (i + 1)).getD ⟨[], 0⟩

/-! ### Layouts -/

/-- The digits with the point put among them and at least `least` digits after it. -/
def positional (d : Digits) (least : Nat) : List Char :=
  let whole := d.digits.take d.point.toNat
  let fraction := d.digits.drop d.point.toNat
  let whole := whole ++ List.replicate (d.point.toNat - whole.length) '0'
  let fraction := List.replicate (-d.point).toNat '0' ++ fraction
  let fraction := fraction ++ List.replicate (least - fraction.length) '0'
  (if whole.isEmpty then ['0'] else whole) ++ (if fraction.isEmpty then [] else '.' :: fraction)

/-- One digit, the point and the others, and the exponent after `e`, written by `exponent`. -/
def scientific (d : Digits) (exponent : Int → List Char) : List Char :=
  d.digits.take 1 ++ (if d.digits.length ≤ 1 then [] else '.' :: d.digits.drop 1) ++
    'e' :: exponent (d.point - 1)

/-- A minus in front of a negative number. -/
def signed (negative : Bool) (cs : List Char) : String :=
  String.ofList (if negative then '-' :: cs else cs)

/-- The fewest digits, without an exponent. -/
def plain (x : Float) : String :=
  match Binary64.exact x with
  | .nan => "NaN"
  | .infinite negative => signed negative "inf".toList
  | .finite negative m e =>
    signed negative (if m = 0 then ['0'] else positional (shortest m e) 0)

/-- The fewest digits, at least one of them after the point; from `10^16` on and below `10^-4` with
an exponent. -/
def marked (x : Float) : String :=
  match Binary64.exact x with
  | .nan => "NaN"
  | .infinite negative => signed negative "inf".toList
  | .finite negative m e =>
    if m = 0 then signed negative "0.0".toList
    else
      let d := shortest m e
      if -3 ≤ d.point ∧ d.point ≤ 16 then signed negative (positional d 1)
      else signed negative (scientific d fun k => (toString k).toList)

/-- A signed exponent of at least two digits. -/
def exponentTwoDigits (k : Int) : List Char :=
  let ds := Nat.toDigits 10 k.natAbs
  (if k < 0 then '-' else '+') :: (if ds.length < 2 then '0' :: ds else ds)

/-- Fourteen significant digits without trailing zeros. -/
def general (x : Float) : String :=
  match Binary64.exact x with
  | .nan => "-nan"
  | .infinite negative => signed negative "inf".toList
  | .finite negative m e =>
    if m = 0 then signed negative ['0']
    else
      let (num, den) := Binary64.quotient 2 m e
      let d := significant 14 num den
      if -3 ≤ d.point ∧ d.point ≤ 14 then signed negative (positional d 0)
      else signed negative (scientific d exponentTwoDigits)

end KeyLight.Decimal
