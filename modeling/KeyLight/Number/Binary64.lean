/-!
# Exact values of floating-point numbers

A binary64 number is a sign, an integer `m` and an exponent `e`, with the value `± m · 2^e`, or
infinite, or not a number. `exact` takes a number apart, and `ofRatio` puts the nearest number to a
quotient together, a tie going to the even mantissa. Everything that has to come out to the last
digit (printing, reading, rounding to a colour channel, one-based positions) is computed on these
integers.
-/

namespace KeyLight

/-- A floating-point number taken apart. -/
inductive Exact
  | nan
  | infinite (negative : Bool)
  /-- The value `± m · 2^e`. -/
  | finite (negative : Bool) (m : Nat) (e : Int)
  deriving Repr, DecidableEq

namespace Binary64

/-- Takes a number apart. -/
def exact (x : Float) : Exact :=
  let bits := x.toBits.toNat
  let negative := bits / Nat.pow 2 63 == 1
  let field : Nat := bits / Nat.pow 2 52 % 2048
  let fraction := bits % Nat.pow 2 52
  if field = 2047 then if fraction = 0 then .infinite negative else .nan
  else if field = 0 then .finite negative fraction (-1074)
  else .finite negative (fraction + Nat.pow 2 52) ((field : Int) - 1075)

/-- The value `m · base^e` as a quotient of natural numbers. -/
def quotient (base m : Nat) (e : Int) : Nat × Nat :=
  if 0 ≤ e then (m * Nat.pow base e.toNat, 1) else (m, Nat.pow base (-e).toNat)

/-- The value `± m · 2^e`. -/
def rational (negative : Bool) (m : Nat) (e : Int) : Rat :=
  let (num, den) := quotient 2 m e
  if negative then -mkRat num den else mkRat num den

/-- The value of a finite number. -/
def toRat? (x : Float) : Option Rat :=
  match exact x with
  | .finite negative m e => some (rational negative m e)
  | _ => none

/-- The integer that a number is equal to, if there is one. -/
def toInt? (x : Float) : Option Int :=
  match exact x with
  | .finite negative m e =>
    let (num, den) := quotient 2 m e
    if num % den = 0 then
      some (if negative then -((num / den : Nat) : Int) else (num / den : Nat))
    else none
  | _ => none

/-- The quotient rounded to the nearest integer, a tie to the even one. -/
def divNearestEven (num den : Nat) : Nat :=
  let q := num / den
  let r := num % den
  if 2 * r < den then q else if den < 2 * r then q + 1 else q + q % 2

/-- The greatest `k` with `2^k ≤ num / den`, for positive `num` and `den`. -/
def log2Ratio (num den : Nat) : Int :=
  let guess : Int := (num.log2 : Int) - den.log2
  let (a, b) := quotient 2 den guess
  if a ≤ num * b then guess else guess - 1

/-- The bits of a number without its sign: `m · 2^e` with `m ≤ 2^53`, `-1074 ≤ e`, and `2^52 ≤ m`
unless `e` is least. Past the greatest exponent the number is infinite. -/
def magnitudeBits (m : Nat) (e : Int) : Nat :=
  let bits := if m < Nat.pow 2 52 then m else (e + 1075).toNat * Nat.pow 2 52 + (m - Nat.pow 2 52)
  min bits (2047 * Nat.pow 2 52)

/-- The number nearest to `± num / den`, a tie going to the even mantissa. -/
def ofRatio (negative : Bool) (num den : Nat) : Float :=
  let sign := if negative then Nat.pow 2 63 else 0
  let magnitude :=
    if num = 0 ∨ den = 0 then 0
    else
      let e := max (-1074) (log2Ratio num den - 52)
      let (a, b) := quotient 2 den e
      magnitudeBits (divNearestEven (num * b) a) e
  Float.ofBits (UInt64.ofNat (sign + magnitude))

/-- An integer rounded to 53 significant bits, a tie to the even one. -/
def nearestInt (n : Int) : Int :=
  let size := n.natAbs.log2
  if size < 53 then n
  else
    let unit := Nat.pow 2 (size - 52)
    let magnitude : Nat := divNearestEven n.natAbs unit * unit
    if n < 0 then -(magnitude : Int) else magnitude

/-- The number nearest to an integer. -/
def ofInt (n : Int) : Float := ofRatio (n < 0) n.natAbs 1

end Binary64

/-- Rounds to the nearest integer, a tie away from zero. -/
def roundAway (q : Rat) : Int := if 0 ≤ q then (q + 1 / 2).floor else -(-q + 1 / 2).floor

end KeyLight
