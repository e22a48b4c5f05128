import KeyLight.Number.Decimal
import KeyLight.Number.Numeral
import KeyLight.Script.Value

/-!
# Numbers in scripts

A number is an integer of 64 bits or a floating-point number. Arithmetic on integers wraps around,
and any other arithmetic is done in floating point. Numerals in texts count as numbers for
arithmetic and for arguments that ask for a number. Comparisons are exact: an integer equals a
floating-point number, or lies below it, by value and not after rounding.
-/

namespace KeyLight.Value

/-! ### Reading numbers off values -/

/-- The number a value is, or that its text is a numeral of. -/
def numeral? : Value → Option Numeral
  | .int n => some (.int n)
  | .float x => some (.float x)
  | .text bytes => Numeral.read? bytes
  | _ => none

/-- A number in floating point. -/
def numeralToFloat : Numeral → Float
  | .int n => Binary64.ofInt n.toInt
  | .float x => x

/-- The number a value is, in floating point. -/
def number? : Value → Option Float
  | .int n => some (Binary64.ofInt n.toInt)
  | .float x => some x
  | _ => none

/-- The number a value is or stands for, in floating point. -/
def coerced? (v : Value) : Option Float := v.numeral?.map numeralToFloat

/-- The integer a number is equal to. One with more than 53 significant bits counts as the nearest
integer with 53. -/
def roundedInt? : Value → Option Int
  | .int n => some (Binary64.nearestInt n.toInt)
  | .float x => Binary64.toInt? x
  | _ => none

/-- The greatest position, counted from zero, that an index denotes. -/
def maxIndex : Nat := UInt64.size - 2

/-- The position, counted from zero, that an index counted from one denotes. -/
def index? (v : Value) : Option Nat :=
  match v.roundedInt? with
  | some n => if 1 ≤ n then some (min (n.toNat - 1) maxIndex) else none
  | none => none

/-! ### Texts -/

/-- Whether a text of a number could be that of an integer. -/
def looksIntegral (text : String) : Bool := text.toList.all fun c => c == '-' || isDigitIn 10 c

/-- The text of a floating-point number: fourteen significant digits, and `.0` after those that
could be an integer. -/
def floatText (x : Float) : String :=
  let text := Decimal.general x
  if looksIntegral text then text ++ ".0" else text

/-- The bytes of a text, or of the text of a number. -/
def joinable? : Value → Option Bytes
  | .text bytes => some bytes
  | .int n => some (Utf8.encode (toString n.toInt))
  | .float x => some (Utf8.encode (floatText x))
  | _ => none

/-- Joins texts and numbers. -/
def concat? (a b : Value) : Option Value := do
  some (.text ((← a.joinable?) ++ (← b.joinable?)))

/-! ### Arithmetic -/

/-- The arithmetic operations. -/
inductive Arithmetic
  | add
  | sub
  | mul

/-- On integers, modulo `2^64`. -/
def Arithmetic.onInts : Arithmetic → Int64 → Int64 → Int64
  | .add, a, b => a + b
  | .sub, a, b => a - b
  | .mul, a, b => a * b

/-- On floating-point numbers. -/
def Arithmetic.onFloats : Arithmetic → Float → Float → Float
  | .add, a, b => a + b
  | .sub, a, b => a - b
  | .mul, a, b => a * b

/-- The result of an operation, if both operands are numbers or numerals. -/
def arithmetic? (op : Arithmetic) (a b : Value) : Option Value := do
  match ← a.numeral?, ← b.numeral? with
  | .int m, .int n => some (.int (op.onInts m n))
  | m, n => some (.float (op.onFloats (numeralToFloat m) (numeralToFloat n)))

/-! ### Comparisons -/

/-- Whether an integer lies below a floating-point number. -/
def intBelow (n : Int64) (x : Float) : Bool :=
  match Binary64.exact x with
  | .nan => false
  | .infinite negative => !negative
  | .finite negative m e => (n.toInt : Rat) < Binary64.rational negative m e

/-- Whether a floating-point number lies below an integer. -/
def belowInt (x : Float) (n : Int64) : Bool :=
  match Binary64.exact x with
  | .nan => false
  | .infinite negative => negative
  | .finite negative m e => Binary64.rational negative m e < (n.toInt : Rat)

/-- The order of byte strings. -/
def bytesBelow : Bytes → Bytes → Bool
  | _, [] => false
  | [], _ :: _ => true
  | a :: as, b :: bs => a < b || (a == b && bytesBelow as bs)

/-- Whether a number lies below a number or a text below a text; other values have no order. -/
def less? : Value → Value → Option Bool
  | .int a, .int b => some (a < b)
  | .int a, .float b => some (intBelow a b)
  | .float a, .int b => some (belowInt a b)
  | .float a, .float b => some (a < b)
  | .text a, .text b => some (bytesBelow a b)
  | _, _ => none

/-- Whether two values are equal without asking an object: numbers by value, texts by their bytes,
everything else if it is the same thing. -/
def sameAs : Value → Value → Bool
  | .int a, .float b => Binary64.toInt? b == some a.toInt
  | .float a, .int b => Binary64.toInt? a == some b.toInt
  | .float a, .float b => a == b
  | a, b => a = b

end KeyLight.Value
