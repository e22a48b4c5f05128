import KeyLight.Color.Scale
import KeyLight.Native.Stack

/-!
# Arguments

How the capabilities read their arguments: finite numbers, which numerals stand for, too, and the
shapes of argument lists that describe a colour.
-/

namespace KeyLight

/-- Whether a number is neither infinite nor not a number. -/
def isFinite (x : Float) : Bool := (Binary64.toRat? x).isSome

namespace Stack

/-- The number that an argument is or stands for. -/
def number? (s : Stack) (position : Nat) : Option Float := (s.get? position).bind Value.coerced?

/-- The finite number that an argument has to be or stand for. -/
def finiteNumber (s : Stack) (position : Nat) (function : String) : Except CallError Float :=
  let refused : CallError :=
    .argument function position ("number expected, got " ++ Value.describe (s.get? position))
  match s.number? position with
  | some x => if isFinite x then .ok x else .error refused
  | none => .error refused

end Stack

/-- The shapes of argument lists that describe a colour. -/
inductive ColorShape
  | text (description : String)
  | rgb (r g b : Float)
  | rgba (r g b a : Float)
  | unmatched
  deriving Repr, DecidableEq

namespace ColorShape

/-- The shape of an argument list: one text, or three or four numbers. -/
def ofStack (s : Stack) : ColorShape :=
  match s.height with
  | 1 =>
    match s.get? 1 with
    | some (.text bytes) => .text (Utf8.decodeLossy bytes)
    | _ => .unmatched
  | 3 =>
    match s.number? 1, s.number? 2, s.number? 3 with
    | some r, some g, some b => .rgb r g b
    | _, _, _ => .unmatched
  | 4 =>
    match s.number? 1, s.number? 2, s.number? 3, s.number? 4 with
    | some r, some g, some b, some a => .rgba r g b a
    | _, _, _, _ => .unmatched
  | _ => .unmatched

end ColorShape

end KeyLight
