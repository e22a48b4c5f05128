import KeyLight.Animation.Easing
import KeyLight.Number.Decimal

/-!
# Interpolators

An interpolator is a fade from one colour or number to another that starts at a point of time and
takes a number of seconds. Its value is a function of the time it is asked for and nothing else.

`progress`, `mix` and `Rgba.fade` are defined on every kind of number with an order and the four
operations.
-/

namespace KeyLight

/-- The fraction of a fade that is done after `elapsed` seconds out of `duration`. -/
def progress {α : Type} [Scale α] (duration elapsed : α) : α :=
  if duration ≤ 0.0 ∨ duration ≤ elapsed then 1.0
  else if elapsed ≤ 0.0 then 0.0
  else elapsed / duration

/-- The colour of a fade after `elapsed` seconds out of `duration`, along a curve. -/
def Rgba.fade {α : Type} [Scale α] (curve : α → α) (a b : Rgba) (duration elapsed : α) : Rgba :=
  Rgba.mix a b (curve (Easing.unit (progress duration elapsed)))

/-- The two ends of a fade. -/
inductive Endpoints
  | color (start target : Rgba)
  | number (start target : Float)
  deriving Repr, DecidableEq

/-- What a fade yields. -/
inductive Interpolated
  | color (c : Rgba)
  | number (x : Float)
  deriving Repr, DecidableEq

/-- A fade. -/
structure Interpolator where
  endpoints : Endpoints
  start : Float
  duration : Float
  easing : Easing
  deriving Repr, DecidableEq

namespace Interpolator

/-- The value `elapsed` seconds after the start. -/
def valueAfter (f : Interpolator) (elapsed : Float) : Interpolated :=
  match f.endpoints with
  | .color a b => .color (Rgba.fade f.easing.curve a b f.duration elapsed)
  | .number a b => .number (mix a b (f.easing.eval (progress f.duration elapsed)))

/-- The value at a point of time. -/
def valueAt (f : Interpolator) (now : Float) : Interpolated := f.valueAfter (now - f.start)

/-- Whether the fade has reached its target. -/
def isDone (f : Interpolator) (now : Float) : Bool := f.duration ≤ now - f.start

/-- A short text: the duration in seconds. -/
def text (f : Interpolator) : String := "Interpolator(" ++ Decimal.plain f.duration ++ "s)"

/-- A colour with its channels named. -/
def channelsText (c : Rgba) : String :=
  "RGBAColor \x7b red: " ++ toString c.red.toNat ++ ", green: " ++ toString c.green.toNat ++
    ", blue: " ++ toString c.blue.toNat ++ ", alpha: " ++ toString c.alpha.toNat ++ " \x7d"

/-- The two ends, named. -/
def endpointsText : Endpoints → String
  | .color a b => "Color(" ++ channelsText a ++ ", " ++ channelsText b ++ ")"
  | .number a b => "Number(" ++ Decimal.marked a ++ ", " ++ Decimal.marked b ++ ")"

/-- A text for diagnosis: ends, start and duration. -/
def debugText (f : Interpolator) : String :=
  "Interpolator \x7b endpoints: " ++ endpointsText f.endpoints ++ ", start: " ++
    Decimal.marked f.start ++ ", duration: " ++ Decimal.marked f.duration ++ " \x7d"

end Interpolator

end KeyLight
