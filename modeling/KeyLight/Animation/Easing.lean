import KeyLight.Text.Blank
import KeyLight.Color.Scale

/-!
# Easing curves

An easing curve bends the progress of a fade. A curve runs from 0 at 0 to 1 at 1; `eval` keeps its
argument in that range. The linear curve and the bounce need the four operations and an order alone,
so they are defined on every kind of number, and the three sine curves on floating-point numbers.
-/

namespace KeyLight

/-- The easing curves. -/
inductive Easing
  | linear
  | easeIn
  | easeOut
  | easeInOut
  | bounceOut
  deriving Repr, DecidableEq

namespace Easing

/-- All curves. -/
def all : List Easing := [.linear, .easeIn, .easeOut, .easeInOut, .bounceOut]

/-- The name of a curve. -/
def name : Easing → String
  | .linear => "linear"
  | .easeIn => "ease_in"
  | .easeOut => "ease_out"
  | .easeInOut => "ease_in_out"
  | .bounceOut => "bounce_out"

/-- The name of a curve without the marks between its words. -/
def joinedName (e : Easing) : String := String.ofList (e.name.toList.filter (· != '_'))

/-- The curve that a text names, whatever blank characters are around it and whatever the case. -/
def ofName? (text : String) : Option Easing :=
  let word := Text.lookupForm text
  all.find? fun e => word == e.name || word == e.joinedName

/-- A parabola of the bounce, which is lowest at `middle`. -/
def rebound {α : Type} [Scale α] (middle lowest x : α) : α :=
  let x := x - middle
  7.5625 * x * x + lowest

/-- The bounce: four parabolas, each lower rebound shorter than the one before. -/
def bounce {α : Type} [Scale α] (x : α) : α :=
  if x < 1.0 / 2.75 then 7.5625 * x * x
  else if x < 2.0 / 2.75 then rebound (1.5 / 2.75) 0.75 x
  else if x < 2.5 / 2.75 then rebound (2.25 / 2.75) 0.9375 x
  else rebound (2.625 / 2.75) 0.984375 x

/-- Half the circumference of a circle of radius one. -/
def halfTurn : Float := 3.141592653589793

/-- The height of a curve. -/
def curve (e : Easing) (x : Float) : Float :=
  match e with
  | .linear => x
  | .easeIn => Float.sin ((x - 1.0) * (halfTurn / 2.0)) + 1.0
  | .easeOut => Float.sin (x * (halfTurn / 2.0))
  | .easeInOut => 0.5 * (1.0 - Float.cos (x * halfTurn))
  | .bounceOut => bounce x

/-- Whether the heights of a curve come from a sine. -/
def isSine : Easing → Bool
  | .linear | .bounceOut => false
  | .easeIn | .easeOut | .easeInOut => true

/-- The height of a curve that takes no sine, on every kind of number. -/
def arithmetic? {α : Type} [Scale α] : Easing → Option (α → α)
  | .linear => some id
  | .bounceOut => some bounce
  | .easeIn | .easeOut | .easeInOut => none

/-- Such a curve is one on floating-point numbers. -/
theorem curve_eq_of_arithmetic? {e : Easing} {height : Float → Float}
    (h : e.arithmetic? = some height) : e.curve = height := by
  cases e <;> cases h <;> rfl

/-- Keeps a number between 0 and 1. -/
def unit {α : Type} [Scale α] (x : α) : α :=
  if x < 0.0 then 0.0 else if 1.0 < x then 1.0 else x

/-- The height of a curve at the point of [0, 1] nearest to `x`. -/
def eval (e : Easing) (x : Float) : Float := e.curve (unit x)

end Easing

end KeyLight
