import KeyLight.Color.Rgb

/-!
# Mixing colours

Fades compute with numbers between the channels of two colours. The computation is written once, for
every kind of number with the four operations, an order and a way from and to channels (`Scale`):
scripts run on floating-point numbers, and what the computation means is said on the rationals.
-/

namespace KeyLight

/-- Numbers that colour channels are mixed in. -/
class Scale (α : Type) extends Add α, Sub α, Mul α, Div α, LT α, LE α, OfScientific α where
  /-- The number of a channel. -/
  ofChannel : UInt8 → α
  /-- The channel nearest to a number. -/
  toChannel : α → UInt8
  /-- The order can be decided. -/
  decLT : DecidableLT α
  /-- The order can be decided. -/
  decLE : DecidableLE α

instance Scale.instDecidableLT {α : Type} [Scale α] : DecidableLT α := Scale.decLT

instance Scale.instDecidableLE {α : Type} [Scale α] : DecidableLE α := Scale.decLE

/-- The channel nearest to an integer. -/
def saturate (n : Int) : UInt8 := UInt8.ofNat (min n.toNat 255)

/-- The channel nearest to a rational number: halves are rounded away from zero, and what is out of
range is replaced by the end of the range. -/
def ratChannel (q : Rat) : UInt8 := saturate (roundAway q)

/-- The channel nearest to a floating-point number; zero if it is none. -/
def channel (x : Float) : UInt8 :=
  match Binary64.exact x with
  | .nan => 0
  | .infinite negative => if negative then 0 else 255
  | .finite negative m e => ratChannel (Binary64.rational negative m e)

instance : Scale Rat where
  ofChannel c := (c.toNat : Rat)
  toChannel := ratChannel
  decLT := inferInstance
  decLE := inferInstance

instance : Scale Float where
  ofChannel c := c.toFloat
  toChannel := channel
  decLT := inferInstance
  decLE := inferInstance

/-- The number at the fraction `t` of the way from `a` to `b`. -/
def mix {α : Type} [Add α] [Sub α] [Mul α] (a b t : α) : α := a + (b - a) * t

/-- The colour at the fraction `t` of the way from `a` to `b`, channel by channel. -/
def Rgba.mix {α : Type} [Scale α] (a b : Rgba) (t : α) : Rgba :=
  let between (x y : UInt8) : UInt8 :=
    Scale.toChannel (KeyLight.mix (Scale.ofChannel x : α) (Scale.ofChannel y) t)
  ⟨between a.red b.red, between a.green b.green, between a.blue b.blue, between a.alpha b.alpha⟩

end KeyLight
