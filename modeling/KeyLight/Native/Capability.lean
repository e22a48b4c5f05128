import KeyLight.Native.Argument
import KeyLight.World.Text

/-!
# Capabilities

The functions that the host gives to scripts. Each is the body of a native function (`NativeBody`):
it reads its arguments from the stack and pushes its results, or says what is wrong with them.

`Capability.body` never looks at a global variable, so what scripts do to the names of capabilities
changes nothing for the capabilities themselves.
-/

namespace KeyLight.Capability

/-! ### Texts for the controller -/

/-- The texts of values, one after the other. -/
def joinTexts (w : World) : List Value → Except CallError String
  | [] => .ok ""
  | v :: vs => do
    let text ← w.text v
    .ok (Utf8.decodeLossy text ++ (← joinTexts w vs))

/-- Sends the texts of the arguments to the controller as one text. -/
def printBody : NativeBody := fun w s => do
  let (controller, _) ← (w.attached?).mapError .call
  let text ← (joinTexts w s.values).mapError .call
  .ok (w.tell (@Notice.printed controller text), s, 0)

/-! ### Colours -/

/-- The colour that arguments describe, if they describe one. -/
def describedColor (w : World) (s : Stack) : Except CallError (Option Rgba) :=
  match ColorShape.ofStack s with
  | .text description => do .ok ((← w.controller?).parseColor? description)
  | .rgb r g b => .ok (some ⟨channel r, channel g, channel b, Rgba.fullAlpha⟩)
  | .rgba r g b a => .ok (some ⟨channel r, channel g, channel b, channel a⟩)
  | .unmatched => .ok none

/-- Pushes a new colour, or nil. -/
def tocolorBody : NativeBody := fun w s => do
  match ← (describedColor w s).mapError .call with
  | some c =>
    let (v, w) := w.newObject (.color c)
    .ok (w, s.push v, 1)
  | none => .ok (w, s.push .nil, 1)

/-! ### Fades -/

/-- An end of a fade between colours: a colour, or a text that the controller resolves. -/
def endpointColor (w : World) (v : Option Value) (position : Nat) : Except CallError Rgba :=
  match v with
  | some (.text bytes) => do
    let text := Utf8.decodeLossy bytes
    match (← w.controller?).parseColor? text with
    | some c => .ok c
    | none => .error (.argument "fade" position ("unknown color '" ++ text ++ "'"))
  | some (.object _) => w.heap.check v position
  | _ =>
    .error (.argument "fade" position ("color or number expected, got " ++ Value.describe v))

/-- The ends of a fade. Either both are numbers or neither is. -/
def endpoints (w : World) (s : Stack) : Except CallError Endpoints :=
  let a := s.get? 1
  let b := s.get? 2
  match a.bind Value.number?, b.bind Value.number? with
  | some x, some y => .ok (.number x y)
  | none, none => do
    let c ← endpointColor w a 1
    .ok (.color c (← endpointColor w b 2))
  | _, _ =>
    .error (.argument "fade" 2
      ("endpoints must both be numbers or both colors, got " ++ Value.describe a ++ " and " ++
        Value.describe b))

/-- The duration of a fade. -/
def fadeDuration (s : Stack) : Except CallError Float := do
  let x ← s.finiteNumber 3 "fade"
  if x < 0.0 then .error (.argument "fade" 3 "duration must not be negative") else .ok x

/-- The curve of a fade. -/
def fadeEasing (w : World) (s : Stack) : Except CallError Easing :=
  match s.get? 4 with
  | none | some .nil => .ok w.context.defaultEasing
  | some (.text bytes) =>
    let name := Utf8.decodeLossy bytes
    match Easing.ofName? name with
    | some e => .ok e
    | none => .error (.argument "fade" 4 ("unknown easing '" ++ name ++ "'"))
  | v => .error (.argument "fade" 4 ("easing name expected, got " ++ Value.describe v))

/-- The fade that arguments describe. It starts now. -/
def describedFade (w : World) (s : Stack) : Except CallError Interpolator := do
  let ends ← endpoints w s
  let duration ← fadeDuration s
  let easing ← fadeEasing w s
  .ok ⟨ends, w.context.clock, duration, easing⟩

/-- Pushes a new interpolator. -/
def fadeBody : NativeBody := fun w s => do
  let f ← (describedFade w s).mapError .call
  let (v, w) := w.newObject (.fade f)
  .ok (w, s.push v, 1)

/-! ### Threads -/

/-- Starts a thread with the arguments after the function, and pushes its object. -/
def threadBody : NativeBody := fun w s =>
  match (s.get? 1).filter Value.isFunction with
  | some routine =>
    let (v, w) := Effect.startThread w routine (s.values.drop 1)
    .ok (w, s.push v, 1)
  | none =>
    .error (.call (.argument "thread" 1 ("function expected, got " ++ Value.describe (s.get? 1))))

/-- Pushes the request to be resumed after some seconds, none if their number is negative. -/
def requestBody : NativeBody := fun w s => do
  let x ← (s.finiteNumber 1 "wait").mapError .call
  let (v, w) := w.newObject (.suspension ⟨if 0.0 < x then x else 0.0⟩)
  .ok (w, s.push v, 1)

/-! ### Time -/

/-- Pushes the time of the environment. -/
def nowBody : NativeBody := fun w s => .ok (w, s.push (.float w.context.clock), 1)

/-- The native part of a capability. That of `wait` pushes the request that the thread is then
suspended with. -/
def body : Capability → NativeBody
  | .print => printBody
  | .tocolor => tocolorBody
  | .fade => fadeBody
  | .thread => threadBody
  | .wait => requestBody
  | .now => nowBody

end KeyLight.Capability
