import KeyLight.Native.Capability

/-!
# Effects

What a capability does can be said without the stack: it gives values that are there, sends a text
to the controller, gives a new object, or starts a thread and gives its object (`Effect`). The effect
can be read off the arguments (`Capability.effect`), and the body of the capability has it
(`Capability.body_eq`). So a call comes to what the effect pushes (`entryPoint_body`).
-/

namespace KeyLight

/-- What a capability does. -/
inductive Effect
  /-- Gives values that are there. -/
  | give (vs : List Value)
  /-- Sends a text to the controller of a number. -/
  | say (controller : Nat) (text : String)
  /-- Gives a new object. -/
  | make (o : Object)
  /-- Starts a thread and gives its object. -/
  | start (routine : Value) (args : List Value)

/-- Has an effect on the world and on the stack. The number is that of the results on top. -/
def Effect.perform (w : World) (s : Stack) : Effect → World × Stack × Nat
  | .give vs => (w, vs.foldl Stack.push s, vs.length)
  | .say controller text => (w.tell (@Notice.printed controller text), s, 0)
  | .make o =>
    let (v, w) := w.newObject o
    (w, s.push v, 1)
  | .start routine args =>
    let (v, w) := startThread w routine args
    (w, s.push v, 1)

namespace Capability

/-- What a capability does with its arguments, or what is wrong with them. -/
def effect (c : Capability) (w : World) (s : Stack) : Except Fault Effect :=
  match c with
  | .print => do
    let (controller, _) ← (w.attached?).mapError .call
    .ok (.say controller (← (joinTexts w s.values).mapError .call))
  | .tocolor => do
    match ← (describedColor w s).mapError .call with
    | some c => .ok (.make (.color c))
    | none => .ok (.give [.nil])
  | .fade => do
    .ok (.make (.fade (← (describedFade w s).mapError .call)))
  | .thread =>
    match (s.get? 1).filter Value.isFunction with
    | some routine => .ok (.start routine (s.values.drop 1))
    | none =>
      .error (.call (.argument "thread" 1 ("function expected, got " ++ Value.describe (s.get? 1))))
  | .wait => do
    let x ← (s.finiteNumber 1 "wait").mapError .call
    .ok (.make (.suspension ⟨if 0.0 < x then x else 0.0⟩))
  | .now => .ok (.give [.float w.context.clock])

/-- **The body of a capability has the effect** that can be read off its arguments. -/
theorem body_eq (c : Capability) (w : World) (s : Stack) :
    c.body w s = (c.effect w s).map (Effect.perform w s) := by
  cases c with
  | print =>
    simp only [body, printBody, effect]
    cases w.attached? with
    | error e => rfl
    | ok attached => cases joinTexts w s.values <;> rfl
  | tocolor =>
    simp only [body, tocolorBody, effect]
    cases describedColor w s with
    | error e => rfl
    | ok c => cases c <;> rfl
  | fade =>
    simp only [body, fadeBody, effect]
    cases describedFade w s <;> rfl
  | thread =>
    simp only [body, threadBody, effect]
    cases (s.get? 1).filter Value.isFunction <;> rfl
  | wait =>
    simp only [body, requestBody, effect]
    cases s.finiteNumber 1 "wait" <;> rfl
  | now => rfl

end Capability

/-- A call of a capability gives what its effect leaves on top of the stack. -/
theorem entryPoint_body (c : Capability) (w : World) (args : List Value) :
    entryPoint c.body w args =
      match c.effect w (.ofArguments args) with
      | .error f => (.error f, w)
      | .ok effect =>
        let (w, s, count) := effect.perform w (.ofArguments args)
        (.ok (s.results count), w) := by
  unfold entryPoint
  rw [c.body_eq]
  cases c.effect w (.ofArguments args) <;> rfl

end KeyLight
