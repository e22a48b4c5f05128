import KeyLight.World.Access

/-!
# Methods

A method takes the object it is called on as its first argument, which has to be of its type. What
it does to the world is confined to the render targets it writes and the object it makes for its
result.
-/

namespace KeyLight

namespace Method

/-- The name under which a method is known in errors. -/
def fullName (m : Method) : String := m.owner.methodOwner ++ "." ++ m.name

/-- The fault of a method that is called on something else. -/
def selfFault (m : Method) (reason : String) : Fault :=
  .conversion ("bad argument \x60self\x60 to \x60" ++ m.fullName ++ "\x60: " ++ reason)

end Method

namespace World

/-- The object that a method is called on. -/
def receiver {α : Type} [Exposed α] (w : World) (m : Method) (args : List Value) : Except Fault α :=
  match args with
  | [] => .error (m.selfFault "error converting Lua missing argument to userdata")
  | v :: _ =>
    match (w.heap.object? v).bind Exposed.unwrap? with
    | some a => .ok a
    | none => .error (m.selfFault "userdata is not expected type")

/-- An argument of a method, counted from one; a missing one is nil. -/
def argument (args : List Value) (position : Nat) : Value := args.getD (position - 1) .nil

/-- The text that an argument is converted to. -/
def textArgument (m : Method) (position : Nat) (v : Value) : Except Fault String :=
  let fault (reason : String) : Fault :=
    .conversion ("bad argument #" ++ toString position ++ " to \x60" ++ m.fullName ++
      "\x60: error converting Lua " ++ v.kind ++ " to String (" ++ reason ++ ")")
  match v.joinable? with
  | none => .error (fault "expected string or number")
  | some bytes =>
    match Utf8.decode bytes with
    | .ok text => .ok text
    | .error e => .error (fault e.message)

/-- The name of a group that is asked for. It is looked at before the object is. -/
def groupName (m : Method) (args : List Value) : Except Fault String :=
  if args.isEmpty then .ok "" else textArgument m 2 (argument args 2)

/-- The object or number of what a fade yields. -/
def ofInterpolated : Interpolated → Datum
  | .color c => .object (.color c)
  | .number x => .value (.float x)

/-- The key code that an argument gives. -/
def keyCode (v : Value) : Except CallError Nat :=
  match v.roundedInt? with
  | some n =>
    if 0 ≤ n ∧ n < UInt32.size then .ok n.toNat
    else .error (.argument "find_key_code" 2 "key code must be an unsigned integer")
  | none => .error (.argument "find_key_code" 2 "key code must be an unsigned integer")

/-- The elapsed time that an argument gives. -/
def elapsed (v : Value) : Except CallError Float :=
  match v.number? with
  | some x => .ok x
  | none => .error (.argument "at" 2 "elapsed time must be a number")

/-- Whether a group has a key. The groups of another board do not have it. -/
def hasKey (w : World) (h : GroupHandle) (k : KeyHandle) : Except CallError Bool :=
  if k.board.board == h.board.board then (w.group h).map fun g => g.keys.contains k.index
  else .ok false

/-- Calls a method that reads. -/
def readMethod (w : World) (m : Method) (args : List Value) : Except Fault Datum :=
  let v := argument args 2
  match m with
  | .blend => do
    let c : Rgba ← w.receiver m args
    let overlay : Rgba ← (w.heap.check (some v) 2).mapError .call
    .ok (.object (.color (c.blend overlay)))
  | .value => do
    let f : Interpolator ← w.receiver m args
    .ok (ofInterpolated (f.valueAt w.context.clock))
  | .at => do
    let f : Interpolator ← w.receiver m args
    let t ← (elapsed v).mapError .call
    .ok (ofInterpolated (f.valueAfter t))
  | .findKeyCode => do
    let h : BoardHandle ← w.receiver m args
    let code ← (keyCode v).mapError .call
    let k ← (w.board h).mapError .call
    .ok (.ofOption ((k.findKeyCode? code).map fun k => .key (h.key k.index)))
  | .group => do
    let name ← groupName m args
    let h : BoardHandle ← w.receiver m args
    let k ← (w.board h).mapError .call
    .ok (.ofOption ((k.groupIndex? name).map fun i => .group (h.group i)))
  | .contains => do
    let h : GroupHandle ← w.receiver m args
    let k : KeyHandle ← (w.heap.check (some v) 2).mapError .call
    .ok (.value (.bool (← (w.hasKey h k).mapError .call)))
  | .fill => .error .interpreter

/-- Gives every slot of a render target one colour. -/
def fill (w : World) (args : List Value) : Except Fault World := do
  let h : TargetHandle ← w.receiver .fill args
  let c ← (w.slotColor (argument args 2) 2).mapError .call
  match ← (w.writeTarget h fun t => some (t.fill c)).mapError .call with
  | some r => .ok (w.withRealm r)
  | none => .ok w

/-- Goes on with what was read, or with what is wrong. -/
def realizeResult (w : World) : Except Fault Datum → Except Fault Value × World
  | .ok datum =>
    let (v, w) := w.realize datum
    (.ok v, w)
  | .error f => (.error f, w)

/-- Calls a method. -/
def callMethod (w : World) (m : Method) (args : List Value) : Except Fault Value × World :=
  match m with
  | .fill =>
    match w.fill args with
    | .ok w => (.ok .nil, w)
    | .error f => (.error f, w)
  | _ => w.realizeResult (w.readMethod m args)

end World

end KeyLight
