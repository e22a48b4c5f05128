import KeyLight.World.Text

/-!
# Access to values

What scripts read from values and write to them without calling a method: positions and fields, the
length, and equality. The key that an object is indexed with is looked for among the fields of its
type, then among the methods, and then the type decides. Positions count from one, and a position
that is no integer, or that is out of range, holds nil.

Reading changes nothing but that it may make an object for its result, so readers return a `Datum`
and `World.realize` makes the object.
-/

namespace KeyLight

/-- What is read: a value that is there, or an object to be made. -/
inductive Datum
  | value (v : Value)
  | object (o : Object)
  deriving Repr, DecidableEq

/-- A datum for what may be missing. -/
def Datum.ofOption (o : Option Object) : Datum := o.elim (.value .nil) .object

namespace Value

/-- The name that a key is, if it is one. -/
def name? : Value → Option String
  | .text bytes => Utf8.decode? bytes
  | _ => none

/-- A natural number as an integer. -/
def ofNat (n : Nat) : Value := .int (Int64.ofNat n)

end Value

namespace Method

/-- All methods. -/
def all : List Method := [.blend, .value, .at, .findKeyCode, .group, .contains, .fill]

/-- The type whose method it is. -/
def owner : Method → ObjectType
  | .blend => .color
  | .value | .at => .fade
  | .findKeyCode | .group => .board
  | .contains => .group
  | .fill => .target

def name : Method → String
  | .blend => "blend"
  | .value => "value"
  | .at => "at"
  | .findKeyCode => "find_key_code"
  | .group => "group"
  | .contains => "contains"
  | .fill => "fill"

/-- The method of a name that a type has. -/
def find? (type : ObjectType) (name : String) : Option Method :=
  all.find? fun m => m.owner == type && m.name == name

end Method

namespace World

/-- Makes the object of a datum. -/
def realize (w : World) : Datum → Value × World
  | .value v => (v, w)
  | .object o => w.newObject o

/-! ### Fields -/

/-- The fields of a colour. -/
def colorField? (c : Rgba) : String → Option Value
  | "red" => some (.ofNat c.red.toNat)
  | "green" => some (.ofNat c.green.toNat)
  | "blue" => some (.ofNat c.blue.toNat)
  | "alpha" => some (.ofNat c.alpha.toNat)
  | _ => none

/-- The fields of an interpolator. -/
def fadeField? (w : World) (f : Interpolator) : String → Option Value
  | "duration" => some (.float f.duration)
  | "done" => some (.bool (f.isDone w.context.clock))
  | _ => none

/-- The fields of a thread. -/
def threadField? (w : World) (h : ThreadHandle) : String → Option Value
  | "id" => some (.ofNat h.id)
  | "state" => some (.ofString (w.stateName h))
  | _ => none

/-- The fields of a key. -/
def keyField? (k : Key) : String → Option Value
  | "index" => some (.ofNat (k.index + 1))
  | "key_code" => some (.ofNat k.keyCode)
  | "name" => some (.ofString k.name)
  | "x0" => some (.ofNat k.position.x0)
  | "y0" => some (.ofNat k.position.y0)
  | "x1" => some (.ofNat k.position.x1)
  | "y1" => some (.ofNat k.position.y1)
  | _ => none

/-- The names of the fields of a key. -/
def keyFieldNames : List String := ["index", "key_code", "name", "x0", "y0", "x1", "y1"]

/-- The field of an object. A field that the type does not have is `none`; one that it has can be
out of reach. -/
def field? (w : World) (o : Object) (name : String) : Option (Except CallError Value) :=
  match o with
  | .color c => (colorField? c name).map .ok
  | .fade f => (w.fadeField? f name).map .ok
  | .thread h => (w.threadField? h name).map .ok
  | .group h => if name = "name" then some ((w.group h).map fun g => .ofString g.name) else none
  | .key h =>
    if keyFieldNames.contains name then
      some ((w.key h).map fun k => (keyField? k name).getD .nil)
    else none
  | .suspension _ | .board _ | .target _ => none

/-! ### Positions -/

/-- The slot of a render target that a key denotes: that of a key of the board, or that of a
position. -/
def targetSlot (w : World) (key : Value) (position : Nat) : Except CallError (Option Nat) :=
  match w.heap.object? key with
  | some (.key h) => .ok (some h.index)
  | _ =>
    match key with
    | .int _ | .float _ => .ok key.index?
    | _ => .error (.typeMismatch position "integer or Key" (Value.describe (some key)))

/-- The colour of a value for a slot of a render target: a colour, or the present one of a fade
between colours. -/
def slotColor (w : World) (v : Value) (position : Nat) : Except CallError Rgba :=
  match w.heap.object? v with
  | some (.color c) => .ok c
  | some (.fade f) =>
    match f.valueAt w.context.clock with
    | .color c => .ok c
    | .number _ =>
      .error (.argument "__newindex" position "interpolator does not produce colors")
  | _ => .error (.typeMismatch position "RGBAColor or Interpolator" (Value.describe (some v)))

/-- The key of a board that a name or a position denotes. -/
def boardKey? (k : Keyboard) (key : Value) : Option Key :=
  match key with
  | .text bytes => k.findName? (Utf8.decodeLossy bytes)
  | _ => key.index?.bind k.key?

/-- What a board holds at a key. -/
def boardItem (w : World) (h : BoardHandle) (key : Value) : Except CallError Datum := do
  let k ← w.board h
  .ok (.ofOption ((boardKey? k key).map fun k => .key (h.key k.index)))

/-- What a group holds at a position. -/
def groupItem (w : World) (h : GroupHandle) (key : Value) : Except CallError Datum :=
  match key.index? with
  | none => .ok (.value .nil)
  | some i => do
    .ok (.ofOption ((← w.group h).keys[i]?.map fun index => .key (h.board.key index)))

/-- What a render target holds at a key. -/
def targetItem (w : World) (h : TargetHandle) (key : Value) : Except CallError Datum := do
  match ← w.targetSlot key 2 with
  | none => .ok (.value .nil)
  | some slot => do .ok (.ofOption (((← w.readTarget h).get? slot).map .color))

/-- The text of a key that an object without positions is indexed with. -/
def keyText? (key : Value) : Option String := key.joinable?.map Utf8.decodeLossy

/-- What an object holds at a key that is neither a field nor a method. -/
def item (w : World) (o : Object) (key : Value) : Except Fault Datum :=
  match o with
  | .color _ | .fade _ => .ok (.value .nil)
  | .thread _ | .key _ =>
    match keyText? key with
    | some name => .error (.raised ("attempt to get an unknown field '" ++ name ++ "'"))
    | none => .error .interpreter
  | .suspension _ => .error .interpreter
  | .board h => (w.boardItem h key).mapError .call
  | .group h => (w.groupItem h key).mapError .call
  | .target h => (w.targetItem h key).mapError .call

/-- What an object holds at a key. -/
def objectIndex (w : World) (o : Object) (key : Value) : Except Fault Datum :=
  match key.name?.bind (w.field? o) with
  | some read => (read.map .value).mapError .call
  | none =>
    match key.name?.bind (Method.find? o.type) with
    | some m => .ok (.value (.builtin (.method m)))
    | none => w.item o key

/-- What a value holds at a key. A text has no fields. -/
def index (w : World) (container key : Value) : Except Fault Datum :=
  match container with
  | .table id => .ok (.value ((w.heap.readTable id).get key))
  | .text _ => .ok (.value .nil)
  | .object id =>
    match w.heap.objects[id]? with
    | some o => w.objectIndex o key
    | none => .error .interpreter
  | _ => .error .interpreter

/-! ### Lengths -/

/-- The length of an object. -/
def objectLength (w : World) : Object → Except Fault Nat
  | .board h => ((w.board h).map (·.size)).mapError .call
  | .group h => ((w.group h).map (·.keys.length)).mapError .call
  | .target h => ((w.readTarget h).map (·.size)).mapError .call
  | .color _ | .fade _ | .thread _ | .suspension _ | .key _ => .error .interpreter

/-- The length of a value. -/
def length (w : World) : Value → Except Fault Nat
  | .table id => .ok (w.heap.readTable id).length
  | .text bytes => .ok bytes.length
  | v =>
    match w.heap.object? v with
    | some o => w.objectLength o
    | none => .error .interpreter

/-! ### Writing -/

/-- Writes a slot of a render target. -/
def putSlot (w : World) (h : TargetHandle) (key v : Value) : Except CallError World := do
  let c ← w.slotColor v 3
  let written ← match ← w.targetSlot key 2 with
    | some slot => w.writeTarget h (·.set? slot c)
    | none => .ok none
  match written with
  | some r => .ok (w.withRealm r)
  | none => .error (.argument "__newindex" 2 "key index out of range")

/-- Gives a value a new one at a key. -/
def put (w : World) (container key v : Value) : Except Fault World :=
  match container with
  | .table id =>
    match (w.heap.readTable id).put? key v with
    | some t => .ok (w.updateHeap (·.setTable id t))
    | none => .error .interpreter
  | _ =>
    match w.heap.object? container with
    | some (.target h) => (w.putSlot h key v).mapError .call
    | _ => .error .interpreter

/-! ### Equality -/

/-- Whether the objects of a type are compared by what they stand for. -/
def comparesContents : ObjectType → Bool
  | .color | .thread | .key => true
  | .fade | .suspension | .board | .group | .target => false

/-- Whether two objects stand for the same: colours up to opacity, threads, and keys of one
board. -/
def sameContents : Object → Object → Bool
  | .color a, .color b => a.agrees b
  | .thread a, .thread b => a.id == b.id
  | .key a, .key b => a.index == b.index && a.board.board == b.board.board
  | _, _ => false

/-- Compares two objects that are not the same one. The comparison of the left type is used, or that
of the right one if the left type has none; it takes only a left object of its own type. -/
def compareObjects (a b : Object) : Except Fault Bool :=
  if comparesContents a.type then .ok (sameContents a b)
  else if comparesContents b.type then
    .error (.conversion ("bad argument \x60self\x60 to \x60" ++ b.type.methodOwner ++
      ".__eq\x60: userdata is not expected type"))
  else .ok false

/-- Whether two values are equal. -/
def equal (w : World) (a b : Value) : Except Fault Bool :=
  if a.sameAs b then .ok true
  else
    match w.heap.object? a, w.heap.object? b with
    | some x, some y => compareObjects x y
    | _, _ => .ok false

end World

end KeyLight
