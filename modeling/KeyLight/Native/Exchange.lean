import KeyLight.Native.Stack

/-!
# Exchanging native values

Native values are handed to scripts and taken back by way of a stack. A type has to be registered
before its values can be pushed; each type is registered once. Taking a value back (`check`) leaves
the stack as it is, and gives the very value that was pushed, unless the host is holding the object
for itself.
-/

namespace KeyLight

/-- A stack on which native values are exchanged, and the types that may be. -/
structure Exchange where
  registered : List ObjectType
  world : World
  stack : Stack

namespace Exchange

/-- Nothing registered and nothing on the stack. -/
def start (w : World) : Exchange := ⟨[], w, .empty⟩

/-- Registers a type. Answers whether it was new. -/
def register (x : Exchange) (t : ObjectType) : Bool × Exchange :=
  if x.registered.contains t then (false, x)
  else (true, { x with registered := x.registered ++ [t] })

/-- The name and ownership of a type, if it is registered. -/
def descriptor? (x : Exchange) (t : ObjectType) : Option (String × Ownership) :=
  if x.registered.contains t then some (t.name, t.ownership) else none

/-- The names of the registered types, sorted. -/
def names (x : Exchange) : List String :=
  (x.registered.map ObjectType.name).mergeSort fun a b => !(b < a)

/-- Pushes a native value, if its type is registered. -/
def push {α : Type} [Exposed α] (x : Exchange) (a : α) : Except CallError Exchange :=
  if x.registered.contains (Exposed.type α) then
    let (v, world) := x.world.newObject (Exposed.wrap a)
    .ok { x with world, stack := x.stack.push v }
  else .error (.unregistered (Exposed.type α))

/-- Pushes a value. -/
def pushValue (x : Exchange) (v : Value) : Exchange := { x with stack := x.stack.push v }

/-- Takes the value on top. -/
def pop (x : Exchange) : Option Value × Exchange :=
  let (v, stack) := x.stack.pop
  (v, { x with stack })

/-- The native value at a position. `held` tells whether the host is holding the object there. -/
def check {α : Type} [Exposed α] (x : Exchange) (position : Nat) (held : Bool) :
    Except CallError α := do
  let a : α ← x.world.heap.check (x.stack.get? position) position
  if held then .error (.handleBusy (Exposed.type α)) else .ok a

/-- The native value at a position, if there is a value other than nil. -/
def checkOpt {α : Type} [Exposed α] (x : Exchange) (position : Nat) (held : Bool) :
    Except CallError (Option α) :=
  match x.stack.get? position with
  | none | some .nil => .ok none
  | some _ => (x.check position held).map some

/-- The values on top, and no stack any more. -/
def takeResults (x : Exchange) (count : Nat) : List Value × Exchange :=
  (x.stack.results count, { x with stack := .empty })

/-- Takes back all leases. -/
def revoke (x : Exchange) : Exchange :=
  let context := x.world.context
  let context := { context with generation := context.generation + 1 }
  { x with world := x.world.withRealm { x.world.toRealm with context } }

end Exchange

/-- A native function that pushes copies of what is at the given positions of its stack. -/
def selectBody (positions : List Nat) : NativeBody := fun w s =>
  let after := positions.foldl (fun s p => s.push ((s.get? p).getD .nil)) s
  .ok (w, after, positions.length)

end KeyLight
