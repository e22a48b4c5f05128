import KeyLight.Animation.Interpolator

/-!
# Objects

An object is a native value that scripts hold. Colours and suspensions are copied into the object,
interpolators and threads are made for the script, and the objects of the board and of render
targets are *handles*: they name a thing of the host, to which the object gives access as long as
its lease lasts and the host keeps the thing.

`Exposed` collects the types of native values that have such a form: the value can be wrapped into
an object, and it is read off exactly the objects it was wrapped into.
-/

namespace KeyLight

/-- Who owns what is behind an object. -/
inductive Ownership
  /-- Copied into the object. -/
  | copied
  /-- Made for the script. -/
  | script
  /-- Owned by the host, and checked on every access. -/
  | borrowed
  deriving Repr, DecidableEq

/-- The name of an ownership. -/
def Ownership.name : Ownership → String
  | .copied => "Value"
  | .script => "Script"
  | .borrowed => "Borrowed"

/-- The types of objects. -/
inductive ObjectType
  | color
  | fade
  | thread
  | suspension
  | board
  | group
  | key
  | target
  deriving Repr, DecidableEq

namespace ObjectType

/-- All types. -/
def all : List ObjectType := [.color, .fade, .thread, .suspension, .board, .group, .key, .target]

/-- The name that scripts see. -/
def name : ObjectType → String
  | .color => "RGBAColor"
  | .fade => "Interpolator"
  | .thread => "Thread"
  | .suspension => "Suspension"
  | .board => "KeyDatabase"
  | .group => "KeyGroup"
  | .key => "Key"
  | .target => "RenderTarget"

/-- The name under which the methods of a type are known in errors. -/
def methodOwner (t : ObjectType) : String :=
  match t with
  | .thread | .board | .group | .key | .target => t.name ++ "Handle"
  | .color | .fade | .suspension => t.name

def ownership : ObjectType → Ownership
  | .color | .suspension => .copied
  | .fade | .thread => .script
  | .board | .group | .key | .target => .borrowed

end ObjectType

/-- A thread, as a script holds it. -/
structure ThreadHandle where
  id : Nat
  deriving Repr, DecidableEq

/-- The request of a thread to be resumed once this many seconds have passed. -/
structure Suspension where
  seconds : Float
  deriving Repr, DecidableEq

/-- A handle on a board of the host. The lease is the generation in which it was made. -/
structure BoardHandle where
  board : Nat
  lease : Nat
  deriving Repr, DecidableEq

/-- A handle on a group of a board. -/
structure GroupHandle where
  board : BoardHandle
  index : Nat
  deriving Repr, DecidableEq

/-- A handle on a key of a board. -/
structure KeyHandle where
  board : BoardHandle
  index : Nat
  deriving Repr, DecidableEq

/-- A handle on a render target of the host. -/
structure TargetHandle where
  target : Nat
  lease : Nat
  deriving Repr, DecidableEq

/-- A handle on a key of the same board. -/
def BoardHandle.key (h : BoardHandle) (index : Nat) : KeyHandle := ⟨h, index⟩

/-- A handle on a group of the same board. -/
def BoardHandle.group (h : BoardHandle) (index : Nat) : GroupHandle := ⟨h, index⟩

/-- An object. -/
inductive Object
  | color (c : Rgba)
  | fade (f : Interpolator)
  | thread (h : ThreadHandle)
  | suspension (s : Suspension)
  | board (h : BoardHandle)
  | group (h : GroupHandle)
  | key (h : KeyHandle)
  | target (h : TargetHandle)
  deriving Repr, DecidableEq

/-- The type of an object. -/
def Object.type : Object → ObjectType
  | .color _ => .color
  | .fade _ => .fade
  | .thread _ => .thread
  | .suspension _ => .suspension
  | .board _ => .board
  | .group _ => .group
  | .key _ => .key
  | .target _ => .target

/-- The types of native values that are wrapped into objects. -/
class Exposed (α : Type) where
  type : ObjectType
  wrap : α → Object
  unwrap? : Object → Option α
  unwrap?_eq_some : ∀ o a, unwrap? o = some a ↔ o = wrap a
  type_wrap : ∀ a, (wrap a).type = type

instance : Exposed Rgba where
  type := .color
  wrap := .color
  unwrap? | .color c => some c | _ => none
  unwrap?_eq_some o _ := by cases o <;> simp
  type_wrap _ := rfl

instance : Exposed Interpolator where
  type := .fade
  wrap := .fade
  unwrap? | .fade f => some f | _ => none
  unwrap?_eq_some o _ := by cases o <;> simp
  type_wrap _ := rfl

instance : Exposed ThreadHandle where
  type := .thread
  wrap := .thread
  unwrap? | .thread h => some h | _ => none
  unwrap?_eq_some o _ := by cases o <;> simp
  type_wrap _ := rfl

instance : Exposed Suspension where
  type := .suspension
  wrap := .suspension
  unwrap? | .suspension s => some s | _ => none
  unwrap?_eq_some o _ := by cases o <;> simp
  type_wrap _ := rfl

instance : Exposed BoardHandle where
  type := .board
  wrap := .board
  unwrap? | .board h => some h | _ => none
  unwrap?_eq_some o _ := by cases o <;> simp
  type_wrap _ := rfl

instance : Exposed GroupHandle where
  type := .group
  wrap := .group
  unwrap? | .group h => some h | _ => none
  unwrap?_eq_some o _ := by cases o <;> simp
  type_wrap _ := rfl

instance : Exposed KeyHandle where
  type := .key
  wrap := .key
  unwrap? | .key h => some h | _ => none
  unwrap?_eq_some o _ := by cases o <;> simp
  type_wrap _ := rfl

instance : Exposed TargetHandle where
  type := .target
  wrap := .target
  unwrap? | .target h => some h | _ => none
  unwrap?_eq_some o _ := by cases o <;> simp
  type_wrap _ := rfl

end KeyLight
