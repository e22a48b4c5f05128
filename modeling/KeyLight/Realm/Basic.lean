import KeyLight.Host.Basic
import KeyLight.Scheduler.Basic
import KeyLight.Script.Fault
import KeyLight.Script.Heap

/-!
# Realms

A realm is everything around the threads of an environment: the heap and the global variables of its
scripts, the context they share with the host (the attached controller, the clock and the lease
generation) and the things of the host. It also keeps a journal of what is worth telling, the
printed texts among it, in the order in which it happens.

The table that scripts find under the name `keyfx` is known to the realm itself, so it is found even
if a script gives that name another value.
-/

namespace KeyLight

/-- What is worth telling. -/
inductive Notice
  /-- A text that a script sent to the controller of a number. -/
  | printed {controller : Nat} (text : String)
  | attached
  | detached (cancelled : Nat)
  /-- A function asked for by name is something else. -/
  | notFunction (name found : String)
  | failed (f : Failure)
  | violated (v : Violation)
  deriving Repr, DecidableEq

/-- What native functions share with the host. -/
structure Context where
  /-- The attached controller, which the host may have dropped since. -/
  controller : Option Nat
  /-- The time of the last tick, in seconds. -/
  clock : Float
  /-- The generation in which handles are leased now. -/
  generation : Nat
  /-- The curve of fades that name none. -/
  defaultEasing : Easing
  deriving Repr, DecidableEq

/-- What is around the threads of an environment. -/
structure Realm where
  heap : Heap
  globals : List (String × Value)
  /-- The table of information for scripts. -/
  home : Nat
  context : Context
  host : Host
  journal : Array Notice

namespace Realm

/-- The value of a global variable. -/
def global (r : Realm) (name : String) : Value := (r.globals.lookup name).getD .nil

/-- Gives a global variable a value. -/
def setGlobal (r : Realm) (name : String) (v : Value) : Realm :=
  { r with globals := (name, v) :: r.globals.filter (·.1 != name) }

/-- The attached controller and its number, if the host still has it. -/
def attached? (r : Realm) : Except CallError (Nat × Controller) :=
  match r.context.controller with
  | none => .error .noController
  | some id =>
    match r.host.controller? id with
    | some c => .ok (id, c)
    | none => .error .noController

/-- The attached controller, if the host still has it. -/
def controller? (r : Realm) : Except CallError Controller := r.attached?.map Prod.snd

/-- Adds to the journal. -/
def note (r : Realm) (n : Notice) : Realm := { r with journal := r.journal.push n }

/-- Makes an object. -/
def newObject (r : Realm) (o : Object) : Value × Realm :=
  (.object r.heap.objects.size, { r with heap := r.heap.addObject o })

/-- A handle on a board, leased now. -/
def leaseBoard (r : Realm) (id : Nat) : BoardHandle := ⟨id, r.context.generation⟩

/-- A handle on a render target, leased now. -/
def leaseTarget (r : Realm) (id : Nat) : TargetHandle := ⟨id, r.context.generation⟩

end Realm

end KeyLight
