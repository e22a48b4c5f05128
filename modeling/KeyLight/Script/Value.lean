import KeyLight.Text.Utf8

/-!
# Script values

Tables, functions and objects are values by reference: the value is the number under which the heap
keeps the thing, and two of them are the same if the numbers are. A built-in function is one of the
capabilities every script starts with, or a method of an object.
-/

namespace KeyLight

/-- The capabilities that the host gives to scripts. -/
inductive Capability
  /-- Sends a text to the controller. -/
  | print
  /-- Makes a colour of a text or of channels. -/
  | tocolor
  /-- Makes an interpolator. -/
  | fade
  /-- Starts a thread. -/
  | thread
  /-- Suspends the calling thread for some time. -/
  | wait
  /-- The time of the environment. -/
  | now
  deriving Repr, DecidableEq

/-- The methods of objects. -/
inductive Method
  | blend
  | value
  | at
  | findKeyCode
  | group
  | contains
  | fill
  deriving Repr, DecidableEq

/-- The functions that no script defines. -/
inductive Builtin
  | capability (c : Capability)
  /-- The text of any value. -/
  | tostring
  | method (m : Method)
  deriving Repr, DecidableEq

/-- A value of the script language. -/
inductive Value
  | nil
  | bool (b : Bool)
  | int (n : Int64)
  | float (x : Float)
  | text (bytes : Bytes)
  | table (id : Nat)
  | closure (id : Nat)
  | builtin (f : Builtin)
  | object (id : Nat)
  deriving Repr, DecidableEq, Inhabited

namespace Value

/-- The value of a text. -/
def ofString (text : String) : Value := .text (Utf8.encode text)

/-- Only nil and false are false. -/
def isTrue : Value → Bool
  | .nil | .bool false => false
  | _ => true

/-- The name of the kind of a value. Integers and other numbers are told apart. -/
def kind : Value → String
  | .nil => "nil"
  | .bool _ => "boolean"
  | .int _ => "integer"
  | .float _ => "number"
  | .text _ => "string"
  | .table _ => "table"
  | .closure _ | .builtin _ => "function"
  | .object _ => "userdata"

/-- How an error names an argument: by its kind. A missing argument and nil are no value. -/
def describe : Option Value → String
  | none | some .nil => "no value"
  | some v => v.kind

/-- Whether a value can be called. -/
def isFunction : Value → Bool
  | .closure _ | .builtin _ => true
  | _ => false

end Value

end KeyLight
