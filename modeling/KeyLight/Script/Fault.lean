import KeyLight.Handle.Object
import KeyLight.Script.Value

/-!
# Faults

A fault is what stops a script until it is guarded against. There are four sorts: the errors of
capabilities and handles (`CallError`), arguments that cannot be converted for a method, errors that
a script raises itself, and errors of the language, about whose text nothing is said. A fault has a
text that scripts see and a text that the host is shown, which tells errors raised by scripts apart.

`cleaned` takes from a text what does not belong to the message.
-/

namespace KeyLight

/-- What goes wrong in a call of a capability or in the use of a handle. -/
inductive CallError
  | typeMismatch (position : Nat) (expected : String) (found : String)
  | noController
  | argument (function : String) (position : Nat) (reason : String)
  /-- The lease is over, or the host has dropped the thing. -/
  | staleHandle (type : ObjectType)
  /-- The host is using the thing itself. -/
  | handleBusy (type : ObjectType)
  | unregistered (type : ObjectType)
  deriving Repr, DecidableEq

namespace CallError

/-- The name of an error. -/
def name : CallError → String
  | .typeMismatch .. => "TypeMismatch"
  | .noController => "NoController"
  | .argument .. => "ArgumentError"
  | .staleHandle _ => "StaleHandle"
  | .handleBusy _ => "HandleBusy"
  | .unregistered _ => "Unregistered"

/-- The text of an error. -/
def message : CallError → String
  | .typeMismatch position expected found =>
    "bad argument #" ++ toString position ++ ": " ++ expected ++ " expected, got " ++ found
  | .noController => "no controller attached to this environment"
  | .argument function position reason =>
    "bad argument #" ++ toString position ++ " to '" ++ function ++ "': " ++ reason
  | .staleHandle type => type.name ++ " handle is no longer valid"
  | .handleBusy type => type.name ++ " is in use by the host"
  | .unregistered type => "type " ++ type.name ++ " is not registered with this environment"

end CallError

namespace Text

/-- Drops a text in front, if it is there. -/
def dropFront (front cs : List Char) : List Char :=
  if front.isPrefixOf cs then cs.drop front.length else cs

/-- The characters up to the first place where a text starts. -/
def before (mark : List Char) : List Char → List Char
  | [] => []
  | c :: cs => if mark.isPrefixOf (c :: cs) then [] else c :: before mark cs

/-- The message in a text: without a listing of calls after it, without line ends at its end and
without the words in front that say where it comes from. -/
def cleaned (text : String) : String :=
  let cs := before "\nstack traceback:".toList text.toList
  let cs := (cs.reverse.dropWhile (· == '\n')).reverse
  String.ofList (dropFront "runtime error: ".toList (dropFront "lua: ".toList cs))

end Text

/-- What stops a script. -/
inductive Fault
  | call (e : CallError)
  /-- A value that a method cannot take. -/
  | conversion (text : String)
  /-- An error raised by a script, or by the language with a text of its own. -/
  | raised (text : String)
  /-- Any other error of the language. -/
  | interpreter
  deriving Repr, DecidableEq

namespace Fault

/-- What is said of an error of the language. -/
def interpreterText : String := "interpreter error"

/-- The text that scripts see. -/
def text : Fault → String
  | .call e => e.message
  | .conversion text => text
  | .raised text => text
  | .interpreter => interpreterText

/-- The text that the host is shown. -/
def report (f : Fault) : String :=
  match f with
  | .call _ | .conversion _ => f.text
  | .raised _ | .interpreter => "runtime error: " ++ f.text

/-- The text that a guarded expression has instead of its value. -/
def guardedText (f : Fault) : String := "error: " ++ Text.cleaned f.text

end Fault

end KeyLight
