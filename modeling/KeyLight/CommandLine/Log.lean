import KeyLight.CommandLine.Options
import KeyLight.Json.Basic
import KeyLight.Realm.Basic

/-!
# The log of a run

What a run tells is a list of events, each with a level, the part of the program it comes from, a
message and perhaps further fields. What environments note is told as events, too.
-/

namespace KeyLight.CommandLine

/-- Something to be told. -/
structure Event where
  level : Level
  target : String
  message : String
  /-- The fields beside the message. -/
  fields : List (String × Json)

namespace Event

/-- An event of the program itself. -/
def program (level : Level) (message : String) (fields : List (String × Json)) : Event :=
  ⟨level, "keyfx", message, fields⟩

/-- The event of a notice. -/
def ofNotice : Notice → Event
  | .printed text => ⟨.info, "keyfx::script", text, []⟩
  | .attached => ⟨.info, "keyfx_core::environment", "Controller attached", []⟩
  | .detached cancelled =>
    ⟨.info, "keyfx_core::environment", "Controller detached", [("cancelled", .integer cancelled)]⟩
  | .notFunction name found =>
    ⟨.warn, "keyfx_core::environment", "Entry point is not a function",
      [("name", .string name), ("found", .string found)]⟩
  | .failed f => ⟨.warn, "keyfx_core::scheduler", f.line, []⟩
  | .violated v => ⟨.error, "keyfx_core::scheduler", v.reason, []⟩

/-- The event of a palette entry that is passed over. -/
def ofIgnored (entry : String × String) : Event :=
  ⟨.warn, "keyfx_core::palette",
    "Ignoring palette entry " ++ Text.quote entry.1 ++ ": " ++ Text.quote entry.2 ++
      " is not a color", []⟩

/-- Whether an event is told at a level. -/
def isToldAt (level : Level) (e : Event) : Bool := e.level.rank ≤ level.rank

end Event

end KeyLight.CommandLine
