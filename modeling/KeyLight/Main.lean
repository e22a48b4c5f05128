import KeyLight.CommandLine.Run
import KeyLight.Script.Json

/-!
# The program

Reads the files that the command line names, runs the script and tells what happened on the standard
error stream, one line for each event.
-/

namespace KeyLight.CommandLine

/-- The most steps a script may take at a time. -/
def budget : Nat := 1000000000000

/-- How the program is used. -/
def usage : String :=
  "Usage: keyfx [OPTIONS] <SCRIPT>\n\nOptions: --layout FILE, --config FILE, --keys N, --fps N, " ++
    "--duration SECONDS, --log-level LEVEL, --log-format FORMAT"

/-- The line of an event. -/
def Event.line (format : Format) (e : Event) : String :=
  match format with
  | .json =>
    (Json.record [("level", .string e.level.name.toUpper), ("target", .string e.target),
      ("fields", .record (("message", .string e.message) :: e.fields))]).render
  | .pretty =>
    let fields := e.fields.map fun (name, value) => ", " ++ name ++ ": " ++ value.render
    e.level.name.toUpper ++ " " ++ e.target ++ ": " ++ e.message ++ String.join fields

/-- Reads a file, if it is there and its bytes are text. -/
def readDocument (path : String) : IO (Option Document) := do
  try
    let text ← IO.FS.readFile path
    return some ⟨text, Script.ofText? text⟩
  catch _ => return none

/-- Reads the files that options name. -/
def readFiles (o : Options) : IO (String → Option Document) := do
  let mut found : List (String × Document) := []
  for path in o.config.toList ++ o.layout.toList ++ [o.script] do
    if let some document ← readDocument path then
      found := (path, document) :: found
  return fun path => found.lookup path

/-- Runs what the command line asks for and tells about it. The result is the exit code. -/
def main (words : List String) : IO UInt32 := do
  match Request.ofWords words with
  | .help => IO.println usage; return 0
  | .unusable => IO.eprintln usage; return 2
  | .run o =>
    match run budget (← readFiles o) o with
    | none => IO.eprintln "Error: the script does not end"; return 1
    | some t =>
      for e in t.events do
        IO.eprintln (e.line o.format)
      match t.error with
      | some error => IO.eprintln ("Error: " ++ error); return 1
      | none => return 0

end KeyLight.CommandLine

/-- The program. -/
def main (words : List String) : IO UInt32 := KeyLight.CommandLine.main words
