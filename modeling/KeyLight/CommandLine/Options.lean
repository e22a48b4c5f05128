import KeyLight.Number.Numeral

/-!
# Options

The command line names a script and may give options, each once. The value of an option follows it
as the next word, which must not look like an option, or after an equality sign. Options and the
script may come in any order. Words are looked at from left to right, so the first one that is out
of place decides, and a question for help in front of it is answered.
-/

namespace KeyLight.CommandLine

/-- How much is told of a run. -/
inductive Level
  | error
  | warn
  | info
  | debug
  | trace
  deriving Repr, DecidableEq

namespace Level

def all : List Level := [.error, .warn, .info, .debug, .trace]

def name : Level → String
  | .error => "error"
  | .warn => "warn"
  | .info => "info"
  | .debug => "debug"
  | .trace => "trace"

/-- The place of a level, the least telling first. -/
def rank : Level → Nat
  | .error => 0
  | .warn => 1
  | .info => 2
  | .debug => 3
  | .trace => 4

end Level

/-- How a run is told. -/
inductive Format
  | pretty
  | json
  deriving Repr, DecidableEq

/-- What a run is asked to do. -/
structure Options where
  script : String
  layout : Option String
  config : Option String
  /-- The size of the render target when there is no layout. -/
  keys : Nat
  fps : Nat
  /-- In seconds. -/
  duration : Float
  level : Level
  format : Format

/-- The words of a command line that were looked at: the script, and the options with their
values. -/
structure Words where
  script : Option String
  layout : Option String
  config : Option String
  keys : Option Nat
  fps : Option Nat
  duration : Option Float
  level : Option Level
  format : Option Format

/-- What a command line asks for. -/
inductive Request
  | run (o : Options)
  /-- To be told how to use the program. -/
  | help
  /-- Nothing that makes sense. -/
  | unusable

namespace Words

def none : Words := ⟨.none, .none, .none, .none, .none, .none, .none, .none⟩

/-- Reads digits, perhaps with a plus sign in front, as a number below a bound. -/
def natBelow? (bound : Nat) (cs : List Char) : Option Nat :=
  let ds := match cs with
    | '+' :: ds => ds
    | ds => ds
  if ds ≠ [] ∧ ds.all (isDigitIn 10) ∧ ofDigits 10 ds < bound then some (ofDigits 10 ds)
  else .none

/-- Reads a count of 64 bits. -/
def count64? (value : String) : Option Nat := natBelow? UInt64.size value.toList

/-- Reads a count of 32 bits. Zero may have a minus sign. -/
def count32? (value : String) : Option Nat :=
  match value.toList with
  | '-' :: ds => natBelow? 1 (if ds.head? = some '+' then [] else ds)
  | cs => natBelow? UInt32.size cs

/-- Reads the name of a file. -/
def path? (value : String) : Option String := if value.isEmpty then .none else some value

/-- Reads a level. -/
def level? (value : String) : Option Level := Level.all.find? (·.name == value)

/-- Reads a format. -/
def format? : String → Option Format
  | "pretty" => some .pretty
  | "json" => some .json
  | _ => .none

/-- Gives an option its value, if it has none yet and the value can be read. -/
def once {α : Type} (present : Option α) (value : Option α) (put : Option α → Words) :
    Option Words :=
  match present, value with
  | .none, some a => some (put (some a))
  | _, _ => .none

/-- Whether there is an option of a name that takes a value. -/
def takesValue (name : String) : Bool :=
  ["layout", "config", "keys", "fps", "duration", "log-level", "log-format"].contains name

/-- Gives the option of a name a value. -/
def put? (w : Words) (name value : String) : Option Words :=
  match name with
  | "layout" => once w.layout (path? value) fun layout => { w with layout }
  | "config" => once w.config (path? value) fun config => { w with config }
  | "keys" => once w.keys (count64? value) fun keys => { w with keys }
  | "fps" => once w.fps (count32? value) fun fps => { w with fps }
  | "duration" => once w.duration (readDecimal? value) fun duration => { w with duration }
  | "log-level" => once w.level (level? value) fun level => { w with level }
  | "log-format" => once w.format (format? value) fun format => { w with format }
  | _ => .none

/-- Takes a word as the script. -/
def putScript? (w : Words) (value : String) : Option Words :=
  once w.script (path? value) fun script => { w with script }

/-- The options, once all words have been looked at. -/
def options (w : Words) : Request :=
  match w.script with
  | some script =>
    .run ⟨script, w.layout, w.config, w.keys.getD 16, w.fps.getD 30, w.duration.getD 5.0,
      w.level.getD .info, w.format.getD .pretty⟩
  | .none => .unusable

end Words

/-- What a word looks like. -/
inductive Word
  /-- The end of the options. -/
  | separator
  | help
  | option (name : String)
  /-- An option with its value. -/
  | assignment (name value : String)
  /-- An option of one dash that there is not. -/
  | unknown
  | plain
  deriving Repr, DecidableEq

/-- What a long option looks like, given without the dashes. -/
def Word.long (cs : List Char) : Word :=
  let name := String.ofList (cs.takeWhile (· != '='))
  match cs.dropWhile (· != '=') with
  | '=' :: value => .assignment name (String.ofList value)
  | _ => if name = "help" ∨ name = "version" then .help else .option name

/-- What a word looks like. -/
def Word.ofString (word : String) : Word :=
  match word.toList with
  | ['-', '-'] => .separator
  | '-' :: '-' :: cs => .long cs
  | '-' :: 'h' :: _ => .help
  | '-' :: 'V' :: _ => .help
  | '-' :: _ :: _ => .unknown
  | _ => .plain

/-- Looks at the words after the end of the options. -/
def readPlain (w : Words) : List String → Request
  | [] => w.options
  | word :: rest =>
    match w.putScript? word with
    | some w => readPlain w rest
    | none => .unusable

/-- Looks at the words of a command line. There may be an option that waits for its value. -/
def read (w : Words) (pending : Option String) : List String → Request
  | [] => if pending.isSome then .unusable else w.options
  | word :: rest =>
    match pending, Word.ofString word with
    | some name, .plain =>
      match w.put? name word with
      | some w => read w none rest
      | none => .unusable
    | some _, _ => .unusable
    | none, .separator => readPlain w rest
    | none, .help => .help
    | none, .unknown => .unusable
    | none, .option name => if Words.takesValue name then read w (some name) rest else .unusable
    | none, .assignment name value =>
      match w.put? name value with
      | some w => read w none rest
      | none => .unusable
    | none, .plain =>
      match w.putScript? word with
      | some w => read w none rest
      | none => .unusable

/-- What the words of a command line ask for. -/
def Request.ofWords (words : List String) : Request := read .none none words

end KeyLight.CommandLine
