import KeyLight.Json.Parser
import KeyLight.Script.Tree

/-!
# Script trees in JSON

Constants that JSON has are written as themselves. Everything else is an object whose first field
names what it is: `v` a variable, `call` a call with the function in front, by its name or as an
expression, `m` a call of a method, `fn` a function with its `body`, and so on. The bits of a
floating-point number and the bytes of a text that is no Unicode are written in hexadecimal digits.
-/

namespace KeyLight

/-- How deep a value is nested. -/
def Json.depth : Json → Nat
  | .array items => depthOf items + 1
  | .object fields => depthOfFields fields + 1
  | _ => 1
where
  /-- How deep the items of an array are nested. -/
  depthOf : List Json → Nat
    | [] => 0
    | item :: items => max item.depth (depthOf items)
  /-- How deep the fields of an object are nested. -/
  depthOfFields : List (Option String × Json) → Nat
    | [] => 0
    | (_, value) :: fields => max value.depth (depthOfFields fields)

/-- The bytes that pairs of hexadecimal digits write. -/
def hexBytes : List Char → Bytes
  | a :: b :: rest => UInt8.ofNat (ofDigits 16 [a, b]) :: hexBytes rest
  | _ => []

/-- The floating-point number whose bits sixteen hexadecimal digits write. -/
def floatOfHex (digits : String) : Float :=
  if digits = "nan" then Float.ofBits 0x7FF8000000000000
  else Float.ofBits (UInt64.ofNat (ofDigits 16 digits.toList))

namespace Script

/-- The names of binary operations. -/
def binaryOps : List (String × BinaryOp) :=
  [("add", .add), ("sub", .sub), ("mul", .mul), ("cat", .concat), ("eq", .equal), ("lt", .less)]

mutual

/-- Reads an expression that is nested at most `fuel` deep. -/
def expr? : Nat → Json → Option Expr
  | 0, _ => none
  | fuel + 1, j =>
    match j with
    | .null => some .nil
    | .bool b => some (.bool b)
    | .integer n => some (.int (Int64.ofInt n))
    | .string text => some (.text (Utf8.encode text))
    | .object _ =>
      if let some digits := (j.field? "f").bind Json.toString? then
        some (.float (floatOfHex digits))
      else if let some digits := (j.field? "hex").bind Json.toString? then
        some (.text (hexBytes digits.toList))
      else if let some x := (j.field? "v").bind Json.toString? then some (.name x)
      else if let some (.array (f :: args)) := j.field? "call" then do
        let f ← match f with
          | .string x => some (.name x)
          | f => expr? fuel f
        some (.call f (← args.mapM (expr? fuel)))
      else if let some (.array (receiver :: .string name :: args)) := j.field? "m" then do
        some (.send (← expr? fuel receiver) name (← args.mapM (expr? fuel)))
      else if let some (.array [container, key]) := j.field? "get" then do
        some (.index (← expr? fuel container) (← expr? fuel key))
      else if let some e := j.field? "len" then (expr? fuel e).map .length
      else if let some e := j.field? "not" then (expr? fuel e).map .not
      else if let some (.array items) := j.field? "table" then do
        some (.table (← items.mapM (expr? fuel)))
      else if let some (.array params) := j.field? "fn" then do
        let body ← block? fuel ((j.field? "body").getD .null)
        some (.function (← params.mapM Json.toString?) body)
      else if let some e := j.field? "try" then (expr? fuel e).map .guarded
      else binaryOps.firstM fun (name, op) =>
        match j.field? name with
        | some (.array [a, b]) => do some (.binary op (← expr? fuel a) (← expr? fuel b))
        | _ => none
    | _ => none

/-- Reads a statement that is nested at most `fuel` deep. -/
def stmt? : Nat → Json → Option Stmt
  | 0, _ => none
  | fuel + 1, j =>
    if let some (.array [.string x, e]) := j.field? "set" then (expr? fuel e).map (.assign x)
    else if let some (.array [container, key, v]) := j.field? "put" then do
      some (.put (← expr? fuel container) (← expr? fuel key) (← expr? fuel v))
    else if let some e := j.field? "do" then (expr? fuel e).map .discard
    else if let some e := j.field? "error" then (expr? fuel e).map .raise
    else if let some (.array values) := j.field? "yield" then do
      some (.yield (← values.mapM (expr? fuel)))
    else if let some e := j.field? "return" then (expr? fuel e).map .finish
    else if let some (.array (condition :: yes :: no)) := j.field? "if" then do
      let no ← match no with
        | [] | .null :: _ => some []
        | no :: _ => block? fuel no
      some (.branch (← expr? fuel condition) (← block? fuel yes) no)
    else if let some (.array [condition, body]) := j.field? "while" then do
      some (.loop (← expr? fuel condition) (← block? fuel body))
    else if let some (.array [.string x, first, last, body]) := j.field? "for" then do
      some (.count x (← expr? fuel first) (← expr? fuel last) (← block? fuel body))
    else none

/-- Reads statements that are nested at most `fuel` deep. -/
def block? : Nat → Json → Option (List Stmt)
  | 0, _ => none
  | fuel + 1, j =>
    match j with
    | .array items => items.mapM (stmt? fuel)
    | _ => none

end

end Script

/-- Reads an expression. -/
def Expr.ofJson? (j : Json) : Option Expr := Script.expr? (2 * j.depth) j

/-- Reads a script. -/
def Script.ofJson? (j : Json) : Option (List Stmt) := Script.block? (2 * j.depth) j

/-- Reads the script of a text. -/
def Script.ofText? (text : String) : Option (List Stmt) := (Json.parse? text).bind Script.ofJson?

end KeyLight
