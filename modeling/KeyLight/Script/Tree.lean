import KeyLight.Text.Utf8

/-!
# Script trees

A script is a list of statements. Names are bound by the parameters of functions and by the variable
of a counting loop; every other name is global. A function keeps the variables that its body
mentions and does not bind itself, so `freeNames` says what a function value holds on to.
-/

namespace KeyLight

/-- The operations with two operands. -/
inductive BinaryOp
  | add
  | sub
  | mul
  /-- Joining two texts. -/
  | concat
  | equal
  | less
  deriving Repr, DecidableEq

mutual

/-- Expressions. -/
inductive Expr
  | nil
  | bool (b : Bool)
  | int (n : Int64)
  | float (x : Float)
  | text (bytes : Bytes)
  | name (x : String)
  | call (callee : Expr) (args : List Expr)
  /-- Calls a method, with the receiver as the first argument. -/
  | send (receiver : Expr) (method : String) (args : List Expr)
  | index (container key : Expr)
  | length (e : Expr)
  | not (e : Expr)
  | binary (op : BinaryOp) (a b : Expr)
  /-- A table with the given values from position 1 on. -/
  | table (items : List Expr)
  | function (params : List String) (body : List Stmt)
  /-- The value of an expression, or a text if it raises. -/
  | guarded (e : Expr)

/-- Statements. -/
inductive Stmt
  | assign (x : String) (e : Expr)
  /-- Assigns to a position of a table or of a render target. -/
  | put (container key value : Expr)
  | discard (e : Expr)
  | raise (e : Expr)
  /-- Suspends the thread with arbitrary values. -/
  | yield (values : List Expr)
  /-- Ends the function with a value. -/
  | finish (e : Expr)
  | branch (condition : Expr) (yes no : List Stmt)
  | loop (condition : Expr) (body : List Stmt)
  /-- Runs the body for the numbers from the first to the last, one apart. -/
  | count (x : String) (first last : Expr) (body : List Stmt)

end

mutual

/-- The names that an expression mentions and does not bind. -/
def Expr.freeNames : Expr → List String
  | .nil | .bool _ | .int _ | .float _ | .text _ => []
  | .name x => [x]
  | .call callee args => callee.freeNames ++ Expr.freeNamesOf args
  | .send receiver _ args => receiver.freeNames ++ Expr.freeNamesOf args
  | .index container key => container.freeNames ++ key.freeNames
  | .length e | .not e | .guarded e => e.freeNames
  | .binary _ a b => a.freeNames ++ b.freeNames
  | .table items => Expr.freeNamesOf items
  | .function params body => (Stmt.freeNamesOf body).filter fun x => !params.contains x

/-- The names that expressions mention and do not bind. -/
def Expr.freeNamesOf : List Expr → List String
  | [] => []
  | e :: es => e.freeNames ++ Expr.freeNamesOf es

/-- The names that a statement mentions and does not bind. -/
def Stmt.freeNames : Stmt → List String
  | .assign x e => x :: e.freeNames
  | .put container key value => container.freeNames ++ key.freeNames ++ value.freeNames
  | .discard e | .raise e | .finish e => e.freeNames
  | .yield values => Expr.freeNamesOf values
  | .branch condition yes no =>
    condition.freeNames ++ Stmt.freeNamesOf yes ++ Stmt.freeNamesOf no
  | .loop condition body => condition.freeNames ++ Stmt.freeNamesOf body
  | .count x first last body =>
    first.freeNames ++ last.freeNames ++ (Stmt.freeNamesOf body).filter (· != x)

/-- The names that statements mention and do not bind. -/
def Stmt.freeNamesOf : List Stmt → List String
  | [] => []
  | s :: ss => s.freeNames ++ Stmt.freeNamesOf ss

end

end KeyLight
