import KeyLight.Script.Heap

/-!
# What is left to do

A running script is a list of *frames*, the innermost first. A frame says what happens once the work
above it is done: an operation takes its next operand, a block goes on with its next statement, a
loop with its next round, a call returns to its caller. Every expression and every simple statement
is an operation on operands that are evaluated from left to right.

What is left of a suspended script is its frames, so it is a value like any other and can be kept,
resumed and searched for what it refers to.
-/

namespace KeyLight

/-- What is done with operands once they are evaluated. -/
inductive Operation
  /-- Calls the first operand with the others. -/
  | call
  /-- Looks up a method of the operand, which is then called with the operand and the arguments. -/
  | send (method : String) (args : List Expr)
  /-- Calls the second operand with the first and the others. -/
  | apply
  | index
  | length
  | not
  | binary (op : BinaryOp)
  | table
  | assign (x : String)
  | put
  | discard
  | raise
  | yield
  | finish
  | branch (yes no : List Stmt)
  | loop (condition : Expr) (body : List Stmt)
  | count (x : String) (body : List Stmt)
  deriving Inhabited

/-- The number of a counting loop and the last one. -/
inductive Counter
  | ints (current last : Int64)
  | floats (current last : Float)
  deriving Repr, DecidableEq

namespace Counter

/-- The value of the number. -/
def value : Counter → Value
  | .ints current _ => .int current
  | .floats current _ => .float current

/-- The next number, if it is not past the last one. -/
def next? : Counter → Option Counter
  | .ints current last => if current < last then some (.ints (current + 1) last) else none
  | .floats current last =>
    let current := current + 1
    if current ≤ last then some (.floats current last) else none

end Counter

/-- A piece of what is left to do. -/
inductive Frame
  /-- An operation with the operands it has, the last one first, and those to be evaluated. -/
  | operands (op : Operation) (done : List Value) (rest : List Expr) (scope : Scope)
  /-- The statements after the present one. -/
  | block (rest : List Stmt) (scope : Scope)
  | loop (condition : Expr) (body : List Stmt) (scope : Scope)
  | count (counter : Counter) (x : String) (body : List Stmt) (scope : Scope)
  /-- The end of a function, with the number of calls around it. -/
  | call (callee : Value) (scope : Scope) (depth : Nat)
  /-- Takes the faults of the expression above it. -/
  | guard
  deriving Inhabited

/-- The number of calls that the innermost function is inside of, itself included. -/
def callDepth : List Frame → Nat
  | [] => 0
  | .call _ _ depth :: _ => depth
  | _ :: frames => callDepth frames

end KeyLight
