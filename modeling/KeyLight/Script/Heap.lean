import KeyLight.Script.Table
import KeyLight.Script.Tree
import KeyLight.Handle.Object

/-!
# The heap

The heap keeps what values refer to: the variables that functions share, tables, functions and
objects. Each kind is a row that only grows, and a reference is a place in its row. Nothing is ever
removed, so a reference stays valid; what a collection would free is merely unreachable. Objects
never change after they are made.
-/

namespace KeyLight

/-- The variables in scope: names with the places of their values, the innermost first. -/
abbrev Scope := List (String × Nat)

/-- A scope with new names in front, whose places follow one another from `place` on. -/
def Scope.bind (scope : Scope) (place : Nat) : List String → Scope
  | [] => scope
  | x :: xs => Scope.bind ((x, place) :: scope) (place + 1) xs

/-- The values of the parameters of a function. A parameter without an argument is nil, and an
argument without a parameter is dropped. -/
def parameterValues : List String → List Value → List Value
  | [], _ => []
  | _ :: xs, vs => vs.headD .nil :: parameterValues xs vs.tail

/-- A function of a script, with the variables it keeps. -/
structure Closure where
  params : List String
  body : List Stmt
  scope : Scope
  deriving Inhabited

namespace Closure

/-- The part of a scope that a function keeps: the variables it mentions and does not bind. -/
def captured (params : List String) (body : List Stmt) (scope : Scope) : Scope :=
  let names := (Stmt.freeNamesOf body).filter fun x => !params.contains x
  scope.filter fun entry => names.contains entry.1

end Closure

/-- What values refer to. -/
structure Heap where
  cells : Array Value
  tables : Array Table
  closures : Array Closure
  objects : Array Object

namespace Heap

def empty : Heap := ⟨#[], #[], #[], #[]⟩

/-- The value of a variable. -/
def readVariable (h : Heap) (id : Nat) : Value := h.cells[id]?.getD .nil

/-- Gives a variable a new value. -/
def setVariable (h : Heap) (id : Nat) (v : Value) : Heap :=
  { h with cells := h.cells.setIfInBounds id v }

/-- Adds a variable. Its place is the number of those that were there. -/
def addVariable (h : Heap) (v : Value) : Heap := { h with cells := h.cells.push v }

/-- Adds variables. -/
def addVariables (h : Heap) (vs : List Value) : Heap := vs.foldl addVariable h

/-- The contents of a table. -/
def readTable (h : Heap) (id : Nat) : Table := h.tables[id]?.getD .empty

/-- Gives a table new contents. -/
def setTable (h : Heap) (id : Nat) (t : Table) : Heap :=
  { h with tables := h.tables.setIfInBounds id t }

/-- Adds a table. -/
def addTable (h : Heap) (t : Table) : Heap := { h with tables := h.tables.push t }

/-- Adds a function. -/
def addClosure (h : Heap) (c : Closure) : Heap := { h with closures := h.closures.push c }

/-- Adds an object. -/
def addObject (h : Heap) (o : Object) : Heap := { h with objects := h.objects.push o }

/-- The object that a value refers to. -/
def object? (h : Heap) : Value → Option Object
  | .object id => h.objects[id]?
  | _ => none

/-- A new object is found under the number of those that were there. -/
theorem object?_addObject (h : Heap) (o : Object) :
    (h.addObject o).object? (.object h.objects.size) = some o := by
  simp [addObject, object?]

theorem readVariable_setVariable (h : Heap) (id other : Nat) (v : Value) :
    (h.setVariable id v).readVariable other =
      if other = id ∧ id < h.cells.size then v else h.readVariable other := by
  simp only [setVariable, readVariable, Array.getElem?_setIfInBounds]
  grind

theorem readVariable_addVariable (h : Heap) (v : Value) (id : Nat) :
    (h.addVariable v).readVariable id = if id = h.cells.size then v else h.readVariable id := by
  simp only [addVariable, readVariable, Array.getElem?_push]
  grind

theorem readTable_setTable (h : Heap) (id other : Nat) (t : Table) :
    (h.setTable id t).readTable other =
      if other = id ∧ id < h.tables.size then t else h.readTable other := by
  simp only [setTable, readTable, Array.getElem?_setIfInBounds]
  grind

end Heap

end KeyLight
