import KeyLight.World.Basic

/-!
# Native functions

A native function finds its arguments on a stack, the first one at position 1. Its body fails and
then has done nothing, or it pushes results on top of the arguments and says how many there are.
`entryPoint` hands as many values from the top to the caller as the body says.

Nothing keeps a body from saying a wrong number. `checkedEntryPoint` also looks at the height of the
stack when the body is done, and has no answer if it is not what the body says.
-/

namespace KeyLight

/-- A stack of values, the lowest one first. -/
structure Stack where
  values : List Value
  deriving Repr, DecidableEq

namespace Stack

def empty : Stack := ⟨[]⟩

/-- The stack of the arguments of a call. -/
def ofArguments (args : List Value) : Stack := ⟨args⟩

def height (s : Stack) : Nat := s.values.length

/-- The value at a position, counted from one. -/
def get? (s : Stack) (position : Nat) : Option Value :=
  if position = 0 then none else s.values[position - 1]?

def push (s : Stack) (v : Value) : Stack := ⟨s.values ++ [v]⟩

/-- The value on top, and the stack without it. -/
def pop (s : Stack) : Option Value × Stack := (s.values.getLast?, ⟨s.values.dropLast⟩)

/-- The values on top, the lowest one first. -/
def results (s : Stack) (count : Nat) : List Value := s.values.drop (s.height - count)

@[simp] theorem values_foldl_push (s : Stack) (vs : List Value) :
    (vs.foldl push s).values = s.values ++ vs := by
  induction vs generalizing s with
  | nil => simp
  | cons v vs ih => simp [ih, push]

/-- What is pushed last comes back, in the order in which it was pushed. -/
theorem results_foldl_push (s : Stack) (vs : List Value) :
    (vs.foldl push s).results vs.length = vs := by
  simp [results, height]

end Stack

/-- The object of a new thread, and the world with the thread. -/
def Effect.startThread (w : World) (routine : Value) (args : List Value) : Value × World :=
  let (id, scheduler) := w.scheduler.spawn (.fresh routine args)
  { w with scheduler }.newObject (.thread ⟨id⟩)

/-- The body of a native function. It leaves a world and a stack, and says how many results are on
top. -/
abbrev NativeBody := World → Stack → Except Fault (World × Stack × Nat)

/-- Calls a native function. -/
def entryPoint (body : NativeBody) (w : World) (args : List Value) :
    Except Fault (List Value) × World :=
  match body w (.ofArguments args) with
  | .error f => (.error f, w)
  | .ok (w, s, count) => (.ok (s.results count), w)

/-- Calls a native function and asserts that the stack has grown by the number of results. There is
no answer if it has not. -/
def checkedEntryPoint (body : NativeBody) (w : World) (args : List Value) :
    Option (Except Fault (List Value) × World) :=
  let s := Stack.ofArguments args
  match body w s with
  | .error f => some (.error f, w)
  | .ok (w, after, count) =>
    if after.height = s.height + count then some (.ok (after.results count), w) else none

end KeyLight
