import KeyLight.Native.Capability
import KeyLight.World.Method

/-!
# Running scripts

A script runs in steps. What runs next is a *control*: an expression or a statement to be started, a
value or a fault that looks for a frame to take it, or the end of a block or a function. `step`
looks at the control and the innermost frame and at nothing else of what is left to do.

A script stops by returning, by a fault that nothing guards against, or by suspending itself. Only a
thread can suspend itself; on the main script the attempt is a fault. `run` makes at most as many
steps as it is given, and says nothing about a script that needs more.
-/

namespace KeyLight

/-- What runs next. -/
inductive Control
  | eval (e : Expr) (scope : Scope)
  | exec (s : Stmt) (scope : Scope)
  /-- A value for the frame below. -/
  | give (v : Value)
  /-- The end of a block or of a simple statement. -/
  | proceed
  /-- The end of a function. -/
  | leave (v : Value)
  | raise (f : Fault)
  deriving Inhabited

/-- How a script stops. -/
inductive Halt
  | returned (v : Value)
  | raised (f : Fault)
  /-- Suspended with some values, what is left to do, and the values that are kept until then. -/
  | yielded (values : List Value) (frames : List Frame) (kept : List Value)
  deriving Inhabited

/-- What a step leads to. -/
inductive Next
  | running (w : World) (control : Control) (frames : List Frame)
  | halted (w : World) (halt : Halt)

/-- The place where a script runs. -/
inductive Place
  | main
  | thread
  deriving Repr, DecidableEq

namespace Machine

/-- How many calls of script functions may be inside of one another. -/
def maxDepth : Nat := 190000

/-- The statements of a block, run in order. -/
def block (w : World) (scope : Scope) (frames : List Frame) : List Stmt → Next
  | [] => .running w .proceed frames
  | s :: rest => .running w (.exec s scope) (.block rest scope :: frames)

/-- Goes on with a result, or with what is wrong. -/
def reply (w : World) (frames : List Frame) : Except Fault Value → Next
  | .ok v => .running w (.give v) frames
  | .error f => .running w (.raise f) frames

/-- Goes on with what was read, or with what is wrong. -/
def replyDatum (w : World) (frames : List Frame) : Except Fault Datum → Next
  | .ok datum =>
    let (v, w) := w.realize datum
    .running w (.give v) frames
  | .error f => .running w (.raise f) frames

/-- Goes on after a simple statement, or with what is wrong. -/
def continueWith (w : World) (frames : List Frame) : Except Fault World → Next
  | .ok w => .running w .proceed frames
  | .error f => .running w (.raise f) frames

/-! ### Calls -/

/-- Gives up control. Only a thread can. -/
def suspend (place : Place) (w : World) (values : List Value) (frames : List Frame)
    (kept : List Value) : Next :=
  match place with
  | .thread => .halted w (.yielded values frames kept)
  | .main => .running w (.raise (.raised "attempt to yield from outside a coroutine")) frames

/-- Calls a capability. That of waiting suspends the caller with the request it makes. It is a
function of any number of arguments, which stay on the stack of the thread as long as it waits. -/
def callCapability (place : Place) (w : World) (c : Capability) (args : List Value)
    (frames : List Frame) : Next :=
  match entryPoint c.body w args with
  | (.error f, w) => .running w (.raise f) frames
  | (.ok results, w) =>
    match c with
    | .wait => suspend place w results frames args
    | _ => .running w (.give (results.headD .nil)) frames

/-- The text of a value, as a value. -/
def tostring (w : World) (args : List Value) : Except Fault Value :=
  match args with
  | [] => .error .interpreter
  | v :: _ => ((w.text v).map .text).mapError .call

/-- Calls a function. -/
def call (place : Place) (w : World) (f : Value) (args : List Value) (frames : List Frame) : Next :=
  match f with
  | .closure id =>
    match w.heap.closures[id]? with
    | none => .running w (.raise .interpreter) frames
    | some c =>
      let depth := callDepth frames + 1
      if maxDepth < depth then .running w (.raise .interpreter) frames
      else
        let scope := Scope.bind c.scope w.heap.cells.size c.params
        block (w.updateHeap (·.addVariables (parameterValues c.params args))) scope
          (.call f scope depth :: frames) c.body
  | .builtin (.capability c) => callCapability place w c args frames
  | .builtin .tostring => reply w frames (tostring w args)
  | .builtin (.method m) =>
    let (result, w) := w.callMethod m args
    reply w frames result
  | _ => .running w (.raise .interpreter) frames

/-! ### Operations -/

/-- The value of an operation with two operands. -/
def binary (w : World) (op : BinaryOp) (a b : Value) : Except Fault Value :=
  let orFault (v : Option Value) : Except Fault Value := v.elim (.error .interpreter) .ok
  match op with
  | .add => orFault (Value.arithmetic? .add a b)
  | .sub => orFault (Value.arithmetic? .sub a b)
  | .mul => orFault (Value.arithmetic? .mul a b)
  | .concat => orFault (Value.concat? a b)
  | .equal => (w.equal a b).map .bool
  | .less => orFault ((Value.less? a b).map .bool)

/-- Gives a variable a value: a variable in scope if there is one of the name, and a global one
otherwise. -/
def assign (w : World) (scope : Scope) (x : String) (v : Value) : World :=
  match scope.lookup x with
  | some id => w.updateHeap (·.setVariable id v)
  | none => w.withRealm (w.setGlobal x v)

/-- The value of a name. -/
def lookup (w : World) (scope : Scope) (x : String) : Value :=
  match scope.lookup x with
  | some id => w.heap.readVariable id
  | none => w.global x

/-- The fault that a raised value is: its text. -/
def raised (w : World) (v : Value) : Fault :=
  match w.text v with
  | .ok bytes => .raised (Utf8.decodeLossy bytes)
  | .error e => .call e

/-- The last number of a loop over integers, if the loop runs at all. -/
def lastInt? (first : Int64) (last : Value) : Except Fault (Option Int64) :=
  match last.numeral? with
  | none => .error .interpreter
  | some (.int n) => .ok (if first ≤ n then some n else none)
  | some (.float x) =>
    match Binary64.exact x with
    | .nan => .ok none
    | .infinite negative => .ok (if negative then none else some Int64.maxValue)
    | .finite negative m e =>
      let n := (Binary64.rational negative m e).floor
      if n < first.toInt then .ok none
      else if Int64.maxValue.toInt < n then .ok (some Int64.maxValue)
      else .ok (some (Int64.ofInt n))

/-- The counter of a loop from the first number to the last, if the loop runs at all. It counts
integers if the first number is one. -/
def counter? (first last : Value) : Except Fault (Option Counter) :=
  match first with
  | .int n => (lastInt? n last).map fun last => last.map (.ints n)
  | _ =>
    match last.coerced?, first.coerced? with
    | some b, some a => .ok (if a ≤ b then some (.floats a b) else none)
    | _, _ => .error .interpreter

/-- One round of a counting loop, with a new variable for the number. -/
def round (w : World) (counter : Counter) (x : String) (body : List Stmt) (scope : Scope)
    (frames : List Frame) : Next :=
  let scope' := (x, w.heap.cells.size) :: scope
  block (w.updateHeap (·.addVariable counter.value)) scope' (.count counter x body scope :: frames)
    body

/-- Does an operation with its operands. -/
def operate (place : Place) (w : World) (op : Operation) (operands : List Value) (scope : Scope)
    (frames : List Frame) : Next :=
  let first := operands.headD .nil
  let second := operands.getD 1 .nil
  match op with
  | .call => call place w first operands.tail frames
  | .send method args =>
    match w.index first (.ofString method) with
    | .ok datum =>
      let (f, w) := w.realize datum
      .running w (.give f) (.operands .apply [first] args scope :: frames)
    | .error f => .running w (.raise f) frames
  | .apply => call place w second (first :: operands.drop 2) frames
  | .index => replyDatum w frames (w.index first second)
  | .length => reply w frames ((w.length first).map .ofNat)
  | .not => .running w (.give (.bool !first.isTrue)) frames
  | .binary op => reply w frames (binary w op first second)
  | .table =>
    let v := Value.table w.heap.tables.size
    .running (w.updateHeap (·.addTable (.ofItems operands))) (.give v) frames
  | .assign x => .running (assign w scope x first) .proceed frames
  | .put => continueWith w frames (w.put first second (operands.getD 2 .nil))
  | .discard => .running w .proceed frames
  | .raise => .running w (.raise (raised w first)) frames
  | .yield => suspend place w operands (.operands .discard [] [] scope :: frames) []
  | .finish => .running w (.leave first) frames
  | .branch yes no => block w scope frames (if first.isTrue then yes else no)
  | .loop condition body =>
    if first.isTrue then block w scope (.loop condition body scope :: frames) body
    else .running w .proceed frames
  | .count x body =>
    match counter? first second with
    | .ok (some counter) => round w counter x body scope frames
    | .ok none => .running w .proceed frames
    | .error f => .running w (.raise f) frames

/-- Evaluates the next operand of an operation, or does it if there is none. -/
def gather (place : Place) (w : World) (op : Operation) (done : List Value) (rest : List Expr)
    (scope : Scope) (frames : List Frame) : Next :=
  match rest with
  | [] => operate place w op done.reverse scope frames
  | e :: es => .running w (.eval e scope) (.operands op done es scope :: frames)

/-- Starts an expression. -/
def start (place : Place) (w : World) (scope : Scope) (frames : List Frame) (e : Expr) : Next :=
  let give (v : Value) : Next := .running w (.give v) frames
  let operation (op : Operation) (es : List Expr) : Next := gather place w op [] es scope frames
  match e with
  | .nil => give .nil
  | .bool b => give (.bool b)
  | .int n => give (.int n)
  | .float x => give (.float x)
  | .text bytes => give (.text bytes)
  | .name x => give (lookup w scope x)
  | .call callee args => operation .call (callee :: args)
  | .send receiver method args => operation (.send method args) [receiver]
  | .index container key => operation .index [container, key]
  | .length e => operation .length [e]
  | .not e => operation .not [e]
  | .binary op a b => operation (.binary op) [a, b]
  | .table items => operation .table items
  | .function params body =>
    let v := Value.closure w.heap.closures.size
    let c : Closure := ⟨params, body, Closure.captured params body scope⟩
    .running (w.updateHeap (·.addClosure c)) (.give v) frames
  | .guarded e => .running w (.eval e scope) (.guard :: frames)

/-- Starts a statement. -/
def begin (place : Place) (w : World) (scope : Scope) (frames : List Frame) (s : Stmt) : Next :=
  let operation (op : Operation) (es : List Expr) : Next := gather place w op [] es scope frames
  match s with
  | .assign x e => operation (.assign x) [e]
  | .put container key value => operation .put [container, key, value]
  | .discard e => operation .discard [e]
  | .raise e => operation .raise [e]
  | .yield values => operation .yield values
  | .finish e => operation .finish [e]
  | .branch condition yes no => operation (.branch yes no) [condition]
  | .loop condition body => operation (.loop condition body) [condition]
  | .count x first last body => operation (.count x body) [first, last]

/-! ### Frames -/

/-- Gives a value to a frame. -/
def resume (place : Place) (w : World) (v : Value) (frame : Frame) (frames : List Frame) : Next :=
  match frame with
  | .operands op done rest scope => gather place w op (v :: done) rest scope frames
  | .guard | .call .. => .running w (.give v) frames
  | .block .. | .loop .. | .count .. => .running w .proceed (frame :: frames)

/-- Goes on with a frame after the end of a block or of a statement. -/
def proceed (place : Place) (w : World) (frame : Frame) (frames : List Frame) : Next :=
  match frame with
  | .block rest scope => block w scope frames rest
  | .loop condition body scope => gather place w (.loop condition body) [] [condition] scope frames
  | .count counter x body scope =>
    match counter.next? with
    | some counter => round w counter x body scope frames
    | none => .running w .proceed frames
  | .call .. | .guard => .running w (.give .nil) frames
  | .operands .. => .running w (.give .nil) (frame :: frames)

/-- One step. -/
def step (place : Place) (w : World) (control : Control) (frames : List Frame) : Next :=
  match control, frames with
  | .eval e scope, frames => start place w scope frames e
  | .exec s scope, frames => begin place w scope frames s
  | .give v, [] => .halted w (.returned v)
  | .give v, frame :: frames => resume place w v frame frames
  | .proceed, [] => .halted w (.returned .nil)
  | .proceed, frame :: frames => proceed place w frame frames
  | .leave v, [] => .halted w (.returned v)
  | .leave v, .call .. :: frames => .running w (.give v) frames
  | .leave v, _ :: frames => .running w (.leave v) frames
  | .raise f, [] => .halted w (.raised f)
  | .raise f, .guard :: frames => .running w (.give (.ofString f.guardedText)) frames
  | .raise f, _ :: frames => .running w (.raise f) frames

/-- Runs for at most `fuel` steps. -/
def run (place : Place) : Nat → Next → Option (Halt × World)
  | _, .halted w halt => some (halt, w)
  | 0, .running .. => none
  | fuel + 1, .running w control frames => run place fuel (step place w control frames)

/-! ### Scripts -/

/-- Runs statements as a main script. -/
def runScript (fuel : Nat) (w : World) (script : List Stmt) : Option (Halt × World) :=
  run .main fuel (block w [] [] script)

/-- Evaluates an expression as a main script. -/
def evaluate (fuel : Nat) (w : World) (e : Expr) : Option (Halt × World) :=
  run .main fuel (.running w (.eval e []) [])

/-- Calls a function from outside. -/
def runCall (fuel : Nat) (w : World) (f : Value) (args : List Value) : Option (Halt × World) :=
  run .main fuel (call .main w f args [])

/-- How a thread goes on that is resumed with some values: its routine is called with them, or they
are what the call gives that suspended it. A call gives one value, which is nil if there is none. -/
def goOn (w : World) (values : List Value) : Coroutine → Next
  | .unstarted routine _ => call .thread w routine values []
  | .suspended frames _ => .running w (.give (values.headD .nil)) frames

/-- Lets a thread go on. Its arguments are passed to it when it is called, and nothing later. -/
def runCoroutine (fuel : Nat) (w : World) (routine : Coroutine) : Option (Halt × World) :=
  run .thread fuel (goOn w routine.passed routine)

end Machine

end KeyLight
