import KeyLight.Config
import KeyLight.World.Collection
import KeyLight.World.Thread

/-!
# Environments

An environment runs the scripts of one effect. The host attaches a controller and a board, loads
scripts, and then calls for ticks, frames and key events. It gets an answer or a `HostError`, and
the environment afterwards in either case.

A thread that breaks the rules puts an end to all running of scripts: from then on every call that
would run one answers with the same violation. Detaching the controller cancels all threads and ends
the leases of all handles.

Each call runs scripts for at most `fuel` steps at a time. If that is not enough there is no answer.
-/

namespace KeyLight

/-- What a call of the host fails with. -/
inductive HostError
  | fault (f : Fault)
  | violation (v : Violation)
  deriving Repr, DecidableEq

/-- The text of an error. -/
def HostError.report : HostError → String
  | .fault f => "lua: " ++ f.report
  | .violation v => "scheduler invariant violated: " ++ v.reason

/-- An environment. -/
structure Environment where
  world : World
  config : Config
  /-- The board that scripts were given last. -/
  board : Option Nat
  /-- The time of the last frame. -/
  lastRender : Option Float

namespace Environment

/-! ### Making one -/

/-- The table of information that scripts start with. -/
def homeTable : Table :=
  ⟨[], [(.ofString "now", .builtin (.capability .now))]⟩

/-- The global variables that scripts start with. The library of the language is left out but for
`tostring`: scripts give up control by a statement, so `coroutine` is but a name for a table, which
they may bind anew like any other. -/
def firstGlobals : List (String × Value) :=
  [("print", .builtin (.capability .print)), ("tocolor", .builtin (.capability .tocolor)),
    ("fade", .builtin (.capability .fade)), ("thread", .builtin (.capability .thread)),
    ("wait", .builtin (.capability .wait)), ("tostring", .builtin .tostring),
    ("keyfx", .table 0), ("coroutine", .table 1)]

/-- The realm of an environment that has run nothing. -/
def firstRealm (host : Host) (defaultEasing : Easing) : Realm where
  heap := { Heap.empty with tables := #[homeTable, .empty] }
  globals := firstGlobals
  home := 0
  context := ⟨none, 0.0, 0, defaultEasing⟩
  host := host
  journal := #[]

/-- An environment that has run nothing, among the things of a host. -/
def start (host : Host) (config : Config) : Environment where
  world := ⟨firstRealm host config.defaultEasing, .empty⟩
  config := config
  board := none
  lastRender := none

/-- The environment with another realm. -/
def withRealm (e : Environment) (r : Realm) : Environment :=
  { e with world := e.world.withRealm r }

/-- The environment with another host. -/
def withHost (e : Environment) (host : Host) : Environment :=
  e.withRealm { e.world.toRealm with host }

/-- The environment with another context. -/
def withContext (e : Environment) (context : Context) : Environment :=
  e.withRealm { e.world.toRealm with context }

/-- The time of the last tick. -/
def now (e : Environment) : Float := e.world.context.clock

/-! ### The controller and the board -/

/-- Shows scripts a handle on the board, or nothing if the host has dropped it. -/
def publish (e : Environment) : Environment :=
  let r := e.world.toRealm
  let (v, r) :=
    match e.board with
    | some id =>
      if (r.host.board? id).isSome then r.newObject (.board (r.leaseBoard id)) else (.nil, r)
    | none => (.nil, r)
  let home := r.heap.readTable r.home
  e.withRealm { r with
    heap := r.heap.setTable r.home ((home.put? (.ofString "db") v).getD home) }

/-- Attaches a controller of the host. -/
def attach (e : Environment) (id : Nat) : Environment :=
  let e := (e.withContext { e.world.context with controller := some id }).publish
  e.withRealm (e.world.note .attached)

/-- Detaches the controller, cancels all threads and ends all leases. Answers whether there was a
controller to detach. -/
def detach (e : Environment) : Bool × Environment :=
  let context := e.world.context
  let (cancelled, scheduler) := e.world.scheduler.cancelAll
  let r := { e.world.toRealm with
    context := { context with controller := none, generation := context.generation + 1 } }
  (context.controller.isSome, { e with world := ⟨r.note (.detached cancelled), scheduler⟩ })

/-- Whether a controller is attached that the host still has. -/
def hasController (e : Environment) : Bool := (e.world.controller?).toOption.isSome

/-- Gives scripts a board of the host. -/
def setBoard (e : Environment) (id : Nat) : Environment := { e with board := some id }.publish

/-! ### Running scripts -/

/-- The answer of a call and the environment after it. -/
abbrev Answer (α : Type) := Except HostError α × Environment

/-- The answer of a script that stopped. -/
def answer (e : Environment) : Halt × World → Answer Value
  | (.returned v, world) => (.ok v, { e with world })
  | (.raised f, world) => (.error (.fault f), { e with world })
  | (.yielded .., world) => (.error (.fault .interpreter), { e with world })

/-- Goes on unless a thread has broken the rules. -/
def whenHealthy {α : Type} (e : Environment) (go : Option (Answer α)) : Option (Answer α) :=
  match e.world.scheduler.poison with
  | some v => some (.error (.violation v), e)
  | none => go

/-- Runs a script. -/
def load (fuel : Nat) (e : Environment) (script : List Stmt) : Option (Answer Unit) :=
  e.whenHealthy <|
    (Machine.runScript fuel e.world script).map fun stop =>
      let (result, e) := e.answer stop
      (result.map fun _ => (), e)

/-- Evaluates an expression, whether or not a thread has broken the rules. -/
def evaluate (fuel : Nat) (e : Environment) (expr : Expr) : Option (Answer Value) :=
  (Machine.evaluate fuel e.world expr).map e.answer

/-- Calls the global function of a name. Answers whether there is one. -/
def invoke (fuel : Nat) (e : Environment) (name : String) (args : List Value) :
    Option (Answer Bool) :=
  e.whenHealthy <|
    let f := e.world.global name
    if f.isFunction then
      (Machine.runCall fuel e.world f args).map fun stop =>
        let (result, e) := e.answer stop
        (result.map fun _ => true, e)
    else if f = .nil then some (.ok false, e)
    else some (.ok false, e.withRealm (e.world.note (.notFunction name f.kind)))

/-- Resumes the threads that are due, without touching the clock. -/
def resumeDue (fuel : Nat) (e : Environment) (now : Float) : Option (Answer TickSummary) :=
  (e.world.tick fuel now).map fun (result, world) =>
    (result.mapError .violation, { e with world })

/-- Advances the clock and resumes the threads that are due. -/
def tick (fuel : Nat) (e : Environment) (now : Float) : Option (Answer TickSummary) :=
  (e.withContext { e.world.context with clock := now }).resumeDue fuel now

/-- The milliseconds from one time to another, none if they are in the wrong order. -/
def elapsed (previous now : Float) : Float :=
  let seconds := now - previous
  (if 0.0 < seconds then seconds else 0.0) * 1000.0

/-- Resumes the threads that are due and then has the script draw a frame on a render target. The
script is told how many milliseconds have passed since the last frame. -/
def render (fuel : Nat) (e : Environment) (now : Float) (target : Nat) : Option (Answer Bool) := do
  match ← e.tick fuel now with
  | (.error error, e) => some (.error error, e)
  | (.ok _, e) =>
    let passed := (e.lastRender.map fun previous => elapsed previous now).getD 0.0
    let e := { e with lastRender := some now }
    let (v, r) := e.world.newObject (.target (e.world.leaseTarget target))
    { e with world := r }.invoke fuel "render" [.float passed, v]

/-- Tells the script of a key that was pressed or released. Answers whether there was anybody to
tell. -/
def keyEvent (fuel : Nat) (e : Environment) (index : Nat) (pressed : Bool) :
    Option (Answer Bool) :=
  match e.board with
  | none => some (.ok false, e)
  | some id =>
    if ((e.world.host.board? id).bind fun k => k.key? index).isSome then
      let (v, world) := e.world.newObject (.key ((e.world.leaseBoard id).key index))
      { e with world }.invoke fuel "onKeyEvent" [v, .bool pressed]
    else some (.ok false, e)

/-- Hands over the failures of threads. -/
def takeFailures (e : Environment) : List Failure × Environment :=
  let (failures, scheduler) := e.world.scheduler.takeFailures
  (failures, { e with world := { e.world with scheduler } })

/-- The live threads with their states. -/
def threadStates (e : Environment) : List (ThreadId × ThreadState) := e.world.scheduler.states

/-- Gives a global variable a value. -/
def setGlobal (e : Environment) (name : String) (v : Value) : Environment :=
  e.withRealm (e.world.setGlobal name v)

/-- Gives a global variable a native value. -/
def giveObject (e : Environment) (name : String) (o : Object) : Environment :=
  let (v, world) := e.world.newObject o
  { e with world }.setGlobal name v

/-- Drops what scripts cannot reach. -/
def collect (e : Environment) : Environment := { e with world := e.world.collect }

end Environment

end KeyLight
