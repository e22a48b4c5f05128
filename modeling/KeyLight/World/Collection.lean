import KeyLight.World.Basic

/-!
# Collection

What scripts can reach are the values of the global variables, the table of information, and what
these refer to: the values in a table, the variables a function keeps, and for the handle of a
thread what the thread has left to do. A collection notes which threads have a handle that can still
be reached; the others are dropped by the next tick.
-/

namespace KeyLight

/-- A thing that something can refer to. -/
inductive Node
  | cell (id : Nat)
  | table (id : Nat)
  | closure (id : Nat)
  | object (id : Nat)
  | thread (id : ThreadId)
  deriving Repr, DecidableEq

/-- What a value refers to. -/
def Value.nodes : Value → List Node
  | .table id => [.table id]
  | .closure id => [.closure id]
  | .object id => [.object id]
  | .nil | .bool _ | .int _ | .float _ | .text _ | .builtin _ => []

/-- The variables in scope. -/
def Scope.nodes (scope : Scope) : List Node := scope.map fun entry => .cell entry.2

/-- What a table refers to. -/
def Table.nodes (t : Table) : List Node :=
  t.items.flatMap Value.nodes ++ t.fields.flatMap fun (key, v) => key.nodes ++ v.nodes

/-- What a frame refers to. -/
def Frame.nodes : Frame → List Node
  | .operands _ done _ scope => done.flatMap Value.nodes ++ Scope.nodes scope
  | .block _ scope | .loop _ _ scope | .count _ _ _ scope => Scope.nodes scope
  | .call callee scope _ => callee.nodes ++ Scope.nodes scope
  | .guard => []

/-- What arguments refer to that are put away. -/
def Packed.nodes (p : Packed) : List Node := p.slots.flatMap fun slot => slot.2.nodes

/-- What a routine refers to. -/
def Coroutine.nodes : Coroutine → List Node
  | .unstarted routine args => routine.nodes ++ args.nodes
  | .suspended frames kept => frames.flatMap Frame.nodes ++ kept.flatMap Value.nodes

/-- A routine that is yet to be called refers to what it is called with. -/
theorem Coroutine.nodes_fresh (routine : Value) (args : List Value) :
    (fresh routine args).nodes = routine.nodes ++ args.flatMap Value.nodes :=
  congrArg (routine.nodes ++ ·) (Packed.flatMap_place rfl 1 args)

namespace World

/-- What a thing refers to. -/
def links (w : World) : Node → List Node
  | .cell id => (w.heap.readVariable id).nodes
  | .table id => (w.heap.readTable id).nodes
  | .closure id => (w.heap.closures[id]?.map fun c => Scope.nodes c.scope).getD []
  | .object id =>
    match w.heap.objects[id]? with
    | some (.thread h) => [.thread h.id]
    | _ => []
  | .thread id => (((w.scheduler.thread? id).bind (·.routine)).map Coroutine.nodes).getD []

/-- What can be reached at once. -/
def roots (w : World) : List Node :=
  .table w.home :: w.globals.flatMap fun entry => entry.2.nodes

/-- Adds what is linked to, in at most `fuel` rounds, until nothing is new. -/
def spread (links : Node → List Node) : Nat → List Node → List Node
  | 0, seen => seen
  | fuel + 1, seen =>
    let new := ((seen.flatMap links).filter fun n => !seen.contains n).eraseDups
    if new.isEmpty then seen else spread links fuel (seen ++ new)

/-- The number of things there are. -/
def nodeCount (w : World) : Nat :=
  w.heap.cells.size + w.heap.tables.size + w.heap.closures.size + w.heap.objects.size +
    w.scheduler.threads.size

/-- All that can be reached. -/
def reached (w : World) : List Node := spread w.links (w.nodeCount + 2) w.roots

/-- Notes which threads have a handle that can be reached. -/
def collect (w : World) : World :=
  let reached := w.reached
  { w with scheduler := w.scheduler.collect fun id => reached.contains (.thread id) }

end World

end KeyLight
