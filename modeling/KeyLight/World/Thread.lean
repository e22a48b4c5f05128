import KeyLight.Machine.Step
import KeyLight.Scheduler.Tick

/-!
# Running threads

Threads run as scripts do, and a thread that suspends itself gives the scheduler the object of a
suspension, which only the capability to wait makes. Anything else breaks the rules.
-/

namespace KeyLight.World

/-- The kind of the first of the values that a thread suspended itself with. -/
def firstKind : List Value → String
  | [] => "nothing"
  | v :: _ => v.kind

/-- How a thread comes back that stopped in the given way. -/
def outcome (heap : Heap) : Halt → Outcome Coroutine
  | .returned _ => .finished
  | .raised f => .failed f.report
  | .yielded values frames kept =>
    match values.head?.bind heap.object? with
    | some (.suspension s) => .suspended s.seconds (.suspended frames kept)
    | _ => .stray (firstKind values)

/-- What there is to tell of a thread that came back. -/
def noteOutcome (r : Realm) (id : ThreadId) : Outcome Coroutine → Realm
  | .failed message => r.note (.failed ⟨id, message⟩)
  | .stray found => r.note (.violated ⟨id, found⟩)
  | .finished | .suspended .. => r

/-- Resumes a thread, which runs for at most `fuel` steps. -/
def resumeThread (fuel : Nat) : Resume Coroutine Realm := fun id routine r s =>
  match Machine.runCoroutine fuel ⟨r, s⟩ routine with
  | none => none
  | some (halt, w) =>
    let o := outcome w.heap halt
    some (o, noteOutcome w.toRealm id o, w.scheduler)

/-- Resumes the threads that are due at the time `now`. -/
def tick (fuel : Nat) (now : Float) (w : World) : Option (Except Violation TickSummary × World) :=
  (Scheduler.tick (resumeThread fuel) now w.toRealm w.scheduler).map
    fun (answer, r, s) => (answer, ⟨r, s⟩)

/-- What the host makes of a thread that it starts. -/
inductive HandleForm
  | object
  | number
  deriving Repr, DecidableEq

/-- Starts a thread for the host. Its handle has to be an object. -/
def spawn (w : World) (f : Value) (args : List Value) (form : HandleForm) :
    Except Fault (Value × World) :=
  if f.isFunction then
    match form with
    | .object => .ok (Effect.startThread w f args)
    | .number => .error (.raised "thread handle must be a userdata")
  else .error (.conversion ("error converting Lua " ++ f.kind ++ " to function"))

end KeyLight.World
