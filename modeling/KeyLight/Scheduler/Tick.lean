import KeyLight.Scheduler.Basic

/-!
# Ticks

A tick resumes the threads that are due, one after the other in the order of starting. Which ones
these are is settled before the first of them runs, so a thread started during a tick waits for the
next one. Each thread runs until it stops, fails or suspends itself. If one suspends itself with
anything but a request, the tick ends there and no later tick resumes anything.

Resuming is a parameter: `Resume` is what a thread does when it runs, given the state `σ` of the
world around it. It may start threads and may find no answer at all.
-/

namespace KeyLight

/-- How a thread comes back from running. -/
inductive Outcome (ρ : Type)
  | finished
  | failed (message : String)
  /-- Asks to be resumed after some seconds, with what is left to do. -/
  | suspended (seconds : Float) (rest : ρ)
  /-- Gave up control with a value of the given kind, which is no request. -/
  | stray (found : String)

/-- What a thread does when it is resumed: how it comes back, and the world and the scheduler after
it. -/
abbrev Resume (ρ σ : Type) :=
  ThreadId → ρ → σ → Scheduler ρ → Option (Outcome ρ × σ × Scheduler ρ)

/-- What a tick did, in numbers of threads. -/
structure TickSummary where
  resumed : Nat
  finished : Nat
  errored : Nat
  waiting : Nat
  deriving Repr, DecidableEq

namespace TickSummary

def zero : TickSummary := ⟨0, 0, 0, 0⟩

/-- Counts one more thread that was resumed. -/
def count {ρ : Type} (n : TickSummary) : Outcome ρ → TickSummary
  | .finished => { n with resumed := n.resumed + 1, finished := n.finished + 1 }
  | .failed _ => { n with resumed := n.resumed + 1, errored := n.errored + 1 }
  | .suspended .. => { n with resumed := n.resumed + 1, waiting := n.waiting + 1 }
  | .stray _ => { n with resumed := n.resumed + 1 }

end TickSummary

namespace Scheduler

variable {ρ σ : Type}

/-- Whether a live thread is due at the time `now`. -/
def isDue (s : Scheduler ρ) (now : Float) (id : ThreadId) : Bool :=
  match s.thread? id with
  | some t => t.state.isDue now
  | none => false

/-- Whether the handle of a thread is collected. -/
def isCollected (s : Scheduler ρ) (id : ThreadId) : Bool :=
  match s.thread? id with
  | some t => t.collected
  | none => false

/-- The threads to resume, with what they have left to do. -/
def agenda (s : Scheduler ρ) (now : Float) : List (ThreadId × ρ) :=
  (s.live.filter fun id => s.isDue now id && !s.isCollected id).filterMap fun id =>
    ((s.thread? id).bind (·.routine)).map (id, ·)

/-- Cancels the threads that are due and whose handle is collected. -/
def cancelCollected (s : Scheduler ρ) (now : Float) : Scheduler ρ :=
  (s.live.filter fun id => s.isDue now id && s.isCollected id).foldl
    (fun s id => s.setState id .cancelled) s

/-- Takes note of how a thread came back at the time `now`. -/
def settle (s : Scheduler ρ) (now : Float) (id : ThreadId) : Outcome ρ → Scheduler ρ
  | .finished => s.setState id .finished
  | .failed message =>
    let s := s.setState id .errored
    { s with failures := s.failures ++ [⟨id, message⟩] }
  | .suspended seconds rest =>
    s.update id fun t => { t with state := .waiting (now + seconds), routine := some rest }
  | .stray found => { s.setState id .errored with poison := some ⟨id, found⟩ }

/-- Resumes the threads of an agenda in turn, up to one that breaks the rules. -/
def resumeAll (resume : Resume ρ σ) (now : Float) :
    List (ThreadId × ρ) → TickSummary → σ → Scheduler ρ →
      Option (Except Violation TickSummary × σ × Scheduler ρ)
  | [], n, w, s => some (.ok n, w, s)
  | (id, routine) :: rest, n, w, s =>
    match resume id routine w (s.setState id .running) with
    | none => none
    | some (outcome, w, s) =>
      let s := s.settle now id outcome
      match outcome with
      | .stray found => some (.error ⟨id, found⟩, w, s)
      | _ => resumeAll resume now rest (n.count outcome) w s

/-- One tick at the time `now`. It gives no answer if one of the threads gives none. -/
def tick (resume : Resume ρ σ) (now : Float) (w : σ) (s : Scheduler ρ) :
    Option (Except Violation TickSummary × σ × Scheduler ρ) :=
  match s.poison with
  | some v => some (.error v, w, s)
  | none =>
    (resumeAll resume now (s.agenda now) .zero w (s.cancelCollected now)).map
      fun (answer, w, s) => (answer, w, s.reap)

end Scheduler

end KeyLight
