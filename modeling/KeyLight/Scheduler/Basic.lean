/-!
# Threads and their scheduler

The scheduler keeps every thread that was ever started, in the order of starting, and among them the
*live* ones, which may still be resumed. A thread is ready, running or waiting until it stops for
one of three reasons, and then it never runs again. What a thread has left to do is its routine; the
scheduler passes it on and never looks into it.

A thread whose handle is collected stays in the list of live threads until the next tick drops it.
-/

namespace KeyLight

/-- The number of a thread, counted from one in the order of starting. -/
abbrev ThreadId := Nat

/-- Where a thread is in its life. -/
inductive ThreadState
  | ready
  | running
  /-- To be resumed at the given time or later. -/
  | waiting (wakeAt : Float)
  | finished
  | errored
  | cancelled
  deriving Repr, DecidableEq

namespace ThreadState

def name : ThreadState → String
  | .ready => "ready"
  | .running => "running"
  | .waiting _ => "waiting"
  | .finished => "finished"
  | .errored => "errored"
  | .cancelled => "cancelled"

/-- Whether a thread in this state has stopped. -/
def isTerminal : ThreadState → Bool
  | .finished | .errored | .cancelled => true
  | .ready | .running | .waiting _ => false

/-- Whether a thread in this state is to be resumed at the time `now`. -/
def isDue (now : Float) : ThreadState → Bool
  | .ready => true
  | .waiting wakeAt => wakeAt ≤ now
  | _ => false

/-- Whether two states are equal as states of waiting for a number are: by the order of numbers, so
that waiting for no number equals nothing. -/
def agrees : ThreadState → ThreadState → Bool
  | .waiting a, .waiting b => a == b
  | a, b => a = b

end ThreadState

/-- A thread with a routine of type `ρ`. -/
structure Thread (ρ : Type) where
  state : ThreadState
  /-- What is left to do; nothing once the thread is dropped. -/
  routine : Option ρ
  /-- Whether no script can reach the handle any more. -/
  collected : Bool

/-- An error that stopped a thread. -/
structure Failure where
  thread : ThreadId
  message : String
  deriving Repr, DecidableEq

/-- The line that tells of a failure. -/
def Failure.line (f : Failure) : String :=
  "thread #" ++ toString f.thread ++ " failed: " ++ f.message

/-- A thread suspended itself with something that is no request. -/
structure Violation where
  thread : ThreadId
  /-- The kind of the value that was found. -/
  found : String
  deriving Repr, DecidableEq

/-- Why the scheduler resumes nothing any more. -/
def Violation.reason (v : Violation) : String :=
  "thread #" ++ toString v.thread ++ " yielded " ++ v.found ++ " instead of a suspension request"

/-- The threads and what became of them. -/
structure Scheduler (ρ : Type) where
  /-- All threads, thread `n` at place `n - 1`. -/
  threads : Array (Thread ρ)
  /-- The threads that may still be resumed. -/
  live : List ThreadId
  /-- The failures that nobody has taken yet. -/
  failures : List Failure
  /-- Set once a thread has broken the rules. -/
  poison : Option Violation

namespace Scheduler

variable {ρ : Type}

/-- No threads. -/
def empty : Scheduler ρ := ⟨#[], [], [], none⟩

/-- The thread of a number. -/
def thread? (s : Scheduler ρ) (id : ThreadId) : Option (Thread ρ) :=
  if id = 0 then none else s.threads[id - 1]?

/-- The state of a thread. -/
def state? (s : Scheduler ρ) (id : ThreadId) : Option ThreadState := (s.thread? id).map (·.state)

/-- Changes one thread. -/
def update (s : Scheduler ρ) (id : ThreadId) (f : Thread ρ → Thread ρ) : Scheduler ρ :=
  match s.thread? id with
  | some t => { s with threads := s.threads.setIfInBounds (id - 1) (f t) }
  | none => s

/-- Puts a thread into a state. -/
def setState (s : Scheduler ρ) (id : ThreadId) (state : ThreadState) : Scheduler ρ :=
  s.update id fun t => { t with state }

/-- Starts a thread. It first runs at the next tick. -/
def spawn (s : Scheduler ρ) (routine : ρ) : ThreadId × Scheduler ρ :=
  let id := s.threads.size + 1
  (id, { s with threads := s.threads.push ⟨.ready, some routine, false⟩, live := s.live ++ [id] })

/-- Whether a thread is dropped at the end of a tick. -/
def isDone (s : Scheduler ρ) (id : ThreadId) : Bool :=
  match s.thread? id with
  | some t => t.collected || t.state.isTerminal
  | none => true

/-- Drops the routine of a thread. -/
def forget (s : Scheduler ρ) (id : ThreadId) : Scheduler ρ :=
  s.update id fun t => { t with routine := none }

/-- Drops the threads that have stopped and those whose handle is collected. -/
def reap (s : Scheduler ρ) : Scheduler ρ :=
  let done := s.live.filter s.isDone
  { done.foldl forget s with live := s.live.filter fun id => !s.isDone id }

/-- Cancels the live threads, and says how many there were. -/
def cancelAll (s : Scheduler ρ) : Nat × Scheduler ρ :=
  (s.live.length, (s.live.foldl (fun s id => s.setState id .cancelled) s).reap)

/-- Hands over the failures. -/
def takeFailures (s : Scheduler ρ) : List Failure × Scheduler ρ :=
  (s.failures, { s with failures := [] })

/-- Notes which handles of live threads are still held. -/
def collect (s : Scheduler ρ) (held : ThreadId → Bool) : Scheduler ρ :=
  s.live.foldl
    (fun s id => if held id then s else s.update id fun t => { t with collected := true }) s

/-- The live threads with their states, in the order of starting. -/
def states (s : Scheduler ρ) : List (ThreadId × ThreadState) :=
  s.live.filterMap fun id => (s.state? id).map (id, ·)

/-- Changing one thread leaves the others as they are. -/
theorem thread?_update (s : Scheduler ρ) (id other : ThreadId) (f : Thread ρ → Thread ρ) :
    (s.update id f).thread? other =
      if other = id then (s.thread? id).map f else s.thread? other := by
  unfold update
  cases h : s.thread? id with
  | none => split <;> simp_all
  | some t =>
    by_cases ho : other = id
    · subst ho
      have h0 : other ≠ 0 := by intro h0; simp [thread?, h0] at h
      simp only [thread?, h0, if_false] at h ⊢
      simp [(Array.getElem?_eq_some_iff.1 h).1]
    · have hi : 0 < id := by
        refine Nat.pos_of_ne_zero fun hi => ?_
        simp [thread?, hi] at h
      by_cases h0 : other = 0
      · simp [thread?, h0, (Nat.ne_of_gt hi).symm]
      · have hne : id - 1 ≠ other - 1 := fun he =>
          ho (Nat.sub_one_cancel (Nat.pos_of_ne_zero h0) hi he.symm)
        simp [thread?, h0, ho, hne]

@[simp] theorem live_update (s : Scheduler ρ) (id : ThreadId) (f : Thread ρ → Thread ρ) :
    (s.update id f).live = s.live := by
  unfold update; split <;> rfl

@[simp] theorem failures_update (s : Scheduler ρ) (id : ThreadId) (f : Thread ρ → Thread ρ) :
    (s.update id f).failures = s.failures := by
  unfold update; split <;> rfl

@[simp] theorem poison_update (s : Scheduler ρ) (id : ThreadId) (f : Thread ρ → Thread ρ) :
    (s.update id f).poison = s.poison := by
  unfold update; split <;> rfl

theorem state?_setState (s : Scheduler ρ) (id other : ThreadId) (state : ThreadState) :
    (s.setState id state).state? other =
      if other = id then (s.state? id).map fun _ => state else s.state? other := by
  unfold setState state?
  rw [thread?_update]
  split <;> simp [Function.comp_def]

end Scheduler

end KeyLight
