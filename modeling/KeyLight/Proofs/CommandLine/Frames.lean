import KeyLight.CommandLine.Run
import KeyLight.Proofs.Environment.Journal

/-!
# Frames of a run

A run tells of the failure of a thread twice: the scheduler records it when the thread comes back
(`Event.isRecord`), and the program reports it after the frame, with the number of the frame
(`Event.isReport`). `Run.framesFrom` are the frames that are drawn from one environment on, with the
visits that threads are paid in each of them.

`Run.Tells` says what is told of failures between two points of a run. A frame has its failures
recorded, and reported if it does not end with an error (`Run.tells_renderFrame`); so do all of them
together (`Run.tells_renderAll`).
-/

namespace KeyLight.CommandLine

/-! ### Records and reports -/

namespace Event

/-- The event by which the scheduler records a failure. -/
def ofFailure (f : Failure) : Event := ofNotice (.failed f)

/-- Whether the scheduler records a failure. -/
def isRecord (e : Event) : Bool := e.level == .warn && e.target == "keyfx_core::scheduler"

/-- Whether the program reports something of a frame that went wrong. -/
def isReport (e : Event) : Bool :=
  e.level == .warn && e.target == "keyfx" && e.fields.any fun field => field.1 == "frame"

theorem level_of_isRecord (e : Event) (h : e.isRecord = true) : e.level = .warn :=
  eq_of_beq (Bool.and_eq_true_iff.mp h).1

theorem level_of_isReport (e : Event) (h : e.isReport = true) : e.level = .warn :=
  eq_of_beq (Bool.and_eq_true_iff.mp (Bool.and_eq_true_iff.mp h).1).1

theorem filter_isRecord_ofNotice (notices : List Notice) :
    (notices.map ofNotice).filter isRecord =
      (notices.filterMap Notice.failure?).map ofFailure := by
  induction notices with
  | nil => rfl
  | cons n notices ih =>
    rw [List.map_cons, List.filter_cons, ih]
    cases n <;> rfl

theorem isReport_ofNotice (n : Notice) : (ofNotice n).isReport = false := by
  cases n <;> rfl

theorem filter_isReport_ofNotice (notices : List Notice) :
    (notices.map ofNotice).filter isReport = [] := by
  refine List.filter_eq_nil_iff.mpr fun e he => ?_
  obtain ⟨n, -, rfl⟩ := List.mem_map.mp he
  rw [isReport_ofNotice]
  exact Bool.false_ne_true

end Event

/-! ### Frames -/

/-- A frame of a run. -/
structure Frame where
  number : Nat
  /-- The visits that threads are paid before the script draws. -/
  visits : List (Visit Coroutine)
  /-- What drawing comes to. -/
  answer : Except HostError Bool

namespace Frame

/-- Whether the frame ended without an error. -/
def isDrawn (f : Frame) : Bool := f.answer.toBool

/-- The failures of the threads that are visited. -/
def failures (f : Frame) : List Failure := f.visits.filterMap Visit.failure?

/-- A report for each of the failures. -/
def reports (f : Frame) : List Event := f.failures.map (Run.failureEvent f.number)

end Frame

namespace Run

variable {r r₁ r' : Run} {fuel target fps : Nat} {e : Environment}

/-- The environment after a frame: what it noted is told, and its failures are taken. -/
def settle (e : Environment) : Environment := e.hushed.takeFailures.2.hushed

/-- The frames from the given number on, up to one that ends with an error. -/
def framesFrom (fuel target fps : Nat) : Nat → Nat → Environment → List Frame
  | 0, _, _ => []
  | count + 1, number, e =>
    let visits := e.visits fuel (frameTime fps number)
    match e.render fuel (frameTime fps number) target with
    | none => []
    | some (.error error, _) => [⟨number, visits, .error error⟩]
    | some (.ok drawn, e) =>
      ⟨number, visits, .ok drawn⟩ :: framesFrom fuel target fps count (number + 1) (settle e)

/-! ### What is told -/

/-- What a run has told of failures that the scheduler recorded. -/
def records (r : Run) : List Event := r.events.toList.filter Event.isRecord

/-- What a run has reported of frames. -/
def reports (r : Run) : List Event := r.events.toList.filter Event.isReport

theorem tellAll_eq (r : Run) (events : List Event) :
    r.tellAll events = ⟨r.environment, r.events ++ events⟩ := by
  induction events generalizing r with
  | nil => simp [tellAll]
  | cons e events ih =>
    rw [tellAll, List.foldl_cons, ← tellAll, ih]
    simp [tell]

@[simp] theorem environment_tellAll (r : Run) (events : List Event) :
    (r.tellAll events).environment = r.environment := by rw [tellAll_eq]

theorem records_tellAll (r : Run) (events : List Event) :
    (r.tellAll events).records = r.records ++ events.filter Event.isRecord := by
  rw [tellAll_eq, records, Array.toList_appendList, List.filter_append]
  rfl

theorem reports_tellAll (r : Run) (events : List Event) :
    (r.tellAll events).reports = r.reports ++ events.filter Event.isReport := by
  rw [tellAll_eq, reports, Array.toList_appendList, List.filter_append]
  rfl

theorem records_goOn (r : Run) (e : Environment) :
    (r.goOn e).records = r.records ++ e.world.noted.map Event.ofFailure := by
  simp only [records, goOn, Array.toList_append, Array.toList_map, List.filter_append,
    Event.filter_isRecord_ofNotice]
  rfl

theorem reports_goOn (r : Run) (e : Environment) : (r.goOn e).reports = r.reports := by
  simp only [reports, goOn, Array.toList_append, Array.toList_map, List.filter_append,
    Event.filter_isReport_ofNotice, List.append_nil]

theorem filter_isRecord_failureEvent (n : Nat) (failures : List Failure) :
    (failures.map (failureEvent n)).filter Event.isRecord = [] := by
  refine List.filter_eq_nil_iff.mpr fun e he => ?_
  obtain ⟨f, -, rfl⟩ := List.mem_map.mp he
  exact Bool.false_ne_true

theorem filter_isReport_failureEvent (n : Nat) (failures : List Failure) :
    (failures.map (failureEvent n)).filter Event.isReport = failures.map (failureEvent n) := by
  refine List.filter_eq_self.mpr fun e he => ?_
  obtain ⟨f, -, rfl⟩ := List.mem_map.mp he
  rfl

/-- What is told of failures from one point of a run to a later one, between which there are some
frames: the scheduler records all failures, and those of frames that are drawn are reported. -/
structure Tells (r : Run) (frames : List Frame) (r' : Run) : Prop where
  records : r'.records = r.records ++ (frames.flatMap Frame.failures).map Event.ofFailure
  reports : r'.reports = r.reports ++ (frames.filter Frame.isDrawn).flatMap Frame.reports
  run : ∃ events, Scheduler.Run r.environment.world.scheduler events
      r'.environment.world.scheduler ∧
    events.flatMap Scheduler.Event.visits = frames.flatMap Frame.visits

/-- All failures have been taken and told. -/
structure Settled (e : Environment) : Prop where
  noted : e.world.noted = []
  taken : e.world.scheduler.failures = []
  idle : e.world.scheduler.Idle

namespace Tells

variable {frames frames' : List Frame}

protected theorem refl : r.Tells [] r where
  records := (List.append_nil _).symm
  reports := (List.append_nil _).symm
  run := ⟨[], .nil, rfl⟩

protected theorem append (h : r.Tells frames r₁) (h' : r₁.Tells frames' r') :
    r.Tells (frames ++ frames') r' where
  records := by
    rw [h'.records, h.records, List.flatMap_append, List.map_append, List.append_assoc]
  reports := by
    rw [h'.reports, h.reports, List.filter_append, List.flatMap_append, List.append_assoc]
  run := by
    obtain ⟨events, hrun, hvisits⟩ := h.run
    obtain ⟨events', hrun', hvisits'⟩ := h'.run
    refine ⟨events ++ events', hrun.trans hrun', ?_⟩
    rw [List.flatMap_append, List.flatMap_append, hvisits, hvisits']

/-- Events that are no records and no reports. -/
theorem of_tellAll {events : List Event} (hrecord : events.filter Event.isRecord = [])
    (hreport : events.filter Event.isReport = []) : r.Tells [] (r.tellAll events) where
  records := by rw [records_tellAll, hrecord]; rfl
  reports := by rw [reports_tellAll, hreport]; rfl
  run := ⟨[], by rw [environment_tellAll]; exact .nil, rfl⟩

theorem of_tell {event : Event} (hrecord : event.isRecord = false)
    (hreport : event.isReport = false) : r.Tells [] (r.tell event) := by
  have htells : r.Tells [] (r.tellAll [event]) :=
    .of_tellAll (List.filter_cons_of_neg (Bool.eq_false_iff.mp hrecord))
      (List.filter_cons_of_neg (Bool.eq_false_iff.mp hreport))
  exact htells

/-- A call that notes no failure and pays no visits. -/
theorem of_goOn (hnoted : e.world.noted = [])
    (hrun : ∃ events, Scheduler.Run r.environment.world.scheduler events e.world.scheduler ∧
      events.flatMap Scheduler.Event.visits = []) : r.Tells [] (r.goOn e) where
  records := by rw [records_goOn, hnoted]; rfl
  reports := by rw [reports_goOn]; exact (List.append_nil _).symm
  run := hrun

end Tells

/-! ### One frame -/

theorem settled_settle {e : Environment} (hidle : e.world.scheduler.Idle) : Settled (settle e) where
  noted := rfl
  taken := rfl
  idle := hidle.takeFailures

/-- Either the frame ends with an error, or its failures are taken and reported. -/
theorem renderFrame_cases {number : Nat} {answer : Except HostError Bool}
    (h : r.renderFrame fuel target fps number = some (answer, r')) :
    ∃ e, r.environment.render fuel (frameTime fps number) target = some (answer, e) ∧
      ((∃ error, answer = .error error ∧ r' = r.goOn e) ∨
        ∃ drawn, answer = .ok drawn ∧
          r' = ((r.goOn e).goOn e.hushed.takeFailures.2).tellAll
            (e.world.scheduler.failures.map (failureEvent number))) := by
  obtain ⟨⟨answer', e⟩, hrender, h⟩ := Option.bind_eq_some_iff.mp h
  cases answer' with
  | error error =>
    obtain ⟨rfl, rfl⟩ := Prod.mk.inj (Option.some.inj h)
    exact ⟨e, hrender, .inl ⟨error, rfl, rfl⟩⟩
  | ok drawn =>
    obtain ⟨rfl, rfl⟩ := Prod.mk.inj (Option.some.inj h)
    exact ⟨e, hrender, .inr ⟨drawn, rfl, rfl⟩⟩

/-- The environment after a frame that is drawn. -/
theorem environment_of_renderFrame {number : Nat} {drawn : Bool}
    (h : r.renderFrame fuel target fps number = some (.ok drawn, r')) :
    ∃ e, r.environment.render fuel (frameTime fps number) target = some (.ok drawn, e) ∧
      r'.environment = settle e := by
  obtain ⟨e, hrender, ⟨error, herror, -⟩ | ⟨_, -, rfl⟩⟩ := renderFrame_cases h
  · cases herror
  · exact ⟨e, hrender, environment_tellAll _ _⟩

/-- **What a frame tells.** The failures of its visits are recorded, and if it does not end with an
error, they are reported. -/
theorem tells_renderFrame {number : Nat} {answer : Except HostError Bool}
    (hr : Settled r.environment)
    (h : r.renderFrame fuel target fps number = some (answer, r')) :
    r.Tells [⟨number, r.environment.visits fuel (frameTime fps number), answer⟩] r' := by
  obtain ⟨e, hrender, hcases⟩ := renderFrame_cases h
  have hdraws := Environment.draws_of_render hrender
  have hnoted := hdraws.noted
  have hfailures := hdraws.failures_eq hr.idle
  obtain ⟨events, hrun, hvisits, -⟩ := hdraws.run
  -- nothing was left from before, so all that is noted and queued now is of this frame
  rw [hr.noted, List.nil_append] at hnoted
  rw [hr.taken, List.nil_append] at hfailures
  obtain ⟨error, rfl, rfl⟩ | ⟨drawn, rfl, rfl⟩ := hcases
  · refine ⟨?_, ?_, events, hrun, ?_⟩
    · rw [records_goOn, hnoted, List.flatMap_singleton]
      rfl
    · rw [reports_goOn]
      exact (List.append_nil _).symm
    · rw [hvisits, List.flatMap_singleton]
  · -- after the call that draws, taking the failures notes nothing more
    have hquiet : e.hushed.takeFailures.2.world.noted = [] := rfl
    refine ⟨?_, ?_, events ++ [.taken e.world.scheduler.takeFailures.1], ?_, ?_⟩
    · rw [records_tellAll, filter_isRecord_failureEvent, records_goOn, records_goOn, hnoted,
        hquiet, List.flatMap_singleton, List.map_nil, List.append_nil, List.append_nil]
      rfl
    · rw [reports_tellAll, filter_isReport_failureEvent, reports_goOn, reports_goOn, hfailures]
      exact congrArg (r.reports ++ ·) (List.append_nil _).symm
    · rw [environment_tellAll]
      exact hrun.snoc .take
    · rw [List.flatMap_append, hvisits, List.flatMap_singleton, List.flatMap_singleton]
      exact List.append_nil _

/-- A frame that is drawn leaves nothing to be told. -/
theorem settled_renderFrame {number : Nat} {drawn : Bool} (hr : Settled r.environment)
    (h : r.renderFrame fuel target fps number = some (.ok drawn, r')) : Settled r'.environment := by
  obtain ⟨e, hrender, henvironment⟩ := environment_of_renderFrame h
  obtain ⟨events, hrun, -⟩ := (Environment.draws_of_render hrender).run
  rw [henvironment]
  exact settled_settle (hrun.idle hr.idle)

/-! ### All frames -/

/-- A call gives no answer, fails or succeeds. -/
theorem answer_cases {α : Type} (answer : Option (Environment.Answer α)) :
    answer = none ∨ (∃ error e, answer = some (.error error, e)) ∨
      ∃ a e, answer = some (.ok a, e) := by
  cases answer with
  | none => exact .inl rfl
  | some result =>
    obtain ⟨error | a, e⟩ := result
    · exact .inr (.inl ⟨error, e, rfl⟩)
    · exact .inr (.inr ⟨a, e, rfl⟩)

section Frames

variable {count number : Nat} {e' : Environment}

theorem framesFrom_of_none (h : e.render fuel (frameTime fps number) target = none) :
    framesFrom fuel target fps (count + 1) number e = [] := by
  rw [framesFrom, h]

theorem framesFrom_of_error {error : HostError}
    (h : e.render fuel (frameTime fps number) target = some (.error error, e')) :
    framesFrom fuel target fps (count + 1) number e =
      [⟨number, e.visits fuel (frameTime fps number), .error error⟩] := by
  rw [framesFrom, h]

theorem framesFrom_of_ok {drawn : Bool}
    (h : e.render fuel (frameTime fps number) target = some (.ok drawn, e')) :
    framesFrom fuel target fps (count + 1) number e =
      ⟨number, e.visits fuel (frameTime fps number), .ok drawn⟩ ::
        framesFrom fuel target fps count (number + 1) (settle e') := by
  rw [framesFrom, h]

/-- **What all frames tell.** -/
theorem tells_renderAll {rendered : Bool} {result : Except HostError Bool}
    (hr : Settled r.environment)
    (h : renderAll fuel target fps count number rendered r = some (result, r')) :
    r.Tells (framesFrom fuel target fps count number r.environment) r' := by
  induction count generalizing number rendered r with
  | zero =>
    obtain ⟨-, rfl⟩ := Prod.mk.inj (Option.some.inj h)
    exact .refl
  | succ count ih =>
    obtain ⟨⟨answer, r₁⟩, hframe, h⟩ := Option.bind_eq_some_iff.mp h
    have hfirst := tells_renderFrame hr hframe
    cases answer with
    | error error =>
      obtain ⟨-, rfl⟩ := Prod.mk.inj (Option.some.inj h)
      obtain ⟨e, hrender, -⟩ := renderFrame_cases hframe
      rw [framesFrom_of_error hrender]
      exact hfirst
    | ok drawn =>
      obtain ⟨e, hrender, henvironment⟩ := environment_of_renderFrame hframe
      rw [framesFrom_of_ok hrender, ← henvironment]
      exact hfirst.append (ih (settled_renderFrame hr hframe) h)

/-- The frames are numbered one after the other. -/
theorem numbers_framesFrom (fuel target fps count number : Nat) (e : Environment) :
    (framesFrom fuel target fps count number e).map Frame.number =
      List.range' number (framesFrom fuel target fps count number e).length := by
  induction count generalizing number e with
  | zero => rfl
  | succ count ih =>
    obtain hrender | ⟨error, e', hrender⟩ | ⟨drawn, e', hrender⟩ :=
      answer_cases (e.render fuel (frameTime fps number) target)
    · rw [framesFrom_of_none hrender]
      rfl
    · rw [framesFrom_of_error hrender]
      rfl
    · rw [framesFrom_of_ok hrender, List.map_cons, List.length_cons, List.range'_succ, ih]

/-- A frame that is followed by another one is drawn. -/
theorem pairwise_framesFrom (fuel target fps count number : Nat) (e : Environment) :
    (framesFrom fuel target fps count number e).Pairwise fun f _ => f.isDrawn = true := by
  induction count generalizing number e with
  | zero => exact .nil
  | succ count ih =>
    obtain hrender | ⟨error, e', hrender⟩ | ⟨drawn, e', hrender⟩ :=
      answer_cases (e.render fuel (frameTime fps number) target)
    · rw [framesFrom_of_none hrender]
      exact .nil
    · rw [framesFrom_of_error hrender]
      exact List.pairwise_singleton _ _
    · rw [framesFrom_of_ok hrender]
      exact .cons (fun _ _ => rfl) (ih (number + 1) (settle e'))

/-- All frames are drawn if there is no error. -/
theorem isDrawn_of_renderAll {rendered drawn : Bool}
    (h : renderAll fuel target fps count number rendered r = some (.ok drawn, r')) :
    (framesFrom fuel target fps count number r.environment).length = count ∧
      ∀ f ∈ framesFrom fuel target fps count number r.environment, f.isDrawn = true := by
  induction count generalizing number rendered r with
  | zero => exact ⟨rfl, List.forall_mem_nil _⟩
  | succ count ih =>
    obtain ⟨⟨answer, r₁⟩, hframe, h⟩ := Option.bind_eq_some_iff.mp h
    cases answer with
    | error error => cases h
    | ok drawn =>
      obtain ⟨e, hrender, henvironment⟩ := environment_of_renderFrame hframe
      rw [framesFrom_of_ok hrender, ← henvironment]
      obtain ⟨hlength, hdrawn⟩ := ih h
      exact ⟨congrArg (· + 1) hlength, List.forall_mem_cons.mpr ⟨rfl, hdrawn⟩⟩

end Frames

/-- What is left to be told after the frames, if there is no error: nothing. -/
theorem settled_renderAll {count number : Nat} {rendered drawn : Bool}
    (hr : Settled r.environment)
    (h : renderAll fuel target fps count number rendered r = some (.ok drawn, r')) :
    Settled r'.environment := by
  induction count generalizing number rendered r with
  | zero =>
    obtain ⟨-, rfl⟩ := Prod.mk.inj (Option.some.inj h)
    exact hr
  | succ count ih =>
    obtain ⟨⟨answer, r₁⟩, hframe, h⟩ := Option.bind_eq_some_iff.mp h
    cases answer with
    | error error => cases h
    | ok drawn => exact ih (settled_renderFrame hr hframe) h

end Run

end KeyLight.CommandLine
