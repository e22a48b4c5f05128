import Mathlib.Data.List.Flatten
import KeyLight.Proofs.CommandLine.Frames

/-!
# What a run tells of failures

Threads run in frames only, so what a run tells of failures is what its frames tell
(`Run.transcript_cases`). The scheduler records every failure once, and the program reports those of
the frames that are drawn (`run_tells_failures`).

If a frame ends with an error, the run ends before the failures of the frame are taken. They are
recorded then, but not reported (`not_forall_failures_reported`).
-/

namespace KeyLight.CommandLine

namespace Run

variable {r r₁ r' : Run} {fuel target : Nat} {e : Environment}

/-! ### Before and after the frames -/

/-- Nothing fails from one point of a run to a later one, and nothing is left to be told then. -/
structure Quiet (r r' : Run) : Prop where
  tells : r.Tells [] r'
  settled : Settled r'.environment

theorem Quiet.trans (h : r.Quiet r₁) (h' : r₁.Quiet r') : r.Quiet r' :=
  ⟨h.tells.append h'.tells, h'.settled⟩

theorem quiet_tellAll (hr : Settled r.environment) {events : List Event}
    (hrecord : events.filter Event.isRecord = []) (hreport : events.filter Event.isReport = []) :
    r.Quiet (r.tellAll events) where
  tells := .of_tellAll hrecord hreport
  settled := by rwa [environment_tellAll]

theorem quiet_tell (hr : Settled r.environment) {event : Event} (hrecord : event.isRecord = false)
    (hreport : event.isReport = false) : r.Quiet (r.tell event) where
  tells := .of_tell hrecord hreport
  settled := hr

/-- A call is quiet that notes no failures and does nothing to the scheduler but to start threads.
-/
theorem quiet_goOn (hr : Settled r.environment)
    (hnoted : e.world.noted = r.environment.world.noted)
    (hgrows : ∃ ids, r.environment.world.scheduler.Grows ids e.world.scheduler) :
    r.Quiet (r.goOn e) := by
  obtain ⟨ids, hgrows⟩ := hgrows
  obtain ⟨events, hrun, -, hquiet⟩ := hgrows.run
  have hunvisited : events.flatMap Scheduler.Event.visits = [] :=
    List.flatMap_eq_nil_iff.mpr fun event hevent => (hquiet event hevent).1
  exact ⟨.of_goOn (hnoted.trans hr.noted) ⟨events, hrun, hunvisited⟩, rfl,
    hgrows.failures_eq.trans hr.taken, hr.idle.grows hgrows⟩

theorem quiet_attach (hr : Settled r.environment) (id : Nat) :
    r.Quiet (r.goOn (r.environment.attach id)) := by
  have hsame : (r.environment.attach id).world.scheduler = r.environment.world.scheduler :=
    Environment.scheduler_publish
      (r.environment.withContext { r.environment.world.context with controller := some id })
  exact quiet_goOn hr (Environment.noted_attach r.environment id) ⟨[], hsame ▸ .refl⟩

theorem quiet_setBoard (hr : Settled r.environment) (id : Nat) :
    r.Quiet (r.goOn (r.environment.setBoard id)) := by
  have hsame : (r.environment.setBoard id).world.scheduler = r.environment.world.scheduler :=
    Environment.scheduler_publish { r.environment with board := some id }
  exact quiet_goOn hr (Environment.noted_setBoard r.environment id) ⟨[], hsame ▸ .refl⟩

/-- Palette entries that are passed over are no failures. -/
theorem quiet_ignored (hr : Settled r.environment) (entries : List (String × String)) :
    r.Quiet (r.tellAll (entries.map Event.ofIgnored)) := by
  refine quiet_tellAll hr (List.filter_eq_nil_iff.mpr fun event hevent => ?_)
    (List.filter_eq_nil_iff.mpr fun event hevent => ?_) <;>
  · obtain ⟨entry, -, rfl⟩ := List.mem_map.mp hevent
    exact Bool.false_ne_true

theorem quiet_heading (hr : Settled r.environment) (o : Options) (board : Option Keyboard) :
    r.Quiet (r.tellAll (heading o board)) := by
  cases board with
  | none => exact quiet_tellAll hr rfl rfl
  | some k => exact quiet_tellAll hr rfl rfl

theorem settled_start (host : Host) (config : Config) : Settled (.start host config) :=
  ⟨rfl, rfl, Scheduler.idle_empty⟩

/-- Setting the stage is quiet, on whatever host that comes to. -/
theorem quiet_stage (o : Options) (config : Config) (board : Option Keyboard)
    (events : List Event) :
    ∃ host, Quiet ⟨.start host config, events.toArray⟩ (stage o config board events).2 := by
  -- with a board or without one, the first two things are the same
  have hattached (host : Host) (id : Nat) :
      let r₀ : Run := ⟨.start host config, events.toArray⟩
      let r := r₀.tellAll ((Palette.ignored config.palette).map Event.ofIgnored)
      r₀.Quiet (r.goOn (r.environment.attach id)) := by
    have hignored := quiet_ignored (r := ⟨.start host config, events.toArray⟩)
      (settled_start host config) (Palette.ignored config.palette)
    exact hignored.trans (quiet_attach hignored.settled id)
  cases board with
  | none => exact ⟨_, hattached _ _⟩
  | some k => exact ⟨_, (hattached _ _).trans (quiet_setBoard (hattached _ _).settled _)⟩

/-- So is launching the script, whatever that comes to. -/
theorem quiet_launch {script : Option (List Stmt)} {result : Except HostError Unit}
    (hr : Settled r.environment) (h : launch fuel script r = some (result, r')) : r.Quiet r' := by
  cases script with
  | none =>
    obtain ⟨-, rfl⟩ := Prod.mk.inj (Option.some.inj h)
    exact ⟨.refl, hr⟩
  | some statements =>
    obtain ⟨⟨loaded, e⟩, hload, h⟩ := Option.bind_eq_some_iff.mp h
    have hfirst : r.Quiet (r.goOn e) :=
      quiet_goOn hr (Environment.noted_load hload) (Environment.grows_load hload)
    cases loaded with
    | error error =>
      obtain ⟨-, rfl⟩ := Prod.mk.inj (Option.some.inj h)
      exact hfirst
    | ok =>
      obtain ⟨⟨called, e'⟩, hinvoke, h⟩ := Option.bind_eq_some_iff.mp h
      have hthen : (r.goOn e).Quiet ((r.goOn e).goOn e') :=
        quiet_goOn hfirst.settled (Environment.noted_invoke hinvoke)
          (Environment.grows_invoke hinvoke)
      cases called with
      | error | ok =>
        obtain ⟨-, rfl⟩ := Prod.mk.inj (Option.some.inj h)
        exact hfirst.trans hthen

/-- Detaching the controller tells of no failures. -/
theorem tells_detach (hr : Settled r.environment) :
    r.Tells [] (r.goOn r.environment.detach.2) :=
  .of_goOn ((Environment.noted_detach r.environment).trans hr.noted)
    ⟨_, .single .cancel, List.flatMap_singleton ..⟩

/-! ### The whole run -/

/-- The frames of a run. -/
def frames (fuel : Nat) (files : String → Option Document) (o : Options) : List Frame :=
  match opening fuel files o with
  | some (.ok (target, r)) =>
    framesFrom fuel target (max o.fps 1) (frameCount o (max o.fps 1) + 1) 0 r.environment
  | _ => []

/-- Since the beginning there have been some frames, and what has been told of failures is theirs.
-/
def Began (r : Run) (frames : List Frame) : Prop :=
  ∃ host config, Tells ⟨.start host config, #[]⟩ frames r

theorem Began.tells {earlier later : List Frame} (h : r.Began earlier) (h' : r.Tells later r') :
    r'.Began (earlier ++ later) := by
  obtain ⟨host, config, hearlier⟩ := h
  exact ⟨host, config, hearlier.append h'⟩

theorem Began.afterwards {earlier : List Frame} (h : r.Began earlier) (h' : r.Tells [] r') :
    r'.Began earlier := List.append_nil earlier ▸ h.tells h'

/-- The run has ended with an error after some frames. -/
def Broken (t : Transcript) (frames : List Frame) : Prop :=
  ∃ (r : Run) (error : String), t = r.fail error ∧ r.Began frames

/-- The run has come to its end after some frames. -/
def Completed (t : Transcript) (frames : List Frame) : Prop :=
  ∃ r : Run, t = r.finish ∧ r.Began frames

theorem began_heading (host : Host) (config : Config) (o : Options) (board : Option Keyboard) :
    Began ⟨.start host config, (heading o board).toArray⟩ [] := by
  have hquiet := quiet_heading (r := ⟨.start host config, #[]⟩) (settled_start host config) o board
  have hfirst : tellAll ⟨.start host config, #[]⟩ (heading o board) =
      ⟨.start host config, (heading o board).toArray⟩ := by
    rw [tellAll_eq]
    simp
  exact ⟨host, config, hfirst ▸ hquiet.tells⟩

/-- **Before the frames there are no failures.** -/
theorem opening_cases {files : String → Option Document} {o : Options}
    {x : Except Transcript (Nat × Run)} (h : opening fuel files o = some x) :
    (∃ t, x = .error t ∧ Broken t []) ∨
      ∃ target r, x = .ok (target, r) ∧ r.Began [] ∧ Settled r.environment := by
  -- nothing is told if the configuration or the layout cannot be read
  have hnothing (error : String) : Broken ⟨[], some error⟩ [] :=
    ⟨⟨.start .empty {}, #[]⟩, error, rfl, .empty, {}, .refl⟩
  cases hconfig : readConfig files o with
  | error error =>
    simp only [opening, hconfig] at h
    obtain rfl := Option.some.inj h
    exact .inl ⟨_, rfl, hnothing _⟩
  | ok config =>
    cases hlayout : readLayout files o with
    | error error =>
      simp only [opening, hconfig, hlayout] at h
      obtain rfl := Option.some.inj h
      exact .inl ⟨_, rfl, hnothing _⟩
    | ok board =>
      cases hscript : files o.script with
      | none =>
        simp only [opening, hconfig, hlayout, hscript] at h
        obtain rfl := Option.some.inj h
        exact .inl ⟨_, rfl, _, _, rfl, began_heading .empty {} o board⟩
      | some document =>
        simp only [opening, hconfig, hlayout, hscript] at h
        obtain ⟨⟨result, r⟩, hlaunch, rfl⟩ := Option.map_eq_some_iff.mp h
        obtain ⟨host, hstage⟩ := quiet_stage o config board (heading o board)
        have hquiet := hstage.trans (quiet_launch hstage.settled hlaunch)
        have hbegan : r.Began [] := (began_heading host config o board).tells hquiet.tells
        cases result with
        | error error => exact .inl ⟨_, rfl, r, error.report, rfl, hbegan⟩
        | ok => exact .inr ⟨_, r, rfl, hbegan, hquiet.settled⟩

/-- What comes after the frames tells of no failures. -/
theorem completed_of_settled {earlier : List Frame} (hbegan : r.Began earlier)
    (hr : Settled r.environment) (target : Nat) :
    let r' := r.tell (r.completeEvent target)
    Completed (r'.goOn r'.environment.detach.2).finish earlier := by
  have hquiet : r.Quiet (r.tell (r.completeEvent target)) := quiet_tell hr rfl rfl
  exact ⟨_, rfl, (hbegan.afterwards hquiet.tells).afterwards (tells_detach hquiet.settled)⟩

/-- **What drawing tells.** -/
theorem draw_cases {o : Options} {t : Transcript} {frames : List Frame} (hbegan : r.Began [])
    (hr : Settled r.environment) (h : draw fuel o target r = some t)
    (hframes : framesFrom fuel target (max o.fps 1) (frameCount o (max o.fps 1) + 1) 0
      r.environment = frames) :
    Broken t frames ∨ Completed t frames ∧ frames.length = frameCount o (max o.fps 1) + 1 ∧
      ∀ f ∈ frames, f.isDrawn = true := by
  obtain ⟨⟨result, r₁⟩, hall, h⟩ := Option.bind_eq_some_iff.mp h
  let r₀ := r.tell (renderingEvent (frameCount o (max o.fps 1)) (max o.fps 1))
  have hr₀ : Settled r₀.environment := hr
  have htells : r₀.Tells frames r₁ := hframes ▸ tells_renderAll hr₀ hall
  have hbegan₁ : r₁.Began frames := (hbegan.tells (.of_tell rfl rfl)).tells htells
  cases result with
  | error error =>
    obtain rfl := Option.some.inj h
    exact .inl ⟨r₁, error.report, rfl, hbegan₁⟩
  | ok rendered =>
    obtain rfl := Option.some.inj h
    have hr₁ : Settled r₁.environment := settled_renderAll hr₀ hall
    have hdrawn := isDrawn_of_renderAll hall
    refine .inr ⟨?_, hframes ▸ hdrawn⟩
    cases rendered with
    | true => exact completed_of_settled hbegan₁ hr₁ target
    | false =>
      -- there is a warning in between, which is of no failure
      have hquiet : r₁.Quiet (r₁.tell (.program .warn
          "Script has no render function; the target was never written" [])) :=
        quiet_tell hr₁ rfl rfl
      exact completed_of_settled (hbegan₁.afterwards hquiet.tells) hquiet.settled target

/-- **What a run tells** of failures is that of its frames. -/
theorem transcript_cases {files : String → Option Document} {o : Options} {t : Transcript}
    (h : transcript fuel files o = some t) :
    Broken t (frames fuel files o) ∨ Completed t (frames fuel files o) ∧
      (frames fuel files o).length = frameCount o (max o.fps 1) + 1 ∧
      ∀ f ∈ frames fuel files o, f.isDrawn = true := by
  obtain ⟨x, hopening, h⟩ := Option.bind_eq_some_iff.mp h
  obtain ⟨t', rfl, hbroken⟩ | ⟨target, r, rfl, hbegan, hr⟩ := opening_cases hopening
  · obtain rfl := Option.some.inj h
    rw [frames, hopening]
    exact .inl hbroken
  · rw [frames, hopening]
    exact draw_cases hbegan hr h rfl

end Run

/-! ### The log -/

variable {fuel : Nat} {files : String → Option Document} {o : Options} {t : Transcript}
  {frames : List Frame}

/-- What is told of failures, seen from the end of a run. -/
structure Told (events : List Event) (frames : List Frame) : Prop where
  records : events.filter Event.isRecord = (frames.flatMap Frame.failures).map Event.ofFailure
  reports : events.filter Event.isReport = (frames.filter Frame.isDrawn).flatMap Frame.reports
  nodup : ((frames.flatMap Frame.failures).map Failure.thread).Nodup

theorem Run.Began.told {r : Run} (h : r.Began frames) : Told r.events.toList frames := by
  obtain ⟨host, config, htells⟩ := h
  refine ⟨htells.records, htells.reports, ?_⟩
  obtain ⟨events, hrun, hvisits⟩ := htells.run
  have hnodup := (hrun.lasts Scheduler.idle_empty).nodup_failures
  rwa [hvisits, List.filterMap_flatMap] at hnodup

/-- The level of warnings is told unless only errors are. -/
theorem Event.isToldAt_of_warn {level : Level} {e : Event} (hlevel : level ≠ .error)
    (h : e.level = .warn) : e.isToldAt level = true := by
  rw [isToldAt, h]
  cases level with
  | error => exact absurd rfl hlevel
  | warn | info | debug | trace => rfl

theorem filter_filter_isToldAt {level : Level} {p : Event → Bool} (hlevel : level ≠ .error)
    (hwarn : ∀ e, p e = true → e.level = .warn) (events : List Event) :
    (events.filter (Event.isToldAt level)).filter p = events.filter p := by
  rw [List.filter_filter]
  refine List.filter_congr fun e _ => ?_
  cases hp : p e with
  | false => rfl
  | true => exact Event.isToldAt_of_warn hlevel (hwarn e hp)

theorem flatMap_filter_eq_iff {α β : Type} (l : List α) (p : α → Bool) (g : α → List β) :
    (l.filter p).flatMap g = l.flatMap g ↔ ∀ a ∈ l, p a = false → g a = [] := by
  induction l with
  | nil => simp
  | cons a l ih =>
    rw [List.forall_mem_cons, List.flatMap_cons, List.filter_cons]
    cases hp : p a with
    | true =>
      rw [if_pos rfl, List.flatMap_cons, List.append_cancel_left_eq, ih]
      simp
    | false =>
      rw [if_neg Bool.false_ne_true]
      have hle : ((l.filter p).flatMap g).length ≤ (l.flatMap g).length :=
        (List.filter_sublist.flatMap g).length_le
      constructor
      · intro heq
        -- what is left of the rest is no longer than the rest, so there is no room for anything
        have hlength := congrArg List.length heq
        rw [List.length_append] at hlength
        have hnone : g a = [] := List.eq_nil_of_length_eq_zero (by omega)
        rw [hnone, List.nil_append] at heq
        exact ⟨fun _ => hnone, ih.mp heq⟩
      · rintro ⟨hnone, hrest⟩
        rw [hnone rfl, List.nil_append]
        exact ih.mpr hrest

theorem Frame.reports_eq_nil_iff {f : Frame} : f.reports = [] ↔ f.failures = [] :=
  List.map_eq_nil_iff

/-- The frames of a run are numbered from zero on, and each one that another one follows is drawn.
-/
theorem Run.numbers_frames (fuel : Nat) (files : String → Option Document) (o : Options) :
    (Run.frames fuel files o).map Frame.number = List.range (Run.frames fuel files o).length ∧
      (Run.frames fuel files o).Pairwise fun f _ => f.isDrawn = true := by
  rw [List.range_eq_range']
  unfold Run.frames
  split
  · exact ⟨Run.numbers_framesFrom .., Run.pairwise_framesFrom ..⟩
  · exact ⟨rfl, .nil⟩

/-- **Failures are recorded once, and reported once unless their frame ends with an error.** The log
of a run, if it tells warnings, has a record for each failure of a thread, in their order. It also
has a report for each failure of the frames that are drawn, with the number of the frame, and no
other reports. No thread has two failures.

Frames are numbered from zero on. Each frame that another one follows is drawn, and all are if the
run completes. So there is a report for each failure as long as no thread fails in a frame that ends
with an error, and not otherwise. -/
theorem run_tells_failures (h : run fuel files o = some t) (hlevel : o.level ≠ .error)
    (hframes : Run.frames fuel files o = frames) :
    t.events.filter Event.isRecord = (frames.flatMap Frame.failures).map Event.ofFailure ∧
    t.events.filter Event.isReport = (frames.filter Frame.isDrawn).flatMap Frame.reports ∧
    ((frames.flatMap Frame.failures).map Failure.thread).Nodup ∧
    frames.map Frame.number = List.range frames.length ∧
    (frames.Pairwise fun f _ => f.isDrawn = true) ∧
    (t.error = none → frames.length = Run.frameCount o (max o.fps 1) + 1 ∧
      ∀ f ∈ frames, f.isDrawn = true) ∧
    (t.events.filter Event.isReport = frames.flatMap Frame.reports ↔
      ∀ f ∈ frames, f.isDrawn = false → f.failures = []) := by
  obtain ⟨whole, htranscript, rfl⟩ := Option.map_eq_some_iff.mp h
  have hcases := Run.transcript_cases htranscript
  obtain ⟨hnumbers, hpairwise⟩ := Run.numbers_frames fuel files o
  rw [hframes] at hcases hnumbers hpairwise
  have htold : Told whole.events frames := by
    obtain ⟨r, error, rfl, hbegan⟩ | ⟨⟨r, rfl, hbegan⟩, -⟩ := hcases
    · exact hbegan.told
    · exact hbegan.told
  -- the level leaves out events, but no warnings
  have hrecords := filter_filter_isToldAt hlevel Event.level_of_isRecord whole.events
  have hreports := filter_filter_isToldAt hlevel Event.level_of_isReport whole.events
  rw [hrecords, hreports]
  refine ⟨htold.records, htold.reports, htold.nodup, hnumbers, hpairwise, fun hnone => ?_, ?_⟩
  · obtain ⟨r, error, rfl, -⟩ | ⟨-, hall⟩ := hcases
    · cases hnone
    · exact hall
  · rw [htold.reports, flatMap_filter_eq_iff]
    simp only [Frame.reports_eq_nil_iff]

/-- A call that starts a thread, which raises a text. -/
def failingThread (text : String) : Expr :=
  .call (.name "thread") [.function [] [.raise (.text (Utf8.encode text))]]

/-- A script that starts a thread, and another one when it draws for the first time. When it draws
again it raises a text. -/
def crashingScript : List Stmt :=
  [.assign "first" (failingThread "one"),
    .assign "render" (.function []
      [.assign "second" (failingThread "two"),
        .assign "render" (.function [] [.raise (.text (Utf8.encode "broken"))])])]

def crashingFiles (path : String) : Option Document :=
  if path = "e.lua" then some ⟨"", some crashingScript⟩ else none

/-- Two frames, one second apart. -/
def crashingOptions : Options := ⟨"e.lua", none, none, 1, 1, 1.0, .info, .json⟩

theorem exists_crashing : ∃ t, run 30 crashingFiles crashingOptions = some t :=
  Option.isSome_iff_exists.mp (by decide +kernel)

/-- Both failures are recorded, and the one of the first frame is reported. -/
theorem run_tells_failures_crashing :
    ∃ t, run 30 crashingFiles crashingOptions = some t ∧
      (t.events.filter Event.isRecord).map Event.message =
        ["thread #1 failed: runtime error: one", "thread #2 failed: runtime error: two"] ∧
      (t.events.filter Event.isReport).map Event.message =
        ["thread #1 failed: runtime error: one"] := by
  obtain ⟨t, ht⟩ := exists_crashing
  obtain ⟨hrecords, hreports, -⟩ := run_tells_failures ht (by decide) rfl
  refine ⟨t, ht, ?_, ?_⟩
  · rw [hrecords]
    decide +kernel
  · rw [hreports]
    decide +kernel

/-- **It is not so that every failure is reported once**, as those of a frame that ends with an
error are not reported. Nor is it so if records count as reports, as those of a frame that is drawn
are then reported twice. -/
theorem not_forall_failures_reported :
    (¬∀ (fuel : Nat) (files : String → Option Document) (o : Options) (t : Transcript),
      run fuel files o = some t → o.level ≠ .error →
        (t.events.filter Event.isReport).map Event.message =
          ((Run.frames fuel files o).flatMap Frame.failures).map Failure.line) ∧
    ¬∀ (fuel : Nat) (files : String → Option Document) (o : Options) (t : Transcript),
      run fuel files o = some t → o.level ≠ .error →
        (t.events.filter fun e => e.isRecord || e.isReport).map Event.message =
          ((Run.frames fuel files o).flatMap Frame.failures).map Failure.line := by
  obtain ⟨t, ht⟩ := exists_crashing
  have hfailed : ((Run.frames 30 crashingFiles crashingOptions).flatMap Frame.failures).length =
      2 := by decide +kernel
  have htold : (run 30 crashingFiles crashingOptions).map (fun t =>
      ((t.events.filter Event.isReport).length,
        (t.events.filter fun e => e.isRecord || e.isReport).length)) = some (1, 3) := by
    decide +kernel
  rw [ht, Option.map_some] at htold
  obtain ⟨hreported, hboth⟩ := Prod.mk.inj (Option.some.inj htold)
  constructor
  · intro hall
    have hlength := congrArg List.length (hall 30 crashingFiles crashingOptions t ht (by decide))
    rw [List.length_map, List.length_map, hreported, hfailed] at hlength
    cases hlength
  · intro hall
    have hlength := congrArg List.length (hall 30 crashingFiles crashingOptions t ht (by decide))
    rw [List.length_map, List.length_map, hboth, hfailed] at hlength
    cases hlength

end KeyLight.CommandLine
