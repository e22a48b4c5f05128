import KeyLight.Proofs.Environment.Resuming
import KeyLight.Proofs.Machine.Waiting
import KeyLight.Proofs.Scheduler.Waking

/-!
# Threads that wait

A turn of a thread ends in a state, and the host finds it after the call in which the thread had its
turn (`HasTick.mem_threadStates`, `HasTick.failedWith`). A call of the capability to wait ends the
turn and suspends the thread around it, wherever in the script it is made, or it raises a fault like
any other call that fails (`wait_suspends_or_raises`).
-/

namespace KeyLight

namespace Scheduler

variable {ρ : Type} {s : Scheduler ρ} {id : ThreadId}

theorem Sound.listed (h : s.Sound) : s.Listed where
  known := fun id hid => by
    obtain ⟨t, ht, -⟩ := h.known id hid
    exact ⟨pos_of_thread? ht, le_size_of_thread? ht⟩
  ordered := h.ordered

/-- A thread that stopped with a fault, and what there is to tell of it. -/
structure FailedWith (s : Scheduler ρ) (id : ThreadId) (message : String) : Prop where
  state : s.state? id = some .errored
  dropped : id ∉ s.live
  failures : s.failures.filter (fun f => f.thread = id) = [⟨id, message⟩]

/-- The failures of one thread among those of some visits to different ones. -/
theorem filter_failures {earlier later : List (Visit ρ)} {v : Visit ρ}
    (honce : ∀ u ∈ earlier ++ later, u.id ≠ v.id) :
    ((earlier ++ v :: later).filterMap Visit.failure?).filter (fun f => f.thread = v.id) =
      v.failure?.toList := by
  have hothers {visits : List (Visit ρ)} (h : ∀ u ∈ visits, u.id ≠ v.id) :
      (visits.filterMap Visit.failure?).filter (fun f => f.thread = v.id) = [] := by
    refine List.filter_eq_nil_iff.mpr fun f hf => ?_
    obtain ⟨u, hu, hfailure⟩ := List.mem_filterMap.mp hf
    rw [Visit.id_of_failure? hfailure, decide_eq_true_iff]
    exact h u hu
  obtain ⟨hearlier, hlater⟩ := List.forall_mem_append.mp honce
  rw [List.filterMap_append, List.filter_append, hothers hearlier, List.nil_append,
    List.filterMap_cons]
  cases hfailure : v.failure? with
  | none => exact hothers hlater
  | some f =>
    rw [List.filter_cons_of_pos (by simpa using Visit.id_of_failure? hfailure), hothers hlater]
    rfl

/-- A thread that is due has no failures yet. -/
theorem Due.filter_failures {now : Float} (h : s.Due now id) (hsound : s.Sound) :
    s.failures.filter (fun f => f.thread = id) = [] := by
  refine List.filter_eq_nil_iff.mpr fun f hf hthread => ?_
  obtain rfl : f.thread = id := of_decide_eq_true hthread
  obtain ⟨t, ht, -, hstate⟩ := h
  obtain ⟨t', ht', herrored⟩ := state?_eq_some.mp (hsound.failed f hf)
  obtain rfl : t = t' := Option.some.inj (ht.symm.trans ht')
  rw [herrored] at hstate
  obtain hready | ⟨_, hwaiting, -⟩ := hstate
  · cases hready
  · cases hwaiting

end Scheduler

namespace Environment

open Relation
open Machine (call waitFault)
open Scheduler (Ticked FailedWith)

variable {e e' e'' : Environment} {ms : List Moment} {fuel : Nat} {now : Float} {turns : List Turn}
  {last : List Moment} {t : Turn}

/-! ### Threads after their turns -/

namespace HasTick

variable (h : HasTick e ms e' fuel now turns last) (hidle : e.world.scheduler.Idle) (ht : t ∈ turns)
include h hidle ht

/-- The turn is a visit of the tick, and nobody collects the handle of its thread. -/
theorem exists_ticked :
    ∃ visits v ids answer s, v ∈ visits ∧ v.id = t.id ∧ v.outcome = t.outcome ∧
      Ticked now e.world.scheduler visits ids answer s ∧ s.isCollected t.id = false ∧
      ∃ more, s.Grows more e'.world.scheduler := by
  obtain ⟨visited, r, r', answer, s, rfl, htick, hgrows⟩ := h.exists_visits
  obtain ⟨visit, hvisit, rfl⟩ := List.mem_map.mp ht
  have hv : visit.2 ∈ visited.map Prod.snd := List.mem_map_of_mem hvisit
  obtain ⟨-, -, -, hnone, -⟩ | ⟨hpoison, hanswers, hpaid, -⟩ := Scheduler.visits_of_tick htick
  · rw [hnone] at hv
    exact absurd hv List.not_mem_nil
  obtain ⟨ids, hstarted⟩ :=
    Scheduler.exists_started (World.resumeThread_startsOnly fuel) hpaid
  have hticked := Scheduler.ticked hidle hpoison htick hstarted
  obtain ⟨t₀, ht₀, hcollected, -⟩ := hanswers.due hidle.toSound hv
  refine ⟨_, visit.2, ids, answer, s, hv, rfl, rfl, hticked, ?_, hgrows⟩
  refine hticked.held _ ((Scheduler.isCollected_of_thread? ht₀).trans hcollected) ?_
  rintro u hu hbefore
  obtain ⟨w, w', hresumed⟩ := hpaid u hu
  exact World.resumeThread_keepsHandles fuel _ _ _ _ _ _ _ hresumed _ hbefore

/-- The thread is in the state that it came back with, and it is live unless this is the end of
it. -/
theorem exists_thread :
    ∃ thread, e'.world.scheduler.thread? t.id = some thread ∧
      thread.state = t.outcome.state now ∧
      (t.id ∈ e'.world.scheduler.live ↔ (t.outcome.state now).isTerminal = false) ∧
      ((t.outcome.state now).isTerminal = false →
        ∀ rest, t.outcome.rest? = some rest → thread.routine = some rest) := by
  obtain ⟨visits, v, ids, answer, s, hv, hid, houtcome, hticked, hcollected, more, hgrows⟩ :=
    h.exists_ticked hidle ht
  obtain ⟨thread, hthread, hstate, hroutine⟩ := hticked.visited v hv
  rw [houtcome] at hstate hroutine
  rw [hid] at hthread hroutine
  obtain ⟨thread', hthread', hp⟩ := hgrows.thread?_old hthread
  have hdue := hticked.answers.due hidle.toSound hv
  rw [hid] at hdue
  have hlive : t.id ∈ s.live ↔ (t.outcome.state now).isTerminal = false := by
    rw [hticked.mem_live_iff, Scheduler.isDone_of_thread? hthread, hstate,
      ← Scheduler.isCollected_of_thread? hthread, hcollected, Bool.false_or]
    exact and_iff_right (.inl (hdue.mem_live hidle.toSound))
  refine ⟨thread', hthread', hp.state.trans hstate, ?_, fun hpending rest hrest => ?_⟩
  · -- the threads that the main script starts after the tick have other numbers
    rw [hgrows.live_eq, List.mem_append, hlive]
    refine or_iff_left fun hnew => ?_
    exact Nat.not_lt.mpr (Scheduler.le_size_of_thread? hthread) (hgrows.numbered.mem_iff.mp hnew).1
  · exact hp.routine.trans (hroutine (hlive.mpr hpending) rest hrest)

/-- A thread that is suspended waits. -/
theorem mem_threadStates {seconds : Float} {frames : List Frame} {kept : List Value}
    (houtcome : t.outcome = .suspended seconds (.suspended frames kept)) :
    (t.id, .waiting (now + seconds)) ∈ e'.threadStates ∧ e'.LeftAt t.id frames := by
  obtain ⟨thread, hthread, hstate, hlive, hroutine⟩ := h.exists_thread hidle ht
  rw [houtcome] at hstate hlive hroutine
  refine ⟨Scheduler.mem_states.mpr ⟨hlive.mpr rfl, ?_⟩, kept,
    Scheduler.le_size_of_thread? hthread, fun thread' rest hthread' hrest => ?_⟩
  · exact (Scheduler.state?_of_thread? hthread).trans (congrArg some hstate)
  · obtain rfl : thread = thread' := Option.some.inj (hthread.symm.trans hthread')
    exact (hroutine rfl _ rfl).symm.trans hrest

/-- A thread that fails has one failure. -/
theorem failedWith {message : String} (houtcome : t.outcome = .failed message) :
    e'.world.scheduler.FailedWith t.id message := by
  obtain ⟨thread, hthread, hstate, hlive, -⟩ := h.exists_thread hidle ht
  obtain ⟨visits, v, ids, answer, s, hv, hid, hsame, hticked, -, more, hgrows⟩ :=
    h.exists_ticked hidle ht
  rw [houtcome] at hstate hlive hsame
  refine ⟨(Scheduler.state?_of_thread? hthread).trans (congrArg some hstate),
    fun hmem => Bool.noConfusion (hlive.mp hmem), ?_⟩
  obtain ⟨earlier, later, rfl, honce⟩ := hticked.answers.exists_split hidle.toSound.listed hv
  have hdue := hticked.answers.due hidle.toSound hv
  -- the thread has no failure from before, and no other visit of the tick adds one to it
  rw [hgrows.failures_eq, hticked.failures_eq, List.filter_append, ← hid,
    hdue.filter_failures hidle.toSound, Scheduler.filter_failures honce, Visit.failure?, hsame]
  rfl

end HasTick

/-! ### Waiting -/

/-- A thread is suspended at a moment, under some frames. It waits for a time when the host is back,
and has no more moments until then. Whatever the host and other threads do first, the next moment of
the thread is that it goes on with these frames, and then every variable that was there has its
value, unless something was assigned to it in between. -/
structure SuspendsUntil (m : Moment) (id : ThreadId) (wakeAt : Float) (frames : List Frame)
    (rest : List Moment) (e : Environment) : Prop where
  waits : (id, .waiting wakeAt) ∈ e.threadStates
  ends : ∀ u ∈ rest, ¬u.IsOf id
  resumes : ∀ mid next later e', Chronicle e (mid ++ next :: later) e' → next.IsOf id →
    (∀ u ∈ mid, ¬u.IsOf id) → next.act = .step (.give .nil) frames ∧
      ∀ x, m.world.HasVariable x → (∀ u ∈ rest ++ mid, u.deed.touched ≠ some x) →
        next.world.valueOf x = m.world.valueOf x

section calls

variable {before rest : List Moment} {m : Moment} {args : List Value} {frames : List Frame}
  {id : ThreadId} {x : Float} {q : Rat} (h : e.Plays (before ++ m :: rest) e')
  (hwait : m.invocation? = some ⟨.builtin (.capability .wait), args, frames⟩)
include h hwait

/-- What has happened since a call that waits and until the next moment of its thread is told by the
moments in between. -/
theorem Plays.valueOf_eq {mid later : List Moment} {next : Moment}
    (hmore : Chronicle e' (mid ++ next :: later) e'') {x : Variable}
    (hx : m.world.HasVariable x) (hne : ∀ u ∈ rest ++ mid, u.deed.touched ≠ some x) :
    next.world.valueOf x = m.world.valueOf x := by
  have hsince := h.record.split.2.trans hmore.record.split.1
  have huntouched : m.deed.touched ≠ some x := by
    rw [Moment.deed_of_invocation hwait]
    nofun
  exact (hsince.kept (m.does.has x hx) hne).trans (m.does.kept x hx huntouched)

/-- On the main script a call that waits fails. -/
theorem Plays.wait_main (hhost : m.runner = .host) :
    m.after.scheduler = m.world.scheduler ∧ m.after.context = m.world.context ∧
      ∃ f, m.Raises ⟨.builtin (.capability .wait), args, frames⟩ f rest := by
  obtain ⟨halt, w, hrun⟩ := h.exists_main hhost hwait
  obtain ⟨runner, w₀, act⟩ := m
  obtain rfl : runner = .host := hhost
  obtain ⟨f, w', hcall, hscheduler, hcontext⟩ := Machine.call_wait_main w₀ args frames
  obtain ⟨rfl, hraises⟩ := Moment.raises_of_running [] hwait hcall hrun
  rw [List.append_nil] at hraises
  exact ⟨hscheduler, hcontext, f, hraises⟩

variable (hidle : e.world.scheduler.Idle) (hthread : m.runner = .thread id now)
include hidle hthread

/-- In a thread a call that waits for no number fails, and so does the thread if no frame guards. -/
theorem Plays.wait_of_not (hnot : ∀ x q, ¬HoldsNumber args[0]? x q) :
    m.after = m.world ∧
      m.Raises ⟨.builtin (.capability .wait), args, frames⟩ (waitFault args) rest ∧
      (Frame.guard ∉ frames → e'.world.scheduler.FailedWith id (waitFault args).report) := by
  obtain ⟨fuel, turns, last, t, htick, ht, rfl, halt, w, hback, outer, after, rfl, hrun, -⟩ :=
    h.exists_turn hidle.toSound.listed hthread hwait
  obtain ⟨runner, w₀, act⟩ := m
  obtain rfl : runner = .thread t.id now := hthread
  have hcall := Machine.call_wait_of_not .thread w₀ frames hnot
  obtain ⟨hafter, hraises⟩ := Moment.raises_of_running after hwait hcall hrun
  refine ⟨hafter, hraises, fun hframes => htick.failedWith hidle ht ?_⟩
  change Machine.Running _ (Machine.call .thread w₀ _ args frames) outer halt w at hrun
  rw [hcall] at hrun
  rw [hback.2, hrun.uncaught hframes]
  rfl

/-- In a thread a call that waits for a number suspends the thread. -/
theorem Plays.wait_of_holds (hx : HoldsNumber args[0]? x q) :
    SuspendsUntil m id (now + if 0.0 < x then x else 0.0) frames rest e' := by
  have hlisted := hidle.toSound.listed
  obtain ⟨fuel, turns, last, t, htick, ht, rfl, halt, w, hback, outer, after, rfl, hrun, hends⟩ :=
    h.exists_turn hlisted hthread hwait
  obtain ⟨vs, w', hcall, houtcome⟩ := Machine.call_wait_thread m.world frames hx
  -- the run ends with the call, so the turn comes back with the request that it makes
  rw [hcall] at hrun
  cases hrun
  obtain ⟨hwaits, hleft⟩ := htick.mem_threadStates hidle ht (hback.2.trans houtcome)
  obtain ⟨thread, hfound, -⟩ := htick.exists_thread hidle ht
  have hpos : 0 < t.id := Scheduler.pos_of_thread? hfound
  refine ⟨hwaits, hends, fun mid next later e'' hmore hnext hmid => ⟨?_, fun v hv hne => ?_⟩⟩
  · exact hmore.act_of_leftAt (h.listed hlisted) hpos hleft hnext hmid
  · exact h.valueOf_eq hwait hmore hv hne

end calls

/-- **Waiting suspends a thread for a finite time or raises a fault in place.** The capability to
wait is called at a moment of what the host does, anywhere in a script. In a thread the call raises
its fault just if the first argument holds no finite number. Then the thread goes on in the same
turn if a frame guards, and otherwise this is the end of it, with one failure. If the argument holds
a number, the turn ends with the call, and the thread waits for as many seconds from the time of the
tick on, or for none if the number is negative. On the main script the call fails whatever the
arguments are, and nothing happens to the scheduler or the clock. -/
theorem wait_suspends_or_raises {host : Host} {config : Config} {before rest : List Moment}
    {m : Moment} {args : List Value} {frames : List Frame}
    (hreachable : ReflTransGen Call (start host config) e)
    (h : e.Plays (before ++ m :: rest) e')
    (hwait : m.invocation? = some ⟨.builtin (.capability .wait), args, frames⟩) :
    (∀ w args frames, call .thread w (.builtin (.capability .wait)) args frames =
        .running w (.raise (waitFault args)) frames ↔ ∀ x q, ¬HoldsNumber args[0]? x q) ∧
    (m.runner = .host → m.after.scheduler = m.world.scheduler ∧
      m.after.context = m.world.context ∧
      ∃ f, m.Raises ⟨.builtin (.capability .wait), args, frames⟩ f rest) ∧
    ∀ id now, m.runner = .thread id now →
      ((∀ x q, ¬HoldsNumber args[0]? x q) →
        m.after = m.world ∧
        m.Raises ⟨.builtin (.capability .wait), args, frames⟩ (waitFault args) rest ∧
        (Frame.guard ∉ frames →
          e'.world.scheduler.FailedWith id (waitFault args).report)) ∧
      ∀ x q, HoldsNumber args[0]? x q →
        ∃ seconds, Binary64.toRat? seconds = some (max q 0) ∧
          SuspendsUntil m id (now + seconds) frames rest e' := by
  have hidle : e.world.scheduler.Idle := (reachable_scheduler hreachable).idle
  refine ⟨fun w args frames => Machine.call_wait_thread_iff w frames, h.wait_main hwait,
    fun id now hthread => ⟨h.wait_of_not hwait hidle hthread, fun x q hx => ?_⟩⟩
  exact ⟨_, Binary64.toRat?_seconds hx.finite, h.wait_of_holds hwait hidle hthread hx⟩

/-- Whether a frame guards. -/
def guards : Frame → Bool
  | .guard => true
  | .operands .. | .block .. | .loop .. | .count .. | .call .. => false

/-- A script that starts a thread, which waits for half a second in a function and guards the
call. -/
def waitingScript : List Stmt :=
  let waiter : Expr := .function []
    [.discard (.guarded (.call (.name "wait") [.text (Utf8.encode "0.5")]))]
  [.discard (.call (.name "thread") [.function [] [.discard (.call waiter [])]])]

/-- The thread waits in the first tick, in spite of the guard, and goes on in the second one. -/
theorem wait_suspends_or_raises_waiting :
    ∃ m frames rest e seconds next later e', Frame.guard ∈ frames ∧
      Binary64.toRat? seconds = some (max (1 / 2) 0) ∧
      SuspendsUntil m 1 (1.0 + seconds) frames rest e ∧ Chronicle e (next :: later) e' ∧
      next.IsOf 1 ∧ next.act = .step (.give .nil) frames := by
  have hrun : (((start .empty {}).load 20 waitingScript).bind fun loaded =>
      (loaded.2.tick 20 1.0).bind fun ticked => (ticked.2.tick 20 2.0).map fun _ =>
        ((loaded.2.tickMoments 20 1.0).any fun m =>
          m.runner = .thread 1 1.0 && m.invocation?.any fun c =>
            c.callee = .builtin (.capability .wait) && c.args = [.text (Utf8.encode "0.5")] &&
              c.frames.any guards,
        (ticked.2.tickMoments 20 2.0).head?.map Moment.runner)) =
      some (true, some (.thread 1 2.0)) := by
    decide +kernel
  obtain ⟨⟨_, e⟩, hload, hrest⟩ := Option.bind_eq_some_iff.mp hrun
  obtain ⟨⟨_, e'⟩, htick, hrest⟩ := Option.bind_eq_some_iff.mp hrest
  obtain ⟨⟨_, e''⟩, htick', hmoments⟩ := Option.map_eq_some_iff.mp hrest
  obtain ⟨hany, hhead⟩ := Prod.mk.inj hmoments
  -- the moment at which the thread waits
  obtain ⟨m, hm, hmoment⟩ := List.any_eq_true.mp hany
  obtain ⟨hthread, hcall⟩ := Bool.and_eq_true_iff.mp hmoment
  obtain ⟨⟨callee, args, frames⟩, hwait, hcall⟩ := (Option.any_eq_true _ _).mp hcall
  obtain ⟨⟨rfl, rfl⟩, hguard⟩ : (callee = .builtin (.capability .wait) ∧
      args = [.text (Utf8.encode "0.5")]) ∧ frames.any guards := by simpa using hcall
  obtain ⟨frame, hframe, hguard⟩ := List.any_eq_true.mp hguard
  obtain rfl : frame = .guard := by cases frame <;> first | rfl | cases hguard
  obtain ⟨before, rest, hms⟩ := List.append_of_mem hm
  have hplays := hms ▸ Plays.tick htick
  have hhalf : HoldsNumber (some (.text (Utf8.encode "0.5"))) 0.5 (1 / 2) :=
    ⟨by decide +kernel, by decide +kernel⟩
  obtain ⟨-, -, hthreads⟩ := wait_suspends_or_raises (.single (.load hload)) hplays hwait
  obtain ⟨seconds, hseconds, hsuspends⟩ := (hthreads 1 1.0 (of_decide_eq_true hthread)).2 _ _ hhalf
  -- the moment at which it goes on
  obtain ⟨next, hnext, hrunner⟩ := Option.map_eq_some_iff.mp hhead
  obtain ⟨later, hms'⟩ := List.head?_eq_some_iff.mp hnext
  have hmore : Chronicle e' (next :: later) e'' := by
    have hchronicle := Chronicle.cons (.tick htick') (.nil e'')
    rwa [List.append_nil, hms'] at hchronicle
  have hof : next.IsOf 1 := ⟨2.0, hrunner⟩
  obtain ⟨hact, -⟩ := hsuspends.resumes [] next later e'' hmore hof
    fun _ hu => absurd hu List.not_mem_nil
  exact ⟨m, frames, rest, e', seconds, next, later, e'', hframe, hseconds, hsuspends, hmore, hof,
    hact⟩

end Environment

end KeyLight
