import KeyLight.Proofs.Environment.Chronicle
import KeyLight.Proofs.Scheduler.Succession

/-!
# The moments at which threads run

A call of the host has moments of threads only if it has a tick. Then the moments are those of the
turns of this tick, and those of a main script may follow (`Plays.cases`). A thread at whose moment
a function is called goes on from there to the end of its turn (`Plays.exists_turn`), and a thread
that is left suspended goes on from where it was, whatever moments of other threads and of main
scripts come first (`Chronicle.act_of_leftAt`).
-/

namespace KeyLight

/-- The moment belongs to the thread. -/
def Moment.IsOf (m : Moment) (id : ThreadId) : Prop := ∃ now, m.runner = .thread id now

theorem Moment.not_isOf_host {m : Moment} (h : m.runner = .host) (id : ThreadId) :
    ¬m.IsOf id := by
  rintro ⟨now, hm⟩
  rw [h] at hm
  cases hm

theorem Moment.isOf_iff {m : Moment} {id other : ThreadId} {now : Float}
    (h : m.runner = .thread other now) : m.IsOf id ↔ other = id := by
  constructor
  · rintro ⟨now', hm⟩
    exact (Runner.thread.inj (h.symm.trans hm)).1
  · rintro rfl
    exact ⟨now, h⟩

/-! ### Lists with a first element of a kind -/

namespace List

variable {α β : Type} {p : α → Prop} {before before' rest rest' : List α} {a a' : α}

/-- The first element of a kind is the same however it is found. -/
theorem split_unique (h : before ++ a :: rest = before' ++ a' :: rest') (ha : p a) (ha' : p a')
    (hbefore : ∀ x ∈ before, ¬p x) (hbefore' : ∀ x ∈ before', ¬p x) :
    before = before' ∧ a = a' ∧ rest = rest' := by
  -- if one beginning were shorter, the other one would go on with an element of the kind
  induction before generalizing before' with
  | nil =>
    cases before' with
    | nil => exact ⟨rfl, List.cons.inj h⟩
    | cons x before' =>
      obtain ⟨rfl, -⟩ := List.cons.inj h
      exact absurd ha (hbefore' a List.mem_cons_self)
  | cons x before ih =>
    cases before' with
    | nil =>
      obtain ⟨rfl, -⟩ := List.cons.inj h
      exact absurd ha' (hbefore x List.mem_cons_self)
    | cons y before' =>
      obtain ⟨rfl, htail⟩ := List.cons.inj h
      obtain ⟨rfl, hsame⟩ := ih htail (List.forall_mem_cons.mp hbefore).2
        (List.forall_mem_cons.mp hbefore').2
      exact ⟨rfl, hsame⟩

/-- An element of a kind that a list does not have comes after it. -/
theorem exists_eq_append {l later : List α} (h : l ++ later = before ++ a :: rest) (ha : p a)
    (hl : ∀ x ∈ l, ¬p x) : ∃ middle, before = l ++ middle ∧ later = middle ++ a :: rest := by
  induction l generalizing before with
  | nil => exact ⟨before, rfl, h⟩
  | cons x l ih =>
    obtain ⟨hx, hl⟩ := List.forall_mem_cons.mp hl
    cases before with
    | nil =>
      obtain ⟨rfl, -⟩ := List.cons.inj h
      exact absurd ha hx
    | cons y before =>
      obtain ⟨rfl, htail⟩ := List.cons.inj h
      obtain ⟨middle, rfl, hlater⟩ := ih htail hl
      exact ⟨middle, rfl, hlater⟩

/-- An element of a kind that the end does not have stems from one of the sources. -/
theorem exists_source {f : β → List α} {sources : List β} {last : List α}
    (h : sources.flatMap f ++ last = before ++ a :: rest) (ha : p a) (hlast : ∀ x ∈ last, ¬p x) :
    ∃ earlier b later inner outer, sources = earlier ++ b :: later ∧ f b = inner ++ a :: outer ∧
      before = earlier.flatMap f ++ inner ∧ rest = outer ++ later.flatMap f ++ last := by
  induction sources generalizing before with
  | nil =>
    have hmem : a ∈ before ++ a :: rest := List.mem_append_right before List.mem_cons_self
    rw [← h] at hmem
    exact absurd ha (hlast a hmem)
  | cons b sources ih =>
    rw [List.flatMap_cons, List.append_assoc] at h
    -- the element comes after the first source, at its end, or in the middle of it
    obtain ⟨middle, hb, hmore⟩ | ⟨middle, hb, hmore⟩ := List.append_eq_append_iff.mp h
    · obtain ⟨earlier, b', later, inner, outer, rfl, hinner, rfl, rfl⟩ := ih hmore
      exact ⟨b :: earlier, b', later, inner, outer, rfl, hinner, by
        rw [hb, List.flatMap_cons, List.append_assoc], rfl⟩
    · cases middle with
      | nil =>
        have hlater : sources.flatMap f ++ last = [] ++ a :: rest := hmore.symm
        obtain ⟨earlier, b', later, inner, outer, rfl, hinner, hnil, rfl⟩ := ih hlater
        refine ⟨b :: earlier, b', later, inner, outer, rfl, hinner, ?_, rfl⟩
        rw [List.flatMap_cons, List.append_assoc, ← hnil, hb, List.append_nil, List.append_nil]
      | cons x middle =>
        obtain ⟨rfl, rfl⟩ := List.cons.inj hmore
        exact ⟨[], b, sources, before, middle, rfl, hb, rfl, (List.append_assoc ..).symm⟩

end List

namespace Environment

open Scheduler (Disturbed Listed Spent Unvisited)

variable {e e' e'' : Environment} {ms : List Moment} {fuel : Nat} {id : ThreadId}

/-! ### Main scripts -/

/-- Moments of the host alone: those of a main script, or nothing is called at them. -/
def IsMain (ms : List Moment) : Prop :=
  (∀ m ∈ ms, m.runner = .host ∧ m.invocation? = none) ∨
    ∃ halt w, Machine.Played .host ms halt w

theorem isMain_nil : IsMain [] := .inl fun _ hm => absurd hm List.not_mem_nil

theorem isMain_endow (w : World) (name : String) (d : Datum) :
    IsMain [⟨.host, w, .endow name d⟩] := .inl (List.forall_mem_singleton.mpr ⟨rfl, rfl⟩)

theorem IsMain.runner_eq (h : IsMain ms) : ∀ m ∈ ms, m.runner = .host := by
  obtain h | ⟨halt, w, h⟩ := h
  · exact fun m hm => (h m hm).1
  · exact h.runner_eq

theorem isMain_moments {next : Next} {halt : Halt} {w : World}
    (h : Machine.run .main fuel next = some (halt, w)) :
    IsMain (Machine.moments .host fuel next) :=
  have hrun : Machine.run Runner.host.place fuel next = some (halt, w) := h
  .inr ⟨halt, w, .steps (Machine.running_of_run hrun)⟩

theorem isMain_loadMoments {script : List Stmt} {result : Except HostError Unit}
    (h : e.load fuel script = some (result, e')) : IsMain (e.loadMoments fuel script) := by
  obtain ⟨hnone, -⟩ | ⟨halt, w, hrun, hmoments, -⟩ := loadMoments_cases h
  · rw [hnone]
    exact isMain_nil
  · rw [hmoments]
    exact isMain_moments hrun

theorem isMain_invokeMoments {name : String} {args : List Value} {result : Except HostError Bool}
    (h : e.invoke fuel name args = some (result, e')) :
    IsMain (e.invokeMoments fuel name args) := by
  obtain ⟨hnone, -⟩ | ⟨halt, w, hrun, hmoments, -⟩ := invokeMoments_cases h
  · rw [hnone]
    exact isMain_nil
  · have hrun : Machine.run Runner.host.place fuel _ = some (halt, w) := hrun
    rw [hmoments]
    exact .inr ⟨halt, w, .call (c := ⟨_, args, []⟩) (Machine.running_of_run hrun)⟩

theorem isMain_keyMoments {index : Nat} {pressed : Bool} {result : Except HostError Bool}
    (h : e.keyEvent fuel index pressed = some (result, e')) :
    IsMain (e.keyMoments fuel index pressed) := by
  obtain ⟨hnone, -⟩ | ⟨key, hinvoke, hmoments⟩ := keyMoments_cases h
  · rw [hnone]
    exact isMain_nil
  · rw [hmoments]
    exact isMain_invokeMoments hinvoke

/-! ### Calls with a tick -/

/-- A tick that leads from one environment to the other, and what the main script does after it that
may follow. -/
structure HasTick (e : Environment) (ms : List Moment) (e' : Environment) (fuel : Nat) (now : Float)
    (turns : List Turn) (last : List Moment) : Prop where
  ticks : ∃ r r' answer s, Scheduler.tick (World.turnwise fuel) now (r, []) e.world.scheduler =
    some (answer, (r', turns), s) ∧ ∃ ids, s.Grows ids e'.world.scheduler
  back : ∀ t ∈ turns, ∃ halt w, t.ComesBack fuel halt w
  moments : ms = turns.flatMap (Turn.moments fuel now) ++ last
  main : IsMain last

theorem hasTick_of_resumeDue {now : Float} {result : Except HostError TickSummary}
    (h : e.resumeDue fuel now = some (result, e')) :
    ∃ turns, HasTick e (e.resumeMoments fuel now) e' fuel now turns [] := by
  obtain ⟨⟨answer, w⟩, htick, heq⟩ := Option.map_eq_some_iff.mp h
  obtain ⟨-, rfl⟩ := Prod.mk.inj heq
  obtain ⟨turns, hturns, hnoted, -, hback⟩ := World.recount_of_tick htick
  refine ⟨turns, ⟨_, _, _, _, hnoted, [], .refl⟩, hback, ?_, isMain_nil⟩
  rw [resumeMoments, hturns, List.append_nil]
  rfl

theorem hasTick_of_tick {now : Float} {result : Except HostError TickSummary}
    (h : e.tick fuel now = some (result, e')) :
    ∃ turns, HasTick e (e.tickMoments fuel now) e' fuel now turns [] := by
  obtain ⟨turns, hticks, hback, hmoments, hmain⟩ := hasTick_of_resumeDue h
  exact ⟨turns, hticks, hback, hmoments, hmain⟩

theorem hasTick_of_render {now : Float} {target : Nat} {result : Except HostError Bool}
    (h : e.render fuel now target = some (result, e')) :
    ∃ turns last, HasTick e (e.renderMoments fuel now target) e' fuel now turns last := by
  obtain ⟨⟨answer, e₁⟩, htick, h⟩ := Option.bind_eq_some_iff.mp h
  obtain ⟨turns, hticks, hback, hmoments, -⟩ := hasTick_of_tick htick
  unfold renderMoments
  rw [htick, hmoments, List.append_nil]
  cases answer with
  | error error =>
    obtain ⟨-, rfl⟩ := Prod.mk.inj (Option.some.inj h)
    exact ⟨turns, [], hticks, hback, rfl, isMain_nil⟩
  | ok summary =>
    have hmain := isMain_invokeMoments h
    obtain ⟨r, r', answer, s, hticked, ids, hgrows⟩ := hticks
    obtain ⟨more, hmore⟩ := grows_invoke h
    refine ⟨turns, _, ?_, hback, rfl, hmain⟩
    exact ⟨r, r', answer, s, hticked, ids ++ more, hgrows.trans hmore⟩

/-- **Threads run in ticks only.** A call of the host has moments of the host alone and then does to
the scheduler what may be done at any time, or it has a tick. -/
theorem Plays.cases (h : e.Plays ms e') :
    (IsMain ms ∧ e.world.scheduler.Disturbed e'.world.scheduler) ∨
      ∃ fuel now turns last, HasTick e ms e' fuel now turns last := by
  have hquiet {s : Scheduler Coroutine} (hgrows : ∃ ids, e.world.scheduler.Grows ids s) :
      e.world.scheduler.Disturbed s := by
    obtain ⟨ids, hgrows⟩ := hgrows
    exact .grow .refl hgrows
  cases h with
  | withHost host => exact .inl ⟨isMain_nil, .refl⟩
  | attach id =>
    have hsame : (e.attach id).world.scheduler = e.world.scheduler :=
      scheduler_publish (e.withContext { e.world.context with controller := some id })
    exact .inl ⟨isMain_nil, hsame ▸ .refl⟩
  | setBoard id =>
    have hsame : (e.setBoard id).world.scheduler = e.world.scheduler :=
      scheduler_publish { e with board := some id }
    exact .inl ⟨isMain_nil, hsame ▸ .refl⟩
  | detach => exact .inl ⟨isMain_nil, .cancel .refl⟩
  | setGlobal name v => exact .inl ⟨isMain_endow .., .refl⟩
  | giveObject name o => exact .inl ⟨isMain_endow .., .refl⟩
  | collect => exact .inl ⟨isMain_nil, hquiet ⟨_, Scheduler.Grows.refl.collect _⟩⟩
  | takeFailures => exact .inl ⟨isMain_nil, .take .refl⟩
  | spawn h => exact .inl ⟨isMain_nil, hquiet (grows_spawn h)⟩
  | load h => exact .inl ⟨isMain_loadMoments h, hquiet (grows_load h)⟩
  | evaluate h =>
    obtain ⟨halt, w, hrun, -⟩ := evaluate_cases h
    exact .inl ⟨isMain_moments hrun, hquiet (grows_evaluate h)⟩
  | invoke h => exact .inl ⟨isMain_invokeMoments h, hquiet (grows_invoke h)⟩
  | keyEvent h => exact .inl ⟨isMain_keyMoments h, hquiet (grows_keyEvent h)⟩
  | resumeDue h =>
    obtain ⟨turns, htick⟩ := hasTick_of_resumeDue h
    exact .inr ⟨_, _, turns, [], htick⟩
  | tick h =>
    obtain ⟨turns, htick⟩ := hasTick_of_tick h
    exact .inr ⟨_, _, turns, [], htick⟩
  | render h =>
    obtain ⟨turns, last, htick⟩ := hasTick_of_render h
    exact .inr ⟨_, _, turns, last, htick⟩

/-! ### Turns of a tick -/

theorem disturbs_resumeThread (fuel : Nat) : (World.resumeThread fuel).Disturbs := by
  intro id routine r s o r' s' h
  obtain ⟨ids, hgrows⟩ := World.resumeThread_startsOnly fuel id routine r s o r' s' h
  exact .grow .refl hgrows

namespace HasTick

variable {now : Float} {turns : List Turn} {last : List Moment} {t : Turn}
  (h : HasTick e ms e' fuel now turns last)
include h

/-- The turns belong to the visits of the tick. -/
theorem exists_visits :
    ∃ (visited : List (Realm × Visit Coroutine)) (r r' : Realm)
      (answer : Except Violation TickSummary) (s : Scheduler Coroutine),
      turns = visited.map World.turnOf ∧
      Scheduler.tick (World.resumeThread fuel).recorded now (r, []) e.world.scheduler =
        some (answer, (r', visited.map Prod.snd), s) ∧
      ∃ ids, s.Grows ids e'.world.scheduler := by
  obtain ⟨r, r', answer, s, htick, hgrows⟩ := h.ticks
  obtain ⟨visited, hturns, hrecorded⟩ := World.exists_visits_of_turns htick
  exact ⟨visited, r, r', answer, s, hturns, hrecorded, hgrows⟩

theorem runner_eq (ht : t ∈ turns) : ∀ m ∈ t.moments fuel now, m.runner = .thread t.id now := by
  obtain ⟨halt, w, hback⟩ := h.back t ht
  exact hback.runner_eq

/-- The threads have their turns in the order in which they were started. -/
theorem increasing (hlisted : e.world.scheduler.Listed) :
    turns.Pairwise fun t t' => t.id < t'.id := by
  obtain ⟨visited, r, r', answer, s, rfl, htick, -⟩ := h.exists_visits
  obtain ⟨-, -, -, hnone, -⟩ | ⟨-, hanswers, -⟩ := Scheduler.visits_of_tick htick
  · rw [List.map_eq_nil_iff.mp hnone]
    exact .nil
  · have hordered := hanswers.increasing hlisted
    rw [List.pairwise_map] at hordered ⊢
    exact hordered

/-- Without a turn a thread has no moments. -/
theorem not_isOf {part : List Turn} (hpart : part ⊆ turns) (hid : ∀ t ∈ part, t.id ≠ id) :
    ∀ m ∈ part.flatMap (Turn.moments fuel now), ¬m.IsOf id := fun m hm => by
  obtain ⟨t, ht, hm⟩ := List.mem_flatMap.mp hm
  rw [Moment.isOf_iff (h.runner_eq (hpart ht) m hm)]
  exact hid t ht

theorem last_not_isOf : ∀ m ∈ last, ¬m.IsOf id := fun m hm =>
  Moment.not_isOf_host (h.main.runner_eq m hm) id

/-- All moments of a thread are in its turn. -/
theorem moments_eq (hlisted : e.world.scheduler.Listed) (ht : t ∈ turns) :
    ∃ before after, ms = before ++ t.moments fuel now ++ after ∧
      (∀ m ∈ before, ¬m.IsOf t.id) ∧ ∀ m ∈ after, ¬m.IsOf t.id := by
  have hordered := h.increasing hlisted
  obtain ⟨earlier, later, rfl⟩ := List.append_of_mem ht
  obtain ⟨hearlier, hlater⟩ := List.forall_mem_append.mp (ne_of_increasing hordered)
  refine ⟨earlier.flatMap (Turn.moments fuel now), later.flatMap (Turn.moments fuel now) ++ last,
    ?_, h.not_isOf (List.subset_append_left ..) hearlier, List.forall_mem_append.mpr ⟨?_, ?_⟩⟩
  · rw [h.moments, List.flatMap_append, List.flatMap_cons]
    simp only [List.append_assoc]
  · exact h.not_isOf (fun t ht => List.mem_append_right _ (List.mem_cons_of_mem _ ht)) hlater
  · exact h.last_not_isOf

/-- A moment of a thread is in the turn of the thread, and the thread has no moments after it. -/
theorem exists_turn (hlisted : e.world.scheduler.Listed) {before rest : List Moment} {m : Moment}
    (hms : ms = before ++ m :: rest) (hm : m.IsOf id) :
    ∃ t ∈ turns, t.id = id ∧ ∃ inner outer after, t.moments fuel now = inner ++ m :: outer ∧
      rest = outer ++ after ∧ ∀ u ∈ after, ¬u.IsOf id := by
  have hordered := h.increasing hlisted
  have hsplit := h.moments.symm.trans hms
  obtain ⟨earlier, t, later, inner, outer, rfl, hinner, -, rfl⟩ :=
    List.exists_source hsplit hm fun m hm => h.last_not_isOf m hm
  have ht : t ∈ earlier ++ t :: later := List.mem_append_right earlier List.mem_cons_self
  have hmem : m ∈ t.moments fuel now := hinner ▸ List.mem_append_right inner List.mem_cons_self
  obtain rfl : t.id = id := (Moment.isOf_iff (h.runner_eq ht m hmem)).mp hm
  obtain ⟨-, hlater⟩ := List.forall_mem_append.mp (ne_of_increasing hordered)
  refine ⟨t, ht, rfl, inner, outer, later.flatMap (Turn.moments fuel now) ++ last, hinner,
    List.append_assoc .., List.forall_mem_append.mpr ⟨?_, h.last_not_isOf⟩⟩
  exact h.not_isOf (fun t ht => List.mem_append_right _ (List.mem_cons_of_mem _ ht)) hlater

end HasTick

/-! ### Moments at which a function is called -/

variable {before rest : List Moment} {m : Moment} {c : Invocation}

theorem IsMain.after_invocation (h : IsMain (before ++ m :: rest)) (hc : m.invocation? = some c) :
    ∃ halt w, Machine.Running .host
      (Machine.call .main m.world c.callee c.args c.frames) rest halt w := by
  obtain h | ⟨halt, w, h⟩ := h
  · obtain ⟨-, hnone⟩ := h m (List.mem_append_right before List.mem_cons_self)
    rw [hnone] at hc
    cases hc
  · exact ⟨halt, w, h.after_invocation hc⟩

/-- The main script goes on from the call that is made at a moment, and nothing comes after it. -/
theorem Plays.exists_main (h : e.Plays (before ++ m :: rest) e') (hm : m.runner = .host)
    (hc : m.invocation? = some c) :
    ∃ halt w, Machine.Running .host
      (Machine.call .main m.world c.callee c.args c.frames) rest halt w := by
  obtain ⟨hmain, -⟩ | ⟨fuel, now, turns, last, htick⟩ := h.cases
  · exact hmain.after_invocation hc
  · have hthreads : ∀ m ∈ turns.flatMap (Turn.moments fuel now), m.runner ≠ .host := fun m hm => by
      obtain ⟨t, ht, hm⟩ := List.mem_flatMap.mp hm
      rw [htick.runner_eq ht m hm]
      nofun
    obtain ⟨middle, -, hlast⟩ := List.exists_eq_append htick.moments.symm hm hthreads
    exact (hlast ▸ htick.main).after_invocation hc

/-- A thread goes on from the call that is made at a moment until its turn ends, and then it has no
more moments. -/
theorem Plays.exists_turn {now : Float} (h : e.Plays (before ++ m :: rest) e')
    (hlisted : e.world.scheduler.Listed) (hm : m.runner = .thread id now)
    (hc : m.invocation? = some c) :
    ∃ fuel turns last t, HasTick e (before ++ m :: rest) e' fuel now turns last ∧ t ∈ turns ∧
      t.id = id ∧ ∃ halt w, t.ComesBack fuel halt w ∧ ∃ outer after, rest = outer ++ after ∧
        Machine.Running (.thread id now)
          (Machine.call .thread m.world c.callee c.args c.frames) outer halt w ∧
        ∀ u ∈ after, ¬u.IsOf id := by
  obtain ⟨hmain, -⟩ | ⟨fuel, now', turns, last, htick⟩ := h.cases
  · have hhost := hmain.runner_eq m (List.mem_append_right before List.mem_cons_self)
    rw [hm] at hhost
    cases hhost
  · obtain ⟨t, ht, rfl, inner, outer, after, hmoments, hrest, hafter⟩ :=
      htick.exists_turn hlisted rfl ⟨now, hm⟩
    obtain ⟨halt, w, hback⟩ := htick.back t ht
    have hmem : m ∈ t.moments fuel now' :=
      hmoments ▸ List.mem_append_right inner List.mem_cons_self
    obtain ⟨-, rfl⟩ := Runner.thread.inj ((htick.runner_eq ht m hmem).symm.trans hm)
    have hplayed : Machine.Played _ (t.moments fuel now') halt w := hback.played
    rw [hmoments] at hplayed
    exact ⟨fuel, turns, last, t, htick, ht, rfl, halt, w, hback, outer, after, hrest,
      hplayed.after_invocation hc, hafter⟩

/-! ### Threads that are suspended -/

/-- All that a thread has left to do is to continue with some frames, whatever is kept until
then. -/
def LeftAt (e : Environment) (id : ThreadId) (frames : List Frame) : Prop :=
  ∃ kept, e.world.scheduler.Spent
    (fun rest => some (Coroutine.suspended frames kept) = some rest) id

variable {frames : List Frame}

namespace HasTick

variable {now : Float} {turns : List Turn} {last : List Moment} {t : Turn}
  (h : HasTick e ms e' fuel now turns last) (hlisted : e.world.scheduler.Listed)
include h hlisted

theorem listed : e'.world.scheduler.Listed := by
  obtain ⟨visited, r, r', answer, s, -, htick, ids, hgrows⟩ := h.exists_visits
  exact (Scheduler.listed_of_tick (disturbs_resumeThread fuel) hlisted htick).1.grows hgrows

/-- A thread that is suspended goes on from there in its turn. -/
theorem routine_of_leftAt (ht : t ∈ turns) (hpos : 0 < t.id) (hleft : e.LeftAt t.id frames) :
    ∃ kept, t.routine = .suspended frames kept := by
  obtain ⟨kept, hleft⟩ := hleft
  obtain ⟨visited, r, r', answer, s, rfl, htick, -⟩ := h.exists_visits
  obtain ⟨visit, hvisit, rfl⟩ := List.mem_map.mp ht
  obtain ⟨next, hgoes, -⟩ := Scheduler.goesOn_of_tick (disturbs_resumeThread fuel) hlisted hpos
    hleft htick
  have hmem : visit.2 ∈ visited.map Prod.snd := List.mem_map_of_mem hvisit
  obtain ⟨-, -, -, hnone, -⟩ | ⟨-, hanswers, -⟩ := Scheduler.visits_of_tick htick
  · rw [hnone] at hmem
    exact absurd hmem List.not_mem_nil
  obtain ⟨earlier, later, hsplit, honce⟩ := hanswers.exists_split hlisted hmem
  change Scheduler.GoesOn _ (Scheduler.visitsTo visit.2.id _) next at hgoes
  rw [hsplit, Scheduler.visitsTo_append,
    Scheduler.visitsTo_eq_nil (List.forall_mem_append.mp honce).1, List.nil_append,
    Scheduler.visitsTo, List.filter_cons_of_pos (by simp)] at hgoes
  generalize hfirst : some (Coroutine.suspended frames kept) = first at hgoes
  cases hgoes
  exact ⟨kept, (Option.some.inj hfirst).symm⟩

/-- Without a turn a thread stays suspended. -/
theorem leftAt (hpos : 0 < id) (hleft : e.LeftAt id frames) (hturns : ∀ t ∈ turns, t.id ≠ id) :
    e'.LeftAt id frames := by
  obtain ⟨kept, hleft⟩ := hleft
  obtain ⟨visited, r, r', answer, s, rfl, htick, ids, hgrows⟩ := h.exists_visits
  obtain ⟨next, hgoes, hspent⟩ := Scheduler.goesOn_of_tick (disturbs_resumeThread fuel) hlisted hpos
    hleft htick
  have hne : ∀ v ∈ visited.map Prod.snd, v.id ≠ id := fun v hv => by
    obtain ⟨visit, hvisit, rfl⟩ := List.mem_map.mp hv
    exact hturns (World.turnOf visit) (List.mem_map_of_mem hvisit)
  rw [Scheduler.visitsTo_eq_nil hne] at hgoes
  generalize hfirst : some (Coroutine.suspended frames kept) = first at hgoes
  cases hgoes
  subst hfirst
  exact ⟨kept, hspent.unvisited hpos (Scheduler.unvisited_grows hgrows id)⟩

end HasTick

theorem Plays.listed (h : e.Plays ms e') (hlisted : e.world.scheduler.Listed) :
    e'.world.scheduler.Listed := by
  obtain ⟨-, hd⟩ | ⟨fuel, now, turns, last, htick⟩ := h.cases
  · exact hlisted.disturbed hd
  · exact htick.listed hlisted

/-- The first moment of a thread that is suspended is that it goes on from there. Without one it
stays suspended. -/
theorem Plays.of_leftAt (h : e.Plays ms e') (hlisted : e.world.scheduler.Listed) (hpos : 0 < id)
    (hleft : e.LeftAt id frames) :
    ((∀ m ∈ ms, ¬m.IsOf id) ∧ e'.LeftAt id frames) ∨
      ∃ before m rest, ms = before ++ m :: rest ∧ m.IsOf id ∧ (∀ m ∈ before, ¬m.IsOf id) ∧
        m.act = .step (.give .nil) frames := by
  obtain ⟨hmain, hd⟩ | ⟨fuel, now, turns, last, htick⟩ := h.cases
  · obtain ⟨kept, hleft⟩ := hleft
    exact .inl ⟨fun m hm => Moment.not_isOf_host (hmain.runner_eq m hm) id,
      kept, Spent.unvisited hleft hpos (hd.unvisited id)⟩
  by_cases hturn : ∃ t ∈ turns, t.id = id
  · obtain ⟨t, ht, rfl⟩ := hturn
    obtain ⟨halt, w, hback⟩ := htick.back t ht
    obtain ⟨kept, hroutine⟩ := htick.routine_of_leftAt hlisted ht hpos hleft
    obtain ⟨rest, hmoments⟩ : ∃ rest, t.moments fuel now = _ :: rest :=
      hback.moments_suspended hroutine
    obtain ⟨before, after, hms, hbefore, -⟩ := htick.moments_eq hlisted ht
    rw [hmoments, List.append_assoc, List.cons_append] at hms
    exact .inr ⟨before, _, rest ++ after, hms, ⟨now, rfl⟩, hbefore, rfl⟩
  · have hne : ∀ t ∈ turns, t.id ≠ id := fun t ht hid => hturn ⟨t, ht, hid⟩
    refine .inl ⟨?_, htick.leftAt hlisted hpos hleft hne⟩
    rw [htick.moments]
    exact List.forall_mem_append.mpr
      ⟨htick.not_isOf (List.Subset.refl turns) hne, htick.last_not_isOf⟩

/-- **A thread goes on from where it was suspended**, whatever the host and other threads do
first. -/
theorem Chronicle.act_of_leftAt {mid later : List Moment} {m : Moment}
    (h : Chronicle e (mid ++ m :: later) e') (hlisted : e.world.scheduler.Listed) (hpos : 0 < id)
    (hleft : e.LeftAt id frames) (hm : m.IsOf id) (hmid : ∀ m ∈ mid, ¬m.IsOf id) :
    m.act = .step (.give .nil) frames := by
  generalize hms : mid ++ m :: later = ms at h
  -- the thread stays suspended through the calls in which it has no moments
  induction h generalizing mid with
  | nil => simp at hms
  | @cons e e' e'' ms ms' hplays _ ih =>
    obtain ⟨hnone, hleft'⟩ | ⟨before, first, rest, rfl, hfirst, hbefore, hact⟩ :=
      hplays.of_leftAt hlisted hpos hleft
    · obtain ⟨middle, rfl, hlater⟩ := List.exists_eq_append hms.symm hm hnone
      exact ih (hplays.listed hlisted) hleft' (List.forall_mem_append.mp hmid).2 hlater.symm
    · rw [List.append_assoc, List.cons_append] at hms
      obtain ⟨-, rfl, -⟩ := List.split_unique hms hm hfirst hmid hbefore
      exact hact

end Environment

end KeyLight
