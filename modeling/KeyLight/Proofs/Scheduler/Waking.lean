import KeyLight.Environment.Basic
import KeyLight.Proofs.Scheduler.Order

/-!
# When a waiting thread wakes

A thread that asks at the time `t` to be resumed after `d` seconds sleeps until `t + d`. Whatever
else happens, it is not resumed by a tick that comes too early, and the first tick that does not
come too early resumes it, unless the thread was cancelled, its handle is collected, or a thread
breaks the rules before it has its turn. `Asleep` is the invariant that carries this from tick to
tick.
-/

namespace KeyLight.Scheduler

variable {ρ : Type} {s s' : Scheduler ρ} {now wakeAt : Float} {visits : List (Visit ρ)}
  {ids : List ThreadId} {id : ThreadId} {rest : ρ} {answer : Except Violation TickSummary}
  {e : Event ρ} {events events' : List (Event ρ)}

theorem mem_states {state : ThreadState} :
    (id, state) ∈ s.states ↔ id ∈ s.live ∧ s.state? id = some state := by
  simp only [states, List.mem_filterMap, Option.map_eq_some_iff, Prod.mk.injEq]
  constructor
  · rintro ⟨_, hlive, _, hstate, rfl, rfl⟩
    exact ⟨hlive, hstate⟩
  · rintro ⟨hlive, hstate⟩
    exact ⟨id, hlive, state, hstate, rfl, rfl⟩

/-- A thread sleeps: it is live and waits for a time, unless its handle is collected or it was
cancelled in one of the events. -/
def Asleep (events : List (Event ρ)) (s : Scheduler ρ) (id : ThreadId) (wakeAt : Float)
    (rest : ρ) : Prop :=
  ∃ t, s.thread? id = some t ∧
    (t.collected = true ∨
      (t.state = .cancelled ∧ ∃ n, .cancelled n ∈ events) ∨
      (id ∈ s.live ∧ t.state = .waiting wakeAt ∧ t.routine = some rest))

namespace Asleep

/-- A thread that is visited and asks to be resumed later sleeps after the tick. -/
theorem of_visit (h : Ticked now s visits ids answer s') (hidle : s.Idle) {v : Visit ρ}
    (hv : v ∈ visits) {d : Float} (hwait : v.outcome = .suspended d rest) :
    Asleep [] s' v.id (now + d) rest := by
  obtain ⟨t', ht', hstate, hroutine⟩ := h.visited v hv
  refine ⟨t', ht', ?_⟩
  rw [hwait] at hstate hroutine
  cases hcollected : t'.collected with
  | true => exact .inl rfl
  | false =>
    have hlive : v.id ∈ s'.live := by
      have hdue := h.answers.due hidle.toSound hv
      refine h.mem_live_iff.mpr ⟨.inl (hdue.mem_live hidle.toSound), ?_⟩
      rw [isDone_of_thread? ht', hcollected, hstate]
      rfl
    exact .inr (.inr ⟨hlive, hstate, hroutine hlive rest rfl⟩)

/-- A thread that sleeps is due only at its time, and then goes on where it stopped. -/
theorem of_due (h : Asleep events s id wakeAt rest) (hdue : s.Due now id) :
    wakeAt ≤ now ∧ ∃ t, s.thread? id = some t ∧ t.routine = some rest := by
  obtain ⟨t, ht, hsleeps⟩ := h
  obtain ⟨t₁, ht₁, hcollected, hstate⟩ := hdue
  obtain rfl : t₁ = t := Option.some.inj (ht₁.symm.trans ht)
  rcases hsleeps with hgone | ⟨hcancelled, -⟩ | ⟨-, hwaiting, hrest⟩
  · rw [hcollected] at hgone
    cases hgone
  · rw [hcancelled] at hstate
    rcases hstate with hready | ⟨_, hwaiting, -⟩
    · cases hready
    · cases hwaiting
  · rw [hwaiting] at hstate
    rcases hstate with hready | ⟨other, hsame, hle⟩
    · cases hready
    · obtain rfl := ThreadState.waiting.inj hsame
      exact ⟨hle, t₁, ht, hrest⟩

/-- A thread that sleeps and was not lost is due at its time. -/
theorem lost_or_due (h : Asleep events s id wakeAt rest) (hle : wakeAt ≤ now) :
    (∃ n, .cancelled n ∈ events) ∨ s.isCollected id = true ∨ s.Due now id := by
  obtain ⟨t, ht, hsleeps⟩ := h
  rw [isCollected_of_thread? ht]
  cases hcollected : t.collected with
  | true => exact .inr (.inl rfl)
  | false =>
    rw [hcollected] at hsleeps
    obtain hgone | ⟨-, hcancelled⟩ | ⟨-, hwaiting, -⟩ := hsleeps
    · cases hgone
    · exact .inl hcancelled
    · exact .inr (.inr ⟨t, ht, hcollected, .inr ⟨wakeAt, hwaiting, hle⟩⟩)

/-- What the host finds of a thread that sleeps. -/
theorem lost_or_mem_states (h : Asleep events s id wakeAt rest) :
    (∃ n, .cancelled n ∈ events) ∨ s.isCollected id = true ∨
      (id, .waiting wakeAt) ∈ s.states := by
  obtain ⟨t, ht, hsleeps⟩ := h
  rw [isCollected_of_thread? ht, mem_states, state?_of_thread? ht]
  obtain hgone | ⟨-, hcancelled⟩ | ⟨hlive, hwaiting, -⟩ := hsleeps
  · exact .inr (.inl hgone)
  · exact .inl hcancelled
  · exact .inr (.inr ⟨hlive, congrArg some hwaiting⟩)

/-- What is reported of a thread that rests since it slept. -/
theorem reported {m : Scheduler ρ} (h : Asleep events s id wakeAt rest)
    (hm : ∀ t, s.thread? id = some t → ∃ t', m.thread? id = some t' ∧ t.Rests t') :
    (∃ n, .cancelled n ∈ events) ∨ m.isCollected id = true ∨
      m.state? id = some (.waiting wakeAt) := by
  obtain ⟨t, ht, hsleeps⟩ := h
  obtain ⟨t', ht', hrests⟩ := hm t ht
  rw [isCollected_of_thread? ht', state?_of_thread? ht']
  cases hcollected : t'.collected with
  | true => exact .inr (.inl rfl)
  | false =>
    rw [hrests.state hcollected]
    obtain hgone | ⟨-, hcancelled⟩ | ⟨-, hwaiting, -⟩ := hsleeps
    · rw [hrests.collected hgone] at hcollected
      cases hcollected
    · exact .inl hcancelled
    · exact .inr (.inr (congrArg some hwaiting))

/-! ### What it sleeps through -/

theorem grows (h : Asleep events s id wakeAt rest) (hgrows : s.Grows ids s') :
    Asleep events s' id wakeAt rest := by
  obtain ⟨t, ht, hsleeps⟩ := h
  obtain ⟨t', ht', hp⟩ := hgrows.thread?_old ht
  refine ⟨t', ht', ?_⟩
  rw [hp.state, hp.routine, hgrows.live_eq]
  exact hsleeps.imp hp.collected (.imp_right (.imp_left (List.mem_append_left ids)))

theorem mono (h : Asleep events s id wakeAt rest) (hevents : events ⊆ events') :
    Asleep events' s id wakeAt rest := by
  obtain ⟨t, ht, hsleeps⟩ := h
  exact ⟨t, ht, hsleeps.imp_right (.imp_left (.imp_right fun ⟨n, hn⟩ => ⟨n, hevents hn⟩))⟩

/-- Cancelling all threads cancels one that sleeps. -/
theorem cancelAll (h : Asleep events s id wakeAt rest) {n : Nat} (hn : .cancelled n ∈ events) :
    Asleep events s.cancelAll.2 id wakeAt rest := by
  obtain ⟨t, ht, hsleeps⟩ := h
  rw [cancelAll_eq]
  have hcancel := thread?_updateAll (f := Thread.cancel) (fun _ => rfl) s s.live id
  by_cases hlive : id ∈ s.live
  · rw [if_pos hlive, ht] at hcancel
    obtain ⟨t', ht', hstate, -⟩ := exists_thread?_reap hcancel
    exact ⟨t', ht', .inr (.inl ⟨hstate, n, hn⟩)⟩
  · rw [if_neg hlive, ht] at hcancel
    obtain ⟨t', ht', hstate, hcollected, -⟩ := exists_thread?_reap hcancel
    refine ⟨t', ht', ?_⟩
    rw [hstate, hcollected]
    exact hsleeps.imp_right (.imp_right fun hsleeping => absurd hsleeping.1 hlive)

/-- A tick that visits a thread that sleeps does not come too early. -/
theorem le_of_visited (h : Asleep events s id wakeAt rest) (hidle : s.Idle)
    (hstep : Step s (.ticked now visits ids answer) s') (hid : id ∈ visits.map Visit.id) :
    wakeAt ≤ now := by
  obtain ⟨v, hv, rfl⟩ := List.mem_map.mp hid
  obtain ⟨-, -, -, rfl, -⟩ | ⟨-, hticked⟩ := hstep.tick_cases hidle
  · cases hv
  · exact (h.of_due (hticked.answers.due hidle.toSound hv)).1

/-- A tick that does not visit a thread leaves it asleep. -/
theorem ticked (h : Asleep events s id wakeAt rest) (hidle : s.Idle)
    (hticked : Ticked now s visits ids answer s') (hid : id ∉ visits.map Visit.id) :
    Asleep events s' id wakeAt rest := by
  obtain ⟨t, ht, hsleeps⟩ := h
  obtain ⟨t', ht', hrests, hroutine⟩ := hticked.unvisited id t ht hid
  obtain ⟨t₁, ht₁, hends⟩ := hticked.rests hidle ht hid
  obtain rfl : t₁ = t' := Option.some.inj (ht₁.symm.trans ht')
  refine ⟨t₁, ht₁, ?_⟩
  obtain ⟨hgone, -⟩ | ⟨-, hstate, hlive⟩ := hends
  · exact .inl hgone
  · rw [hstate]
    refine hsleeps.imp hrests.collected (.imp_right fun ⟨hold, hwaiting, hrest⟩ => ?_)
    have hnew := hlive.mpr hold
    exact ⟨hnew, hwaiting, (hroutine hnew).trans hrest⟩

/-- A tick that does not come too early resumes a thread that sleeps, unless the thread was lost or
another one breaks the rules before it has its turn. -/
theorem visited (h : Asleep events s id wakeAt rest) (hidle : s.Idle)
    (hticked : Ticked now s visits ids answer s') (hle : wakeAt ≤ now) :
    (∃ v ∈ visits, v.id = id ∧ v.routine = rest) ∨ (∃ x, answer = .error x ∧ x.thread < id) ∨
      (∃ n, .cancelled n ∈ events) ∨ s.isCollected id = true := by
  obtain hcancelled | hgone | hdue := h.lost_or_due hle
  · exact .inr (.inr (.inl hcancelled))
  · exact .inr (.inr (.inr hgone))
  obtain ⟨later, hlater⟩ := hticked.answers.exists_dueIds_eq hidle.toSound
  have hmem := (mem_dueIds hidle.toSound).mpr hdue
  rw [hlater] at hmem
  rcases List.mem_append.mp hmem with hvisited | hmissed
  · obtain ⟨v, hv, rfl⟩ := List.mem_map.mp hvisited
    obtain ⟨t, ht, hroutine⟩ := routine_of_mem_agenda (hticked.answers.mem_agenda hv)
    obtain ⟨-, t₁, ht₁, hrest⟩ := h.of_due hdue
    obtain rfl : t₁ = t := Option.some.inj (ht₁.symm.trans ht)
    exact .inl ⟨v, hv, rfl, Option.some.inj (hroutine.symm.trans hrest)⟩
  · have hordered := pairwise_dueIds hidle.toSound now
    rw [hlater, List.pairwise_append] at hordered
    cases answer with
    | ok n =>
      have hall := map_fst_agenda hidle.toSound now
      rw [hticked.answers.agenda_eq, List.map_map, hlater] at hall
      have hnone : later = [] := List.self_eq_append_right.mp hall
      rw [hnone] at hmissed
      cases hmissed
    | error x =>
      obtain ⟨earlier, v, rfl, hid, -⟩ := hticked.answers.exists_stray
      have hv : v ∈ earlier ++ [v] := List.mem_append_right earlier (List.mem_singleton_self v)
      exact .inr (.inl ⟨x, rfl, hid ▸ hordered.2.2 v.id (List.mem_map_of_mem hv) id hmissed⟩)

theorem step (h : Asleep events s id wakeAt rest) (hidle : s.Idle) (hstep : Step s e s')
    (hearly : ∀ now visits ids answer, e = .ticked now visits ids answer → ¬ wakeAt ≤ now) :
    Asleep (events ++ [e]) s' id wakeAt rest := by
  have h' : Asleep (events ++ [e]) s id wakeAt rest := h.mono (List.subset_append_left _ _)
  cases hstep with
  | start routine => exact h'.grows (Grows.refl.spawn routine)
  | collect held => exact h'.grows (Grows.refl.collect held)
  | take => exact h'
  | cancel => exact h'.cancelAll (List.mem_append_right events (List.mem_singleton_self _))
  | @tick _ _ now _ _ visits ids answer _ htick hstarted hholds =>
    obtain ⟨-, -, -, -, -, rfl⟩ | ⟨-, hticked⟩ :=
      Step.tick_cases hidle (.tick htick hstarted hholds)
    · exact h'
    · exact h'.ticked hidle hticked fun hid => hearly now visits ids answer rfl
        (h.le_of_visited hidle (.tick htick hstarted hholds) hid)

/-- A thread sleeps through every run in which all ticks come too early. -/
theorem run (h : Asleep [] s id wakeAt rest) (hidle : s.Idle) (hrun : Run s events s')
    (hearly : ∀ now visits ids answer, .ticked now visits ids answer ∈ events → ¬ wakeAt ≤ now) :
    Asleep events s' id wakeAt rest := by
  induction hrun with
  | nil => exact h
  | @snoc events e s₁ s₂ hrun hstep ih =>
    have hidle' : s₁.Idle := hrun.idle hidle
    refine (ih fun now visits ids answer hmem => ?_).step hidle' hstep ?_
    · exact hearly now visits ids answer (List.mem_append_left [e] hmem)
    · rintro now visits ids answer rfl
      exact hearly now visits ids answer (List.mem_append_right events (List.mem_singleton_self _))

end Asleep

/-- **A waiting thread is never woken early and never missed.** A call of `wait` with a finite
number suspends a thread for as many seconds, or for none if the number is negative. If a thread
asks in a tick at the time `t` to be resumed after `d` seconds, then no tick before `t + d` resumes
it, and until it is resumed its state is reported as waiting for `t + d`. The first tick that does
not come before `t + d` resumes it, unless a thread broke the rules before, all threads were
cancelled, or its handle is collected. -/
theorem waiting_thread_wakes_on_time {t d : Float} {v : Visit ρ} {s₀ s₁ s₂ : Scheduler ρ}
    (hreachable : s₀.Reachable) (htick : Step s₀ (.ticked t visits ids answer) s₁)
    (hv : v ∈ visits) (hwait : v.outcome = .suspended d rest) (hrun : Run s₁ events s₂)
    (hearly : ∀ now visits ids answer, .ticked now visits ids answer ∈ events → ¬ t + d ≤ now) :
    (∀ (w : World) (args : List Value) (frames : List Frame) (x : Float),
      (Stack.ofArguments args).finiteNumber 1 "wait" = .ok x →
      ∃ vs w', Machine.callCapability .thread w .wait args frames =
          .halted w' (.yielded vs frames args) ∧
        World.outcome w'.heap (.yielded vs frames args) =
          .suspended (if 0.0 < x then x else 0.0) (.suspended frames args)) ∧
    (∀ u ∈ visits, v.id < u.id → ∀ new m, u.before.Grows new m →
      m.state? v.id = some (.waiting (t + d))) ∧
    (∀ e ∈ events, ∀ u ∈ e.visits, u.id ≠ v.id) ∧
    ((∃ n, .cancelled n ∈ events) ∨ s₂.isCollected v.id = true ∨
      (v.id, .waiting (t + d)) ∈ s₂.states) ∧
    ∀ now visits ids answer s₃, Step s₂ (.ticked now visits ids answer) s₃ →
      (v.id ∈ visits.map Visit.id → t + d ≤ now) ∧
      (∀ u ∈ visits, (∀ u' ∈ visits, u'.id = v.id → u.id < v.id) →
        ∀ new m, u.before.Grows new m → (∃ n, .cancelled n ∈ events) ∨
          m.isCollected v.id = true ∨ m.state? v.id = some (.waiting (t + d))) ∧
      (t + d ≤ now → (∃ u ∈ visits, u.id = v.id ∧ u.routine = rest) ∨
        (∃ x, s₂.poison = some x) ∨ (∃ x, answer = .error x ∧ x.thread < v.id) ∨
        (∃ n, .cancelled n ∈ events) ∨ s₂.isCollected v.id = true) := by
  have hidle₀ := hreachable.idle
  have hidle₁ := htick.idle hidle₀
  obtain ⟨-, -, -, rfl, -⟩ | ⟨-, hticked⟩ := htick.tick_cases hidle₀
  · cases hv
  have hasleep := Asleep.of_visit hticked hidle₀ hv hwait
  refine ⟨fun w args frames x hx => ?_, fun u hu hlt new m hgrows => ?_,
    fun e he u hu hid => ?_, ?_, fun now visits ids answer s₃ hnext => ?_⟩
  · obtain ⟨vs, w', hcall, houtcome, -⟩ := World.callCapability_wait hx
    exact ⟨vs, w', hcall, houtcome⟩
  · have hstate := (hticked.meanwhile u hu new m hgrows).earlier v hv hlt
    rwa [hwait] at hstate
  · -- a visit in between would have been paid by a tick that came too early
    obtain ⟨earlier, later, s, s', rfl, hearlier, hstep⟩ := hrun.exists_step he
    have hidle : s.Idle := hearlier.idle hidle₁
    have hasleep' := hasleep.run hidle₁ hearlier fun now visits ids answer hmem =>
      hearly now visits ids answer (List.mem_append_left _ hmem)
    cases e with
    | started | collected | taken | cancelled => cases hu
    | ticked now visits ids answer =>
      have hvisited : v.id ∈ visits.map Visit.id := hid ▸ List.mem_map_of_mem hu
      exact hearly now visits ids answer (by simp) (hasleep'.le_of_visited hidle hstep hvisited)
  · exact (hasleep.run hidle₁ hrun hearly).lost_or_mem_states
  · have hasleep₂ := hasleep.run hidle₁ hrun hearly
    have hidle₂ : s₂.Idle := hrun.idle hidle₁
    refine ⟨hasleep₂.le_of_visited hidle₂ hnext, fun u hu hbefore new m hgrows => ?_, fun hle => ?_⟩
    · obtain ⟨-, -, -, rfl, -⟩ | ⟨-, hticked'⟩ := hnext.tick_cases hidle₂
      · cases hu
      · exact hasleep₂.reported fun t ht =>
          (hticked'.meanwhile u hu new m hgrows).resting v.id t ht hbefore
    · obtain ⟨x, hx, -⟩ | ⟨-, hticked'⟩ := hnext.tick_cases hidle₂
      · exact .inr (.inl ⟨x, hx⟩)
      · exact (hasleep₂.visited hidle₂ hticked' hle).imp_right .inr

/-- What a thread has left to do that gives up control with the object 0. -/
def yielder : Coroutine := .suspended [.operands .yield [.object 0] [] []] []

/-- A thread that asked at the time `1` to be resumed after `2` seconds waits for `1 + 2` once
another thread was started. -/
theorem waiting_thread_wakes_on_time_yielder :
    ∃ s₁ s₂ : Scheduler Coroutine, Run s₁ [.started 2] s₂ ∧
      (1, .waiting (1.0 + 2.0)) ∈ s₂.states := by
  let r := ((Environment.firstRealm .empty .linear).newObject (.suspension ⟨2.0⟩)).2
  let rest : Coroutine := .suspended [.operands .discard [] [] []] []
  have hreachable : (empty.spawn yielder).2.Reachable := ⟨_, .single (.start yielder)⟩
  have hvisits : (tick (World.resumeThread 5).recorded 1.0 (r, []) (empty.spawn yielder).2).map
      (fun result => result.2.1.2.map fun v => (v.id, v.outcome)) =
        some [(1, .suspended 2.0 rest)] := rfl
  have hafter : (tick (World.resumeThread 5) 1.0 r (empty.spawn yielder).2).map
      (fun result => (result.2.2.isCollected 1, result.2.2.threads.size)) = some (false, 1) := rfl
  obtain ⟨⟨answer, r', s₁⟩, h, heq⟩ := Option.map_eq_some_iff.mp hafter
  obtain ⟨hcollected, hsize⟩ : s₁.isCollected 1 = false ∧ s₁.threads.size = 1 := Prod.mk.inj heq
  obtain ⟨visits, ids, hrecorded, hstep⟩ :=
    Step.of_tick (World.resumeThread_startsOnly 5) (World.resumeThread_keepsHandles 5) h
  rw [hrecorded] at hvisits
  have honly : (visits.map fun v => (v.id, v.outcome)) = [(1, .suspended 2.0 rest)] :=
    Option.some.inj hvisits
  obtain ⟨v, hv, hvisit⟩ := List.mem_map.mp (honly ▸ List.mem_singleton_self _)
  obtain ⟨hid, hwait⟩ := Prod.mk.inj hvisit
  have hrun : Run s₁ [.started 2] (s₁.spawn yielder).2 := by
    have hsingle := Run.single (s := s₁) (.start yielder)
    rwa [show (s₁.spawn yielder).1 = 2 from congrArg (· + 1) hsize] at hsingle
  obtain ⟨-, -, -, hwaits, -⟩ :=
    waiting_thread_wakes_on_time hreachable hstep hv hwait hrun (by simp)
  rw [hid, isCollected_spawn, hcollected] at hwaits
  exact ⟨s₁, _, hrun, by simpa using hwaits⟩

end KeyLight.Scheduler
