import KeyLight.Environment.Basic
import KeyLight.Proofs.Scheduler.Order

/-!
# What becomes of the threads of a tick

A tick loses no thread and doubles none: the live threads after it are those before it, without the
ones that stopped and the ones whose handle is collected, and then the ones that were started in the
meantime. The numbers it answers with and the failures it notes are those of its visits.
-/

namespace KeyLight.Scheduler

variable {ρ : Type} {s s' : Scheduler ρ} {now : Float} {visits : List (Visit ρ)}
  {ids : List ThreadId} {id : ThreadId} {answer : Except Violation TickSummary}

/-- Whether a thread stopped in one of the visits. -/
def stoppedIn (visits : List (Visit ρ)) (id : ThreadId) : Bool :=
  visits.any fun v => v.id == id && !v.outcome.isSuspended

theorem stoppedIn_of_not_mem (h : id ∉ visits.map Visit.id) : stoppedIn visits id = false := by
  refine List.any_eq_false.mpr fun v hv hstopped => h ?_
  have hid : v.id = id := by simpa using (Bool.and_eq_true_iff.mp hstopped).1
  exact hid ▸ List.mem_map_of_mem hv

namespace Ticked

/-- A thread that is visited stopped if its state says so. -/
theorem stoppedIn_eq (h : Ticked now s visits ids answer s') {t' : Thread ρ}
    (ht' : s'.thread? id = some t') (hid : id ∈ visits.map Visit.id) :
    stoppedIn visits id = t'.state.isTerminal := by
  -- every visit to the thread ended in the state that it has now
  have hstate : ∀ v ∈ visits, v.id = id → (!v.outcome.isSuspended) = t'.state.isTerminal := by
    rintro v hv rfl
    obtain ⟨t₁, ht₁, hstate, -⟩ := h.visited v hv
    obtain rfl : t₁ = t' := Option.some.inj (ht₁.symm.trans ht')
    rw [hstate, Outcome.isTerminal_state]
  obtain ⟨v, hv, rfl⟩ := List.mem_map.mp hid
  cases hterminal : t'.state.isTerminal with
  | true =>
    refine List.any_eq_true.mpr ⟨v, hv, ?_⟩
    rw [hstate v hv rfl, hterminal, beq_self_eq_true]
    rfl
  | false =>
    refine List.any_eq_false.mpr fun u hu hstopped => ?_
    obtain ⟨hsame, hstopped⟩ := Bool.and_eq_true_iff.mp hstopped
    rw [hstate u hu (by simpa using hsame), hterminal] at hstopped
    cases hstopped

/-- A thread that was live is done if it stopped or its handle is collected. -/
theorem isDone_of_mem_live (h : Ticked now s visits ids answer s') (hidle : s.Idle)
    (hid : id ∈ s.live) : s'.isDone id = (stoppedIn visits id || s'.isCollected id) := by
  obtain ⟨t, ht, -⟩ := hidle.known id hid
  by_cases hvisited : id ∈ visits.map Visit.id
  · obtain ⟨v, hv, rfl⟩ := List.mem_map.mp hvisited
    obtain ⟨t', ht', -⟩ := h.visited v hv
    rw [h.stoppedIn_eq ht' hvisited, isDone_of_thread? ht', isCollected_of_thread? ht',
      Bool.or_comm]
  · obtain ⟨t', ht', hrests, -⟩ := h.unvisited id t ht hvisited
    rw [stoppedIn_of_not_mem hvisited, isDone_of_thread? ht', isCollected_of_thread? ht',
      Bool.false_or]
    cases hcollected : t'.collected with
    | true => rfl
    | false => rw [hrests.state hcollected, hidle.pending id hid t ht, Bool.or_false]

/-- A thread that was started is done if its handle is collected. -/
theorem isDone_of_mem_ids (h : Ticked now s visits ids answer s') (hid : id ∈ ids) :
    s'.isDone id = s'.isCollected id := by
  obtain ⟨t', ht', hready⟩ := h.started id hid
  rw [isDone_of_thread? ht', isCollected_of_thread? ht', hready]
  exact Bool.or_false _

/-- The live threads after a tick. -/
theorem live_eq_append (h : Ticked now s visits ids answer s') (hidle : s.Idle) :
    s'.live = (s.live.filter fun id => !stoppedIn visits id && !s'.isCollected id) ++
      ids.filter fun id => !s'.isCollected id := by
  rw [h.live_eq, List.filter_append]
  refine congrArg₂ _ (List.filter_congr fun id hid => ?_) (List.filter_congr fun id hid => ?_)
  · rw [h.isDone_of_mem_live hidle hid, Bool.not_or]
  · rw [h.isDone_of_mem_ids hid]

/-- The thread that breaks the rules has stopped with an error, of which there is no failure. -/
theorem of_error {x : Violation} (h : Ticked now s visits ids (.error x) s') (hidle : s.Idle) :
    s'.poison = some x ∧ s'.state? x.thread = some .errored ∧ x.thread ∉ s'.live ∧
      ∀ f ∈ s'.failures, f.thread ≠ x.thread := by
  obtain ⟨earlier, v, hvisits, hid, hstray, hearlier⟩ := h.answers.exists_stray
  have hv : v ∈ visits := hvisits ▸ List.mem_append_right earlier (List.mem_singleton_self v)
  have hordered := h.answers.pairwise hidle.toSound
  obtain ⟨t', ht', hstate, -⟩ := h.visited v hv
  rw [hstray] at hstate
  rw [← hid]
  refine ⟨?_, state?_eq_some.mpr ⟨t', ht', hstate⟩, fun hlive => ?_, fun f hf hthread => ?_⟩
  · rw [h.poison_eq, hvisits, List.filterMap_append]
    simp [Visit.violation?, Outcome.violation?, hstray, hid]
  · have hpending := h.idle.pending v.id hlive t' ht'
    rw [hstate] at hpending
    cases hpending
  · rw [h.failures_eq] at hf
    rcases List.mem_append.mp hf with hold | hnew
    · -- a thread that is due has not failed before
      obtain ⟨t, ht, herrored⟩ := state?_eq_some.mp (hidle.failed f hold)
      have hnot := (h.answers.due hidle.toSound hv).isTerminal_eq_false (hthread ▸ ht)
      rw [herrored] at hnot
      cases hnot
    · obtain ⟨u, hu, hfailure⟩ := List.mem_filterMap.mp hnew
      rw [hvisits, List.map_append, List.pairwise_append] at hordered
      have hsame : u.id = v.id := (Visit.id_of_failure? hfailure).symm.trans hthread
      rw [hvisits] at hu
      rcases List.mem_append.mp hu with hu | hu
      · exact Nat.ne_of_lt
          (hordered.2.2 u.id (List.mem_map_of_mem hu) v.id (List.mem_singleton_self _)) hsame
      · obtain rfl := List.mem_singleton.mp hu
        rw [Visit.failure?, hstray] at hfailure
        cases hfailure

end Ticked

/-- **A tick accounts for all threads.** Its answer counts the visits by the way they ended, each
failure is noted once and in the order of the visits, and the live threads afterwards are those
before, without the ones that stopped and the ones whose handle is collected, followed by the ones
started in the meantime. If a thread breaks the rules, it has stopped with an error that is not
noted as a failure, and the threads that were still to be resumed stay as they were. -/
theorem tick_accounts_for_threads (hreachable : s.Reachable)
    (h : Step s (.ticked now visits ids answer) s') :
    (∀ n, answer = .ok n →
      n.resumed = n.finished + n.errored + n.waiting ∧
      n = ⟨visits.length, visits.countP fun v => v.outcome.isFinished,
        (visits.filterMap Visit.failure?).length,
        visits.countP fun v => v.outcome.isSuspended⟩ ∧
      s'.failures = s.failures ++ visits.filterMap Visit.failure? ∧
      s'.live = (s.live.filter fun id => !stoppedIn visits id && !s'.isCollected id) ++
        ids.filter fun id => !s'.isCollected id) ∧
    ∀ x, answer = .error x → s.poison = none →
      s'.failures = s.failures ++ visits.filterMap Visit.failure? ∧
      s'.live = ((s.live.filter fun id => !stoppedIn visits id && !s'.isCollected id) ++
        ids.filter fun id => !s'.isCollected id) ∧
      s'.poison = some x ∧ s'.state? x.thread = some .errored ∧ x.thread ∉ s'.live ∧
      (∀ f ∈ s'.failures, f.thread ≠ x.thread) ∧
      ∀ id, s.Due now id → x.thread < id → id ∈ s'.live ∧ s'.state? id = s.state? id := by
  have hidle := hreachable.idle
  obtain ⟨x, hx, rfl, -⟩ | ⟨hpoison, hticked⟩ := h.tick_cases hidle
  · refine ⟨fun n hn => ?_, fun y _ hnone => ?_⟩
    · cases hn
    · rw [hx] at hnone
      cases hnone
  refine ⟨?_, ?_⟩
  · rintro n rfl
    have hcounts := hticked.answers.summary_eq
    simp only [TickSummary.zero, Nat.zero_add] at hcounts
    refine ⟨?_, hcounts, hticked.failures_eq, hticked.live_eq_append hidle⟩
    rw [hcounts]
    exact length_eq_of_not_stray fun v hv => hticked.answers.isStray_eq_false hv
  · rintro x rfl -
    obtain ⟨hpoisoned, hstate, hgone, hfailures⟩ := hticked.of_error hidle
    refine ⟨hticked.failures_eq, hticked.live_eq_append hidle, hpoisoned, hstate, hgone, hfailures,
      fun id hdue hlt => ?_⟩
    obtain ⟨earlier, v, hvisits, hid, -⟩ := hticked.answers.exists_stray
    have hordered := hticked.answers.pairwise hidle.toSound
    rw [hvisits, List.map_append, List.pairwise_append] at hordered
    have hbefore : ∀ u ∈ visits, u.id < id := fun u hu => by
      rw [hvisits] at hu
      rcases List.mem_append.mp hu with hu | hu
      · refine Nat.lt_trans (hordered.2.2 u.id (List.mem_map_of_mem hu) v.id ?_) (hid ▸ hlt)
        exact List.mem_singleton_self _
      · rw [List.mem_singleton.mp hu, hid]
        exact hlt
    have hvisited : id ∉ visits.map Visit.id := fun hmem => by
      obtain ⟨u, hu, rfl⟩ := List.mem_map.mp hmem
      exact Nat.lt_irrefl _ (hbefore u hu)
    have ⟨t, ht, hcollected, _⟩ := hdue
    obtain ⟨t', ht', ⟨hdropped, -⟩ | ⟨-, hsame, hlive⟩⟩ := hticked.rests hidle ht hvisited
    · -- the tick holds the handles of the threads that it has still to resume
      have hheld : s'.isCollected id = false := by
        cases h with
        | tick h hstarted hholds =>
          refine hticked.held id ((isCollected_of_thread? ht).trans hcollected) fun u hu => ?_
          exact hholds u hu id hdue (hbefore u hu)
      rw [isCollected_of_thread? ht', hdropped] at hheld
      cases hheld
    · refine ⟨hlive.mpr (hdue.mem_live hidle.toSound), ?_⟩
      rw [state?_of_thread? ht', state?_of_thread? ht, hsame]

/-- Four threads that are ready. The first and the last one start another thread, the second one
fails to, and the third one gives up control with nil. -/
def fourReady : Scheduler Coroutine :=
  let starter := Coroutine.fresh (.builtin (.capability .thread)) [.builtin .tostring, .int 1]
  let failing := Coroutine.fresh (.builtin (.capability .thread)) []
  let stray := Coroutine.suspended [.operands .yield [] [] []] []
  ((((empty.spawn starter).2.spawn failing).2.spawn stray).2.spawn starter).2

/-- The fourth thread stays as it was, as the third one breaks the rules. -/
theorem tick_accounts_for_fourReady :
    ∃ visits ids s', Step fourReady (.ticked 0.0 visits ids (.error ⟨3, "nil"⟩)) s' ∧
      s'.live = [4, 5] ∧ s'.failures = visits.filterMap Visit.failure? ∧
      s'.failures.map Failure.thread = [2] ∧ s'.state? 4 = some .ready := by
  let r := Environment.firstRealm .empty .linear
  have hreachable : fourReady.Reachable :=
    ⟨_, (((Run.nil.snoc (.start _)).snoc (.start _)).snoc (.start _)).snoc (.start _)⟩
  have hanswer : (tick (World.resumeThread 5) 0.0 r fourReady).map (·.1) =
      some (.error ⟨3, "nil"⟩) := rfl
  have hafter : (tick (World.resumeThread 5) 0.0 r fourReady).map (fun result =>
      (result.2.2.live, result.2.2.failures.map Failure.thread)) = some ([4, 5], [2]) := by
    decide +kernel
  obtain ⟨⟨answer, r', s'⟩, h, rfl⟩ := Option.map_eq_some_iff.mp hanswer
  rw [h] at hafter
  obtain ⟨hlive, hfailed⟩ := Prod.mk.inj (Option.some.inj hafter)
  obtain ⟨visits, ids, -, hstep⟩ :=
    Step.of_tick (World.resumeThread_startsOnly 5) (World.resumeThread_keepsHandles 5) h
  obtain ⟨hfailures, -, -, -, -, -, hlater⟩ :=
    (tick_accounts_for_threads hreachable hstep).2 _ rfl rfl
  have hdue : fourReady.Due 0.0 4 := ⟨_, rfl, rfl, .inl rfl⟩
  exact ⟨visits, ids, s', hstep, hlive, hfailures, hfailed, (hlater 4 hdue (by decide)).2⟩

end KeyLight.Scheduler
