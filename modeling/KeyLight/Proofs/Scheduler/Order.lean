import KeyLight.Environment.Basic
import KeyLight.Proofs.Scheduler.History
import KeyLight.Proofs.World.Thread

/-!
# Which threads a tick resumes

The threads that a tick resumes are read off its visits. They are the threads that were due when the
tick began, each of them once and in the order of starting, up to one that breaks the rules if there
is one. The other threads rest.
-/

namespace KeyLight.Scheduler

variable {ρ σ : Type} {s s' : Scheduler ρ} {now : Float} {visits : List (Visit ρ)}
  {ids : List ThreadId} {id : ThreadId} {answer : Except Violation TickSummary}

namespace Ticked

theorem mem_live_iff (h : Ticked now s visits ids answer s') :
    id ∈ s'.live ↔ (id ∈ s.live ∨ id ∈ ids) ∧ s'.isDone id = false := by
  rw [h.live_eq, List.mem_filter, List.mem_append, Bool.not_eq_true']

/-- A thread that was there is not started once more. -/
theorem not_mem_ids (h : Ticked now s visits ids answer s') {t : Thread ρ}
    (ht : s.thread? id = some t) : id ∉ ids := fun hid =>
  Nat.not_lt.mpr (le_size_of_thread? ht) (h.numbered.mem_iff.mp hid).1

/-- A live thread that is not visited is dropped if its handle is collected, and stays otherwise
with the state it had. -/
theorem rests (h : Ticked now s visits ids answer s') (hidle : s.Idle) {t : Thread ρ}
    (ht : s.thread? id = some t) (hid : id ∉ visits.map Visit.id) :
    ∃ t', s'.thread? id = some t' ∧
      (t'.collected = true ∧ id ∉ s'.live ∨
        t'.collected = false ∧ t'.state = t.state ∧ (id ∈ s'.live ↔ id ∈ s.live)) := by
  obtain ⟨t', ht', hrests, -⟩ := h.unvisited id t ht hid
  refine ⟨t', ht', ?_⟩
  have hdone := isDone_of_thread? ht'
  cases hcollected : t'.collected with
  | true =>
    refine .inl ⟨rfl, fun hlive => ?_⟩
    rw [hcollected, Bool.true_or] at hdone
    exact Bool.false_ne_true ((h.mem_live_iff.mp hlive).2.symm.trans hdone)
  | false =>
    refine .inr ⟨rfl, hrests.state hcollected, fun hlive => ?_, fun hlive => ?_⟩
    · exact (h.mem_live_iff.mp hlive).1.resolve_right (h.not_mem_ids ht)
    · refine h.mem_live_iff.mpr ⟨.inl hlive, ?_⟩
      rw [hdone, hcollected, hrests.state hcollected, hidle.pending id hlive t ht]
      rfl

end Ticked

/-- **A tick resumes exactly the threads that are due**, each of them once and in the order of
starting, up to one that breaks the rules. It comes to an answer if every thread comes back. The
threads that are started in the meantime wait for a later tick, and a thread that is not due keeps
its state, or is dropped if its handle is collected. -/
theorem tick_resumes_due {resume : Resume ρ σ} (hreachable : s.Reachable)
    (hpoison : s.poison = none) (hresume : resume.StartsOnly) (now : Float) (w : σ) :
    ((∀ id routine w s, ∃ result, resume id routine w s = some result) →
      ∃ result, tick resume now w s = some result) ∧
    ∀ answer w' s', tick resume now w s = some (answer, w', s') →
      ∃ visits ids due,
        tick resume.recorded now (w, []) s = some (answer, (w', visits), s') ∧
        Started visits ids ∧
        due.Pairwise (· < ·) ∧ (∀ id, id ∈ due ↔ s.Due now id) ∧
        (∀ n, answer = .ok n → visits.map Visit.id = due ∧
          ∀ v ∈ visits, v.outcome.isStray = false) ∧
        (∀ x, answer = .error x → ∃ earlier v later, visits = earlier ++ [v] ∧
          due = visits.map Visit.id ++ later ∧ v.id = x.thread ∧ v.outcome = .stray x.found ∧
          ∀ u ∈ earlier, u.outcome.isStray = false) ∧
        (∀ id ∈ ids, id ∉ visits.map Visit.id ∧ s'.state? id = some .ready) ∧
        ∀ id t, s.thread? id = some t → ¬ s.Due now id → ∃ t', s'.thread? id = some t' ∧
          (t'.collected = true ∧ id ∉ s'.live ∨
            t'.collected = false ∧ t'.state = t.state ∧ (id ∈ s'.live ↔ id ∈ s.live)) := by
  refine ⟨fun htotal => exists_tick_eq_some htotal now w s, fun answer w' s' h => ?_⟩
  have hidle := hreachable.idle
  obtain ⟨visits, ids, hrecorded, hstarted, -⟩ := exists_visits_of_tick hresume h
  have hticked := ticked hidle hpoison hrecorded hstarted
  have hdue : ∀ v ∈ visits, s.Due now v.id := fun v hv => hticked.answers.due hidle.toSound hv
  obtain ⟨later, hlater⟩ := hticked.answers.exists_dueIds_eq hidle.toSound
  refine ⟨visits, ids, s.dueIds now, hrecorded, hstarted, pairwise_dueIds hidle.toSound now,
    fun id => mem_dueIds hidle.toSound, ?_, ?_, fun id hid => ⟨fun hmem => ?_, ?_⟩,
    fun id t ht hnot => hticked.rests hidle ht fun hmem => ?_⟩
  · rintro n rfl
    refine ⟨?_, fun v hv => hticked.answers.isStray_eq_false hv⟩
    rw [← map_fst_agenda hidle.toSound now, hticked.answers.agenda_eq, List.map_map]
    rfl
  · rintro x rfl
    obtain ⟨earlier, v, hvisits, hid, hstray, hearlier⟩ := hticked.answers.exists_stray
    exact ⟨earlier, v, later, hvisits, hlater, hid, hstray, hearlier⟩
  · obtain ⟨v, hv, rfl⟩ := List.mem_map.mp hmem
    obtain ⟨t, ht, -⟩ := hdue v hv
    exact hticked.not_mem_ids ht hid
  · exact state?_eq_some.mpr (hticked.started id hid)
  · obtain ⟨v, hv, rfl⟩ := List.mem_map.mp hmem
    exact hnot (hdue v hv)

/-- Three threads that are ready. The first and the third one start another thread, and the second
one gives up control with nil. -/
def threeReady : Scheduler Coroutine :=
  let starter := Coroutine.fresh (.builtin (.capability .thread)) [.builtin .tostring, .int 1]
  let stray := Coroutine.suspended [.operands .yield [] [] []] []
  (((empty.spawn starter).2.spawn stray).2.spawn starter).2

/-- The third thread is due but not resumed, as the second one breaks the rules. -/
theorem tick_resumes_due_threeReady :
    ∃ (visits : List (Visit Coroutine)) (due later : List ThreadId),
      due.Pairwise (· < ·) ∧ (∀ id, id ∈ due ↔ threeReady.Due 0.0 id) ∧
      due = visits.map Visit.id ++ later ∧ visits.map Visit.id = [1, 2] := by
  let r := Environment.firstRealm .empty .linear
  have hreachable : threeReady.Reachable :=
    ⟨_, ((Run.nil.snoc (.start _)).snoc (.start _)).snoc (.start _)⟩
  have hanswer : (tick (World.resumeThread 5) 0.0 r threeReady).map (·.1) =
      some (.error ⟨2, "nil"⟩) := rfl
  obtain ⟨⟨answer, r', s'⟩, h, rfl⟩ := Option.map_eq_some_iff.mp hanswer
  obtain ⟨visits, ids, due, hrecorded, -, hordered, hmem, -, hstray, -⟩ :=
    (tick_resumes_due hreachable rfl (World.resumeThread_startsOnly 5) 0.0 r).2 _ _ _ h
  obtain ⟨-, -, later, -, hlater, -⟩ := hstray _ rfl
  have hvisited : (tick (World.resumeThread 5).recorded 0.0 (r, []) threeReady).map
      (fun result => result.2.1.2.map Visit.id) = some [1, 2] := rfl
  rw [hrecorded] at hvisited
  exact ⟨visits, due, later, hordered, hmem, hlater, Option.some.inj hvisited⟩

end KeyLight.Scheduler
