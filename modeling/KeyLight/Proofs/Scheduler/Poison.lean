import KeyLight.Proofs.Scheduler.History

/-!
# After a thread has broken the rules

A tick that answers with a violation leaves it noted (`poison_of_tick`), and nothing that happens
later removes or replaces the note (`Run.poison_kept`). Cancelling and taking failures do not look
at it: they do the same with every note, and with none.
-/

namespace KeyLight.Scheduler

variable {ρ σ : Type} {s s' : Scheduler ρ} {e : Event ρ} {events : List (Event ρ)} {x : Violation}

/-- What a tick answers with is noted. -/
theorem poison_of_resumeAll {resume : Resume ρ σ} {now : Float} {agenda : List (ThreadId × ρ)}
    {n : TickSummary} {w w' : σ}
    (h : resumeAll resume now agenda n w s = some (.error x, w', s')) : s'.poison = some x := by
  induction agenda generalizing n w s with
  | nil => cases h
  | cons task agenda ih =>
    obtain ⟨id, routine⟩ := task
    simp only [resumeAll] at h
    cases hresume : resume id routine w (s.setState id .running) with
    | none => simp [hresume] at h
    | some result =>
      obtain ⟨outcome, w₁, after⟩ := result
      simp only [hresume] at h
      cases outcome with
      | stray found =>
        simp only [Option.some.injEq, Prod.mk.injEq, Except.error.injEq] at h
        obtain ⟨rfl, -, rfl⟩ := h
        rfl
      | finished | failed _ | suspended _ _ => exact ih h

theorem poison_of_tick {resume : Resume ρ σ} {now : Float} {w w' : σ}
    (h : tick resume now w s = some (.error x, w', s')) : s'.poison = some x := by
  obtain ⟨v, hpoison, hanswer, -, rfl⟩ | ⟨-, t, hall, rfl⟩ := resumeAll_of_tick h
  · rw [hpoison, Except.error.inj hanswer]
  · rw [poison_reap]
    exact poison_of_resumeAll hall

/-- A tick does nothing any more. -/
theorem tick_of_poison (resume : Resume ρ σ) (now : Float) (w : σ) (h : s.poison = some x) :
    tick resume now w s = some (.error x, w, s) := by
  unfold tick
  rw [h]

/-! ### The note stays -/

theorem Step.poison_kept (h : Step s e s') (hpoison : s.poison = some x) : s'.poison = some x := by
  cases h with
  | start routine => exact hpoison
  | collect held => exact (poison_collect s held).trans hpoison
  | take => exact hpoison
  | cancel =>
    rw [cancelAll_eq, poison_reap, poison_updateAll]
    exact hpoison
  | tick h hstarted hholds =>
    obtain ⟨v, -, -, -, rfl⟩ | ⟨hnone, -⟩ := visits_of_tick h
    · exact hpoison
    · rw [hpoison] at hnone
      cases hnone

/-- **The first violation is noted for good.** -/
theorem Run.poison_kept (h : Run s events s') (hpoison : s.poison = some x) :
    s'.poison = some x :=
  h.invariant hpoison fun hpoison hstep => hstep.poison_kept hpoison

/-! ### What does not depend on the note -/

/-- The scheduler with another note of a thread that has broken the rules. -/
def withPoison (s : Scheduler ρ) (p : Option Violation) : Scheduler ρ := { s with poison := p }

theorem update_withPoison (s : Scheduler ρ) (p : Option Violation) (id : ThreadId)
    (f : Thread ρ → Thread ρ) : (s.withPoison p).update id f = (s.update id f).withPoison p := by
  have hsame : (s.withPoison p).thread? id = s.thread? id := rfl
  unfold update
  rw [hsame]
  cases s.thread? id <;> rfl

theorem updateAll_withPoison (s : Scheduler ρ) (p : Option Violation) (ids : List ThreadId)
    (f : Thread ρ → Thread ρ) :
    (s.withPoison p).updateAll ids f = (s.updateAll ids f).withPoison p := by
  induction ids generalizing s with
  | nil => rfl
  | cons id ids ih =>
    change ((s.withPoison p).update id f).updateAll ids f =
      ((s.update id f).updateAll ids f).withPoison p
    rw [update_withPoison, ih]

theorem reap_withPoison (s : Scheduler ρ) (p : Option Violation) :
    (s.withPoison p).reap = s.reap.withPoison p := by
  have hlive : (s.withPoison p).live = s.live := rfl
  have hdone : (s.withPoison p).isDone = s.isDone := rfl
  rw [reap_eq, reap_eq, hlive, hdone, updateAll_withPoison]
  rfl

theorem cancelAll_withPoison (s : Scheduler ρ) (p : Option Violation) :
    (s.withPoison p).cancelAll = (s.cancelAll.1, s.cancelAll.2.withPoison p) := by
  have hlive : (s.withPoison p).live = s.live := rfl
  rw [cancelAll_eq, cancelAll_eq, hlive, updateAll_withPoison, reap_withPoison]

/-- Once all threads are cancelled none is live. -/
theorem live_cancelAll (s : Scheduler ρ) : s.cancelAll.2.live = [] := by
  rw [cancelAll_eq, live_reap, live_updateAll, List.filter_eq_nil_iff]
  intro id hid
  have hthread := thread?_updateAll (f := Thread.cancel) (fun _ => rfl) s s.live id
  rw [if_pos hid] at hthread
  cases ht : s.thread? id with
  | none => simp [isDone, hthread, ht]
  | some t => simp [isDone, hthread, ht, Thread.cancel, ThreadState.isTerminal]

/-- All live threads are cancelled. -/
theorem state?_cancelAll (s : Scheduler ρ) {id : ThreadId} (hid : id ∈ s.live) {t : Thread ρ}
    (ht : s.thread? id = some t) : s.cancelAll.2.state? id = some .cancelled := by
  rw [cancelAll_eq, state?_reap]
  refine state?_eq_some.mpr ⟨t.cancel, ?_, rfl⟩
  rw [thread?_updateAll (f := Thread.cancel) fun _ => rfl, if_pos hid, ht]
  rfl

end KeyLight.Scheduler
