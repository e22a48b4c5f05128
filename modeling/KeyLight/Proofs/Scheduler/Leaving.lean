import KeyLight.Proofs.Scheduler.Order
import KeyLight.Proofs.Scheduler.Poison

/-!
# What is over for good

Two things that happen to a thread are never undone. A thread that has left the list of live threads
never comes back to it and is never visited again (`Run.absent`). A thread that was visited has
nothing left to do but what it came back with, whatever it was started with (`Run.spent`).
-/

namespace KeyLight.Scheduler

variable {ρ : Type} {s s' : Scheduler ρ} {e : Event ρ} {events : List (Event ρ)} {id : ThreadId}

/-! ### Threads that have left -/

/-- A thread that there was, and that is live no more. -/
structure Absent (s : Scheduler ρ) (id : ThreadId) : Prop where
  le : id ≤ s.threads.size
  not_live : id ∉ s.live

theorem Step.absent (hidle : s.Idle) (h : Step s e s') (habsent : s.Absent id) :
    s'.Absent id ∧ id ∉ e.visits.map Visit.id := by
  obtain ⟨hle, hlive⟩ := habsent
  cases h with
  | start routine =>
    refine ⟨⟨?_, ?_⟩, List.not_mem_nil⟩
    · simp only [spawn, Array.size_push]
      exact Nat.le_succ_of_le hle
    · refine List.not_mem_append hlive fun hnew => ?_
      obtain rfl := List.mem_singleton.mp hnew
      exact Nat.not_succ_le_self _ hle
  | collect held =>
    refine ⟨⟨?_, ?_⟩, List.not_mem_nil⟩
    · rwa [size_collect]
    · rwa [live_collect]
  | take => exact ⟨⟨hle, hlive⟩, List.not_mem_nil⟩
  | cancel =>
    refine ⟨⟨?_, ?_⟩, List.not_mem_nil⟩
    · rwa [cancelAll_eq, size_reap, size_updateAll]
    · rw [live_cancelAll]
      exact List.not_mem_nil
  | tick h hstarted hholds =>
    obtain ⟨-, -, -, rfl, -, rfl⟩ | ⟨-, hticked⟩ := Step.tick_cases hidle (.tick h hstarted hholds)
    · exact ⟨⟨hle, hlive⟩, List.not_mem_nil⟩
    refine ⟨⟨Nat.le_trans hle hticked.numbered.le, fun hlive' => ?_⟩, fun hvisited => ?_⟩
    · obtain hold | hnew := (hticked.mem_live_iff.mp hlive').1
      · exact hlive hold
      · exact Nat.not_lt.mpr hle (hticked.numbered.mem_iff.mp hnew).1
    · obtain ⟨v, hv, rfl⟩ := List.mem_map.mp hvisited
      exact hlive ((hticked.answers.due hidle.toSound hv).mem_live hidle.toSound)

/-- **A thread that has left is not visited any more**, and does not come back. -/
theorem Run.absent (hidle : s.Idle) (h : Run s events s') (habsent : s.Absent id) :
    s'.Absent id ∧ id ∉ (events.flatMap Event.visits).map Visit.id := by
  induction h with
  | nil => exact ⟨habsent, List.not_mem_nil⟩
  | snoc hrun hstep ih =>
    obtain ⟨habsent', hearlier⟩ := ih
    obtain ⟨hafter, hlast⟩ := hstep.absent (hrun.idle hidle) habsent'
    rw [List.flatMap_append, List.flatMap_singleton, List.map_append]
    exact ⟨hafter, List.not_mem_append hearlier hlast⟩

/-! ### Threads that have run -/

/-- All that a thread has left to do is as `P` says. -/
structure Spent (P : ρ → Prop) (s : Scheduler ρ) (id : ThreadId) : Prop where
  le : id ≤ s.threads.size
  routine : ∀ t rest, s.thread? id = some t → t.routine = some rest → P rest

variable {P : ρ → Prop}

theorem Spent.of_le (hspent : s.Spent P id) (hsize : s.threads.size ≤ s'.threads.size)
    (h : ∀ t', s'.thread? id = some t' → ∃ t, s.thread? id = some t ∧
      ∀ rest, t'.routine = some rest → t.routine = some rest) : s'.Spent P id where
  le := Nat.le_trans hspent.le hsize
  routine := fun t' rest ht' hrest => by
    obtain ⟨t, ht, hsame⟩ := h t' ht'
    exact hspent.routine t rest ht (hsame rest hrest)

theorem Spent.reap (hspent : s.Spent P id) : s.reap.Spent P id := by
  refine hspent.of_le (Nat.le_of_eq (size_reap s).symm) fun t' ht' => ?_
  rw [thread?_reap] at ht'
  split at ht'
  · obtain ⟨t, ht, rfl⟩ := Option.map_eq_some_iff.mp ht'
    exact ⟨t, ht, fun _ hrest => nomatch hrest⟩
  · exact ⟨t', ht', fun _ hrest => hrest⟩

theorem Spent.cancel (hspent : s.Spent P id) (ids : List ThreadId) :
    (s.updateAll ids Thread.cancel).Spent P id := by
  refine hspent.of_le (Nat.le_of_eq (size_updateAll ..).symm) fun t' ht' => ?_
  obtain ⟨t, ht, rfl | rfl⟩ := thread?_of_cancel ht'
  · exact ⟨t', ht, fun _ hrest => hrest⟩
  · exact ⟨t, ht, fun _ hrest => hrest⟩

/-- A thread that is visited in a tick came back with something, or else it is dropped with all
that it had left to do. -/
theorem spent_of_visit {now : Float} {visits : List (Visit ρ)} {ids : List ThreadId} {v : Visit ρ}
    {t₀ : Thread ρ} (heffect : Effect now s visits ids s') (hv : v ∈ visits)
    (ht₀ : s.thread? v.id = some t₀) (hlive : v.id ∈ s.live)
    (hrests : ∀ rest, v.outcome.rest? = some rest → P rest) : s'.reap.Spent P v.id := by
  obtain ⟨t, ht, hstate, hroutine, -⟩ := heffect.visited v hv t₀ ht₀
  refine ⟨by rw [size_reap]; exact le_size_of_thread? ht, fun t' rest ht' hrest => ?_⟩
  rw [thread?_reap] at ht'
  split at ht'
  · obtain ⟨u, -, rfl⟩ := Option.map_eq_some_iff.mp ht'
    cases hrest
  · rename_i hkept
    obtain rfl : t = t' := Option.some.inj (ht.symm.trans ht')
    -- it is kept, so it has not stopped and asked to be resumed
    have hdone : s'.isDone v.id = false := by
      rw [← Bool.not_eq_true]
      intro hdone
      refine hkept (List.mem_filter.mpr ⟨?_, hdone⟩)
      rw [heffect.live_eq]
      exact List.mem_append_left _ hlive
    rw [isDone_of_thread? ht, Bool.or_eq_false_iff, hstate, Outcome.isTerminal_state] at hdone
    cases ho : v.outcome with
    | suspended seconds left =>
      rw [hroutine, ho] at hrest
      obtain rfl := Option.some.inj hrest
      exact hrests left (by rw [ho]; rfl)
    | finished | failed | stray =>
      rw [ho] at hdone
      cases hdone.2

theorem Step.spent (hidle : s.Idle) (h : Step s e s')
    (hrests : ∀ v ∈ e.visits, ∀ rest, v.outcome.rest? = some rest → P rest)
    (hid : id ∈ e.visits.map Visit.id ∨ s.Spent P id) : s'.Spent P id := by
  cases h with
  | start routine =>
    obtain hid | hspent := hid
    · cases hid
    refine hspent.of_le (by simp [spawn]) fun t' ht' => ?_
    rw [thread?_spawn, if_neg (Nat.ne_of_lt (Nat.lt_succ_of_le hspent.le))] at ht'
    exact ⟨t', ht', fun _ hrest => hrest⟩
  | collect held =>
    obtain hid | hspent := hid
    · cases hid
    refine hspent.of_le (Nat.le_of_eq (size_collect ..).symm) fun t' ht' => ?_
    rw [thread?_collect] at ht'
    split at ht'
    · obtain ⟨t, ht, rfl⟩ := Option.map_eq_some_iff.mp ht'
      exact ⟨t, ht, fun _ hrest => hrest⟩
    · exact ⟨t', ht', fun _ hrest => hrest⟩
  | take =>
    obtain hid | hspent := hid
    · cases hid
    · exact ⟨hspent.le, hspent.routine⟩
  | cancel =>
    obtain hid | hspent := hid
    · cases hid
    · exact (hspent.cancel s.live).reap
  | @tick σ resume now w w' visits ids answer s' h hstarted hholds =>
    obtain ⟨-, -, -, rfl, rfl⟩ | ⟨-, hanswers, -, t, hvisits, rfl⟩ := visits_of_tick h
    · exact hid.resolve_left List.not_mem_nil
    have hdue : ∀ v ∈ visits, s.Due now v.id := fun v hv => hanswers.due hidle.toSound hv
    obtain ⟨heffect, -⟩ :=
      hidle.visits hdue (hanswers.pairwise hidle.toSound) hvisits hstarted
    by_cases hvisited : id ∈ visits.map Visit.id
    · obtain ⟨v, hv, rfl⟩ := List.mem_map.mp hvisited
      obtain ⟨t₀, ht₀, -⟩ := hdue v hv
      obtain ⟨t₁, ht₁, -⟩ := thread?_cancelCollected now ht₀
      refine spent_of_visit heffect hv ht₁ ?_ (hrests v hv)
      rw [live_cancelCollected]
      exact (hdue v hv).mem_live hidle.toSound
    · have hspent : (s.cancelCollected now).Spent P id := by
        rw [cancelCollected_eq]
        exact (hid.resolve_left hvisited).cancel _
      refine (hspent.of_le heffect.numbered.le fun t' ht' => ?_).reap
      obtain ⟨t₁, ht₁⟩ := exists_thread? (pos_of_thread? ht') hspent.le
      obtain ⟨t₂, ht₂, hp⟩ := heffect.unvisited id t₁ ht₁ hvisited
      obtain rfl : t₂ = t' := Option.some.inj (ht₂.symm.trans ht')
      exact ⟨t₁, ht₁, fun rest hrest => hp.routine ▸ hrest⟩

/-- **A thread that has run has nothing left to do but what it came back with.** -/
theorem Run.spent (hidle : s.Idle) (h : Run s events s')
    (hrests : ∀ v ∈ events.flatMap Event.visits, ∀ rest, v.outcome.rest? = some rest → P rest)
    {v : Visit ρ} (hv : v ∈ events.flatMap Event.visits) : s'.Spent P v.id := by
  induction h with
  | nil => cases hv
  | snoc hrun hstep ih =>
    rw [List.flatMap_append, List.flatMap_singleton] at hrests hv
    obtain ⟨hearlier, hlast⟩ := List.forall_mem_append.mp hrests
    refine hstep.spent (hrun.idle hidle) hlast ?_
    obtain hv | hv := List.mem_append.mp hv
    · exact .inr (ih hearlier hv)
    · exact .inl (List.mem_map_of_mem hv)

end KeyLight.Scheduler
