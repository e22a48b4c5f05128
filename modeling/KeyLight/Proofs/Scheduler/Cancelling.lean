import KeyLight.Proofs.Scheduler.Final
import KeyLight.Proofs.Scheduler.Poison

/-!
# Cancelling in the middle of a tick

A host that is called by a running thread may call back, and cancel all threads in the middle of a
tick. `Disturbed` says what may happen then. A thread that is cancelled is no longer live, and
nothing brings it back: no later tick resumes it (`Course.dropped`). The tick in which it is
cancelled, however, goes on with its agenda, and resumes it if it stands there; so its last state is
the one in which it then comes back (`cancelling_during_tick`).
-/

namespace KeyLight

variable {ρ σ : Type}

/-! ### Hosts that call back -/

/-- What may happen to the scheduler while a thread runs, if the host calls back. -/
inductive Scheduler.Disturbed (s : Scheduler ρ) : Scheduler ρ → Prop
  | refl : Disturbed s s
  | grow {ids : List ThreadId} {s' s'' : Scheduler ρ} (h : Disturbed s s')
      (hgrows : s'.Grows ids s'') : Disturbed s s''
  | take {s' : Scheduler ρ} (h : Disturbed s s') : Disturbed s s'.takeFailures.2
  | cancel {s' : Scheduler ρ} (h : Disturbed s s') : Disturbed s s'.cancelAll.2

/-- A way of resuming threads under a host that may call back while they run. -/
def Resume.Disturbs (resume : Resume ρ σ) : Prop :=
  ∀ id routine w s outcome w' s', resume id routine w s = some (outcome, w', s') →
    Scheduler.Disturbed s s'

namespace Scheduler

variable {s s' s'' m : Scheduler ρ} {id : ThreadId} {state : ThreadState} {now : Float}
  {v : Visit ρ} {visits : List (Visit ρ)}

theorem disturbed_of_paidBy {resume : Resume ρ σ} (hresume : resume.Disturbs)
    (hpaid : v.PaidBy resume) : v.before.Disturbed v.after := by
  obtain ⟨w, w', hv⟩ := hpaid
  exact hresume v.id v.routine w v.before v.outcome w' v.after hv

protected theorem Disturbed.trans (h : s.Disturbed s') (h' : s'.Disturbed s'') :
    s.Disturbed s'' := by
  induction h' with
  | refl => exact h
  | grow _ hgrows ih => exact ih.grow hgrows
  | take _ ih => exact ih.take
  | cancel _ ih => exact ih.cancel

/-! ### Threads that are live -/

/-- The live threads are among those that were started. -/
def Known (s : Scheduler ρ) : Prop := ∀ id ∈ s.live, 0 < id ∧ id ≤ s.threads.size

theorem known_empty : (empty : Scheduler ρ).Known := fun _ hid => absurd hid List.not_mem_nil

theorem Known.congr (h : s.Known) (hlive : s'.live = s.live)
    (hsize : s'.threads.size = s.threads.size) : s'.Known := fun id hid => by
  rw [hsize]
  exact h id (hlive ▸ hid)

theorem Known.cancelCollected (h : s.Known) (now : Float) : (s.cancelCollected now).Known :=
  h.congr (live_cancelCollected s now) (size_cancelCollected s now)

theorem Known.reap (h : s.Known) : s.reap.Known := fun id hid => by
  rw [size_reap]
  exact h id (List.mem_filter.mp hid).1

theorem Known.grows {ids : List ThreadId} (h : s.Known) (hgrows : s.Grows ids s') : s'.Known :=
  fun id hid => by
    have hnumbered := hgrows.numbered
    rw [hgrows.live_eq] at hid
    rcases List.mem_append.mp hid with hold | hnew
    · exact ⟨(h id hold).1, Nat.le_trans (h id hold).2 hnumbered.le⟩
    · obtain ⟨hlt, hle⟩ := hnumbered.mem_iff.mp hnew
      exact ⟨Nat.zero_lt_of_lt hlt, hle⟩

theorem Known.disturbed (h : s.Known) (hd : s.Disturbed s') : s'.Known := by
  induction hd with
  | refl => exact h
  | grow _ hgrows ih => exact ih.grows hgrows
  | take _ ih => exact ih
  | @cancel s' _ ih =>
    intro id hid
    rw [live_cancelAll] at hid
    cases hid

/-! ### Threads that are not live -/

/-- A thread is in a state and not live, so that it is not to be resumed any more. -/
structure Dropped (s : Scheduler ρ) (id : ThreadId) (state : ThreadState) : Prop where
  state : s.state? id = some state
  gone : id ∉ s.live

theorem Dropped.cancelAll (h : s.Dropped id state) : s.cancelAll.2.Dropped id state where
  state := by
    have hsame := thread?_updateAll (f := Thread.cancel) (fun _ => rfl) s s.live id
    rw [if_neg h.gone] at hsame
    rw [cancelAll_eq, state?_reap, ← h.state]
    exact congrArg (Option.map _) hsame
  gone := by
    rw [live_cancelAll]
    exact List.not_mem_nil

theorem Dropped.grows {ids : List ThreadId} (h : s.Dropped id state) (hgrows : s.Grows ids s') :
    s'.Dropped id state := by
  obtain ⟨t, ht, hstate⟩ := state?_eq_some.mp h.state
  obtain ⟨t', ht', hp⟩ := hgrows.thread?_old ht
  refine ⟨state?_eq_some.mpr ⟨t', ht', hp.state.trans hstate⟩, fun hid => ?_⟩
  rw [hgrows.live_eq] at hid
  rcases List.mem_append.mp hid with hold | hnew
  · exact h.gone hold
  · exact Nat.not_lt_of_le (le_size_of_thread? ht) (hgrows.numbered.mem_iff.mp hnew).1

theorem Dropped.disturbed (h : s.Dropped id state) (hd : s.Disturbed s') : s'.Dropped id state := by
  induction hd with
  | refl => exact h
  | grow _ hgrows ih => exact ih.grows hgrows
  | take _ ih => exact ⟨ih.state, ih.gone⟩
  | cancel _ ih => exact ih.cancelAll

theorem Dropped.reap (h : s.Dropped id state) : s.reap.Dropped id state where
  state := by rw [state?_reap, h.state]
  gone := fun hid => h.gone (List.mem_filter.mp hid).1

theorem Dropped.cancelCollected (h : s.Dropped id state) (now : Float) :
    (s.cancelCollected now).Dropped id state where
  state := by
    have hnot : id ∉ s.live.filter fun id => s.isDue now id && s.isCollected id :=
      fun hid => h.gone (List.mem_filter.mp hid).1
    have hsame := thread?_updateAll (f := Thread.cancel) (fun _ => rfl) s
      (s.live.filter fun id => s.isDue now id && s.isCollected id) id
    rw [if_neg hnot] at hsame
    rw [cancelCollected_eq, ← h.state]
    exact congrArg (Option.map _) hsame
  gone := by
    rw [live_cancelCollected]
    exact h.gone

/-- All live threads are dropped when all are cancelled. -/
theorem dropped_cancelAll (hknown : s.Known) (hid : id ∈ s.live) :
    s.cancelAll.2.Dropped id .cancelled := by
  obtain ⟨t, ht⟩ := exists_thread? (hknown id hid).1 (hknown id hid).2
  exact ⟨state?_cancelAll s hid ht, by rw [live_cancelAll]; exact List.not_mem_nil⟩

/-! ### Visits to threads that are not live -/

/-- The state in which a thread comes back from the last visit that is paid to it, if any is. -/
def lastState (now : Float) (id : ThreadId) (state : ThreadState) (visits : List (Visit ρ)) :
    ThreadState :=
  visits.foldl (fun state v => if v.id = id then v.outcome.state now else state) state

theorem lastState_of_unvisited (hne : ∀ v ∈ visits, v.id ≠ id) :
    lastState now id state visits = state := by
  induction visits with
  | nil => rfl
  | cons v visits ih =>
    obtain ⟨hv, hvisits⟩ := List.forall_mem_cons.mp hne
    simp only [lastState, List.foldl_cons, if_neg hv]
    exact ih hvisits

theorem Dropped.setState (h : s.Dropped id state) (other : ThreadId) (new : ThreadState) :
    (s.setState other new).Dropped id (if other = id then new else state) where
  state := by
    rw [state?_setState]
    by_cases hid : other = id
    · rw [if_pos hid.symm, if_pos hid, hid, h.state]
      rfl
    · rw [if_neg (Ne.symm hid), if_neg hid, h.state]
  gone := by
    rw [live_setState]
    exact h.gone

theorem Dropped.settle (h : s.Dropped id state) (now : Float) (other : ThreadId)
    (o : Outcome ρ) :
    (s.settle now other o).Dropped id (if other = id then o.state now else state) where
  state := by
    rw [state?_settle]
    by_cases hid : other = id
    · rw [if_pos hid.symm, if_pos hid, hid, h.state]
      rfl
    · rw [if_neg (Ne.symm hid), if_neg hid, h.state]
  gone := by
    rw [live_settle]
    exact h.gone

/-- **Visits do not bring back a thread that is not live**, but they change its state. -/
theorem Visits.dropped (hvisits : Visits now s visits s')
    (hd : ∀ v ∈ visits, v.before.Disturbed v.after) (h : s.Dropped id state) :
    s'.Dropped id (lastState now id state visits) := by
  -- the visits go on from a scheduler in which the thread is dropped, perhaps in another state
  induction hvisits generalizing state with
  | nil => exact h
  | @cons s s' v visits hbefore _ ih =>
    obtain ⟨hv, hd⟩ := List.forall_mem_cons.mp hd
    have hrunning := h.setState v.id .running
    rw [← hbefore] at hrunning
    have hsettled := (hrunning.disturbed hv).settle now v.id v.outcome
    -- that the thread was running in the meantime does not show
    have hstate : (if v.id = id then v.outcome.state now
        else if v.id = id then .running else state) =
        if v.id = id then v.outcome.state now else state := by
      by_cases hid : v.id = id
      · rw [if_pos hid, if_pos hid]
      · rw [if_neg hid, if_neg hid, if_neg hid]
    rw [hstate] at hsettled
    exact ih hd hsettled

theorem Visits.known (hvisits : Visits now s visits s')
    (hd : ∀ v ∈ visits, v.before.Disturbed v.after) (h : s.Known) : s'.Known := by
  induction hvisits with
  | nil => exact h
  | @cons s s' v visits hbefore _ ih =>
    obtain ⟨hv, hd⟩ := List.forall_mem_cons.mp hd
    have hstart : v.before.Known := by
      rw [hbefore]
      exact h.congr (live_setState ..) (size_setState ..)
    exact ih hd ((hstart.disturbed hv).congr (live_settle ..) (size_settle ..))

/-- Some visits are paid before the others. -/
theorem Visits.of_append {earlier later : List (Visit ρ)}
    (h : Visits now s (earlier ++ later) s') :
    ∃ m, Visits now s earlier m ∧ Visits now m later s' := by
  induction earlier generalizing s with
  | nil => exact ⟨s, .nil, h⟩
  | cons v earlier ih =>
    cases h with
    | cons hbefore h =>
      obtain ⟨m, hearlier, hlater⟩ := ih h
      exact ⟨m, .cons hbefore hearlier, hlater⟩

/-! ### Ticks -/

theorem mem_live_of_mem_agenda {routine : ρ} (h : (id, routine) ∈ s.agenda now) : id ∈ s.live := by
  obtain ⟨other, hother, heq⟩ := List.mem_filterMap.mp h
  obtain ⟨routine', -, heq⟩ := Option.map_eq_some_iff.mp heq
  obtain ⟨rfl, -⟩ := Prod.mk.inj heq
  exact (List.mem_filter.mp hother).1

/-- Things that happen one after the other, under a host that may call back in any of the ticks. The
list is of the visits that are paid. -/
inductive Course (s : Scheduler ρ) : List (Visit ρ) → Scheduler ρ → Prop
  | nil : Course s [] s
  | disturb {visits : List (Visit ρ)} {s' s'' : Scheduler ρ} (h : Course s visits s')
      (hd : s'.Disturbed s'') : Course s visits s''
  | tick {σ : Type} {resume : Resume ρ σ} (hresume : resume.Disturbs) {now : Float} {w w' : σ}
      {visits more : List (Visit ρ)} {answer : Except Violation TickSummary}
      {s' s'' : Scheduler ρ} (h : Course s visits s')
      (htick : tick resume.recorded now (w, []) s' = some (answer, (w', more), s'')) :
      Course s (visits ++ more) s''

theorem Course.known (h : Course s visits s') (hknown : s.Known) : s'.Known := by
  induction h with
  | nil => exact hknown
  | disturb _ hd ih => exact ih.disturbed hd
  | @tick σ resume hresume now w w' visits more answer s' s'' _ htick ih =>
    obtain ⟨-, -, -, -, rfl⟩ | ⟨-, -, hpaid, t, hmore, rfl⟩ := visits_of_tick htick
    · exact ih
    · have hd : ∀ v ∈ more, v.before.Disturbed v.after := fun v hv =>
        disturbed_of_paidBy hresume (hpaid v hv)
      exact (hmore.known hd (ih.cancelCollected now)).reap

/-- **A thread that is not live is left alone**: no tick resumes it, and it stays in its state. -/
theorem Course.dropped (h : Course s visits s') (hdropped : s.Dropped id state) :
    (∀ v ∈ visits, v.id ≠ id) ∧ s'.Dropped id state := by
  induction h with
  | nil => exact ⟨fun _ hv => absurd hv List.not_mem_nil, hdropped⟩
  | disturb _ hd ih => exact ⟨ih.1, ih.2.disturbed hd⟩
  | @tick σ resume hresume now w w' visits more answer s' s'' _ htick ih =>
    obtain ⟨hvisits, hdropped⟩ := ih
    obtain ⟨-, -, -, rfl, rfl⟩ | ⟨-, hanswers, hpaid, t, hmore, rfl⟩ := visits_of_tick htick
    · rw [List.append_nil]
      exact ⟨hvisits, hdropped⟩
    · -- the agenda is of live threads, so this one is not on it
      have hne : ∀ v ∈ more, v.id ≠ id := fun v hv hid =>
        hdropped.gone (hid ▸ mem_live_of_mem_agenda (hanswers.mem_agenda hv))
      have hlast := hmore.dropped
        (fun v hv => disturbed_of_paidBy hresume (hpaid v hv)) (hdropped.cancelCollected now)
      rw [lastState_of_unvisited hne] at hlast
      exact ⟨List.forall_mem_append.mpr ⟨hvisits, hne⟩, hlast.reap⟩

/-- **Cancelling all threads in the middle of a tick.** The threads that are live then are cancelled
and dropped. But the tick goes on with its agenda: if a thread of these is visited later in it, or
is the one that runs, its last state is the one in which it comes back. -/
theorem cancelling_during_tick {resume : Resume ρ σ} (hresume : resume.Disturbs) (hknown : s.Known)
    {w w' : σ} {answer : Except Violation TickSummary} {earlier later : List (Visit ρ)}
    (h : tick resume.recorded now (w, []) s = some (answer, (w', earlier ++ v :: later), s'))
    (hbefore : v.before.Disturbed m) (hafter : m.cancelAll.2.Disturbed v.after)
    (hlive : id ∈ m.live) :
    m.cancelAll.2.Dropped id .cancelled ∧ v.after.Dropped id .cancelled ∧
      s'.Dropped id (lastState now id .cancelled (v :: later)) := by
  obtain ⟨-, -, -, hnone, -⟩ | ⟨-, -, hpaid, t, hall, rfl⟩ := visits_of_tick h
  · simp at hnone
  have hd : ∀ u ∈ earlier ++ v :: later, u.before.Disturbed u.after := fun u hu =>
    disturbed_of_paidBy hresume (hpaid u hu)
  obtain ⟨hearlier, hrest⟩ := List.forall_mem_append.mp hd
  obtain ⟨-, hlater⟩ := List.forall_mem_cons.mp hrest
  obtain ⟨s₁, hfirst, hvisits⟩ := hall.of_append
  cases hvisits with
  | cons hrunning hvisits =>
    have hstart : v.before.Known := by
      rw [hrunning]
      exact (hfirst.known hearlier (hknown.cancelCollected now)).congr (live_setState ..)
        (size_setState ..)
    have hcancelled : m.cancelAll.2.Dropped id .cancelled :=
      dropped_cancelAll (hstart.disturbed hbefore) hlive
    have hback : v.after.Dropped id .cancelled := hcancelled.disturbed hafter
    -- from here on only visits change the state of the thread
    have hlast := hvisits.dropped hlater (hback.settle now v.id v.outcome)
    exact ⟨hcancelled, hback, hlast.reap⟩

end Scheduler

end KeyLight
