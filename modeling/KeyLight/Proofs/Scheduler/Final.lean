import KeyLight.Proofs.Scheduler.History

/-!
# Threads that have stopped

A thread that has stopped is never resumed again and stays in the state that it stopped in. That
threads which have stopped in one scheduler are in the same state in another is said by `Final`; it
holds between any two moments of a run, also while a thread is visited. `Lasts` says so of the
moments at which a run begins, visits its threads and ends, and `Run.lasts` proves it.
-/

namespace KeyLight

variable {ρ : Type}

/-- The state that a thread stopped in when it came back, if it did. -/
def Outcome.last? : Outcome ρ → Option ThreadState
  | .finished => some .finished
  | .failed _ | .stray _ => some .errored
  | .suspended .. => none

theorem Outcome.state_eq_of_last? {o : Outcome ρ} {state : ThreadState}
    (h : o.last? = some state) (now : Float) : o.state now = state := by
  cases o with
  | finished | failed _ | stray _ => exact Option.some.inj h
  | suspended seconds rest => cases h

/-- The scheduler is one that comes about while the thread of the visit runs. -/
def Visit.Meets (v : Visit ρ) (m : Scheduler ρ) : Prop := ∃ new, v.before.Grows new m

namespace Scheduler

/-- The threads that have stopped in one scheduler are in the same state in the other. -/
def Final (s s' : Scheduler ρ) : Prop :=
  ∀ id state, s.state? id = some state → state.isTerminal = true → s'.state? id = some state

/-- If the thread of the visit stopped when it came back, it is in the state that it stopped in. -/
def Ended (v : Visit ρ) (s : Scheduler ρ) : Prop :=
  ∀ state, v.outcome.last? = some state → s.state? v.id = some state

variable {s s' s'' m : Scheduler ρ} {now : Float} {id : ThreadId} {ids new : List ThreadId}
  {v : Visit ρ} {visits : List (Visit ρ)} {e : Event ρ} {events : List (Event ρ)}

/-! ### What keeps the state of threads that have stopped -/

namespace Final

protected theorem refl (s : Scheduler ρ) : s.Final s := fun _ _ h _ => h

protected theorem trans (h : s.Final s') (h' : s'.Final s'') : s.Final s'' :=
  fun id state hstate hterminal => h' id state (h id state hstate hterminal) hterminal

theorem ended (h : s.Final s') (hended : Ended v s) : Ended v s' := fun state hlast => by
  refine h v.id state (hended state hlast) ?_
  rw [← Outcome.state_eq_of_last? hlast 0, Outcome.isTerminal_state]
  cases ho : v.outcome with
  | finished | failed _ | stray _ => rfl
  | suspended _ _ =>
    rw [ho] at hlast
    cases hlast

/-- Threads that have stopped, and no others, are left alone. -/
theorem of_ne (id : ThreadId) (h : ∀ other, other ≠ id → s'.state? other = s.state? other)
    {state : ThreadState} (hstate : s.state? id = some state)
    (hpending : state.isTerminal = false) : s.Final s' := fun other last hlast hterminal => by
  have hne : other ≠ id := fun heq => by
    obtain rfl := Option.some.inj (hlast.symm.trans (heq ▸ hstate))
    rw [hpending] at hterminal
    cases hterminal
  rw [h other hne, hlast]

end Final

/-- Running code leaves the threads that have stopped in their states. -/
theorem Grows.final (h : s.Grows ids s') : s.Final s' := fun id state hstate _ => by
  obtain ⟨t, ht, rfl⟩ := state?_eq_some.mp hstate
  obtain ⟨t', ht', hp⟩ := h.thread?_old ht
  exact state?_eq_some.mpr ⟨t', ht', hp.state⟩

/-- No thread stops because of other code that runs. -/
theorem Grows.final_before (h : s.Grows ids s') : s'.Final s := fun id state hstate hterminal => by
  obtain ⟨t', ht', rfl⟩ := state?_eq_some.mp hstate
  obtain ⟨_, hv, -⟩ | ⟨t, ht, hp⟩ | ⟨-, hready⟩ := (h.effect 0).thread?_cases ht'
  · exact absurd hv List.not_mem_nil
  · exact state?_eq_some.mpr ⟨t, ht, hp.state.symm⟩
  · rw [hready] at hterminal
    cases hterminal

theorem state?_settle (s : Scheduler ρ) (now : Float) (id : ThreadId) (o : Outcome ρ)
    (other : ThreadId) :
    (s.settle now id o).state? other =
      if other = id then (s.state? id).map fun _ => o.state now else s.state? other := by
  unfold state?
  rw [thread?_settle]
  split
  · simp [Function.comp_def]
  · rfl

/-- Cancelling threads that have not stopped leaves the others alone. -/
theorem final_cancel
    (hpending : ∀ id ∈ ids, ∀ t, s.thread? id = some t → t.state.isTerminal = false) :
    s.Final (s.updateAll ids Thread.cancel) := fun id state hstate hterminal => by
  obtain ⟨t, ht, rfl⟩ := state?_eq_some.mp hstate
  have hid : id ∉ ids := fun hid => by
    rw [hpending id hid t ht] at hterminal
    cases hterminal
  exact state?_eq_some.mpr ⟨t, by rw [thread?_updateAll (f := Thread.cancel) fun _ => rfl,
    if_neg hid, ht], rfl⟩

theorem final_reap (s : Scheduler ρ) : s.Final s.reap := fun id state hstate _ => by
  rwa [state?_reap]

/-! ### Visits -/

/-- What visits between two moments do to threads that have stopped. -/
structure Lasts (s : Scheduler ρ) (visits : List (Visit ρ)) (s' : Scheduler ρ) : Prop where
  final : s.Final s'
  running : ∀ v ∈ visits, v.before.state? v.id = some .running
  before : ∀ v ∈ visits, s.Final v.before
  after : ∀ v ∈ visits, v.before.Final s' ∧ Ended v s'
  between : visits.Pairwise fun u v => u.before.Final v.before ∧ Ended u v.before

namespace Lasts

theorem of_final (h : s.Final s') : Lasts s [] s' where
  final := h
  running := fun _ hv => absurd hv List.not_mem_nil
  before := fun _ hv => absurd hv List.not_mem_nil
  after := fun _ hv => absurd hv List.not_mem_nil
  between := .nil

/-- What is true of visits and of later visits is true of all. -/
protected theorem append {later : List (Visit ρ)} (h : Lasts s visits s')
    (h' : Lasts s' later s'') : Lasts s (visits ++ later) s'' where
  final := h.final.trans h'.final
  running := List.forall_mem_append.mpr ⟨h.running, h'.running⟩
  before := List.forall_mem_append.mpr ⟨h.before, fun v hv => h.final.trans (h'.before v hv)⟩
  after := List.forall_mem_append.mpr ⟨fun v hv =>
    ⟨(h.after v hv).1.trans h'.final, h'.final.ended (h.after v hv).2⟩, h'.after⟩
  between := List.pairwise_append.mpr ⟨h.between, h'.between, fun u hu v hv =>
    ⟨(h.after u hu).1.trans (h'.before v hv), (h'.before v hv).ended (h.after u hu).2⟩⟩

/-- One visit, to a thread that has not stopped. -/
theorem single (now : Float) {state : ThreadState} (hbefore : v.before = s.setState v.id .running)
    (hgrows : v.before.Grows new v.after) (hstate : s.state? v.id = some state)
    (hpending : state.isTerminal = false) :
    Lasts s [v] (v.after.settle now v.id v.outcome) := by
  have hrunning : v.before.state? v.id = some .running := by
    rw [hbefore, state?_setState, if_pos rfl, hstate]
    rfl
  have hfirst : s.Final v.before := .of_ne v.id (fun other hne => by
    rw [hbefore, state?_setState, if_neg hne]) hstate hpending
  obtain ⟨t, ht, hrun⟩ := state?_eq_some.mp hrunning
  obtain ⟨t', ht', hp⟩ := hgrows.thread?_old ht
  have hback : v.after.state? v.id = some .running :=
    state?_eq_some.mpr ⟨t', ht', hp.state.trans hrun⟩
  have hsettle : v.after.Final (v.after.settle now v.id v.outcome) :=
    .of_ne v.id (fun other hne => by rw [state?_settle, if_neg hne]) hback rfl
  have hlast : v.before.Final (v.after.settle now v.id v.outcome) := hgrows.final.trans hsettle
  refine ⟨hfirst.trans hlast, ?_, ?_, ?_, List.pairwise_singleton _ _⟩
  · exact List.forall_mem_singleton.mpr hrunning
  · exact List.forall_mem_singleton.mpr hfirst
  · refine List.forall_mem_singleton.mpr ⟨hlast, fun state hstopped => ?_⟩
    rw [state?_settle, if_pos rfl, hback, Option.map_some,
      Outcome.state_eq_of_last? hstopped]

/-- A thread that has stopped is not visited. -/
theorem id_ne (h : Lasts s visits s') {state : ThreadState} (hstate : s.state? id = some state)
    (hterminal : state.isTerminal = true) (hv : v ∈ visits) : v.id ≠ id := fun heq => by
  have hlast := h.before v hv id state hstate hterminal
  rw [← heq, h.running v hv] at hlast
  obtain rfl := Option.some.inj hlast
  cases hterminal

/-- While a thread is visited, the threads that had stopped in an earlier visit are as they were. -/
theorem between_meets (h : Lasts s visits s') :
    visits.Pairwise fun u v => ∀ m', v.Meets m' → Ended u m' ∧ ∀ m, u.Meets m →
      m.Final m' ∧ ∀ id state, m.state? id = some state → state.isTerminal = true → v.id ≠ id := by
  refine h.between.imp_of_mem fun {u v} _ hv hbetween m' hm' => ?_
  obtain ⟨hfinal, hended⟩ := hbetween
  obtain ⟨new', hgrows'⟩ := hm'
  refine ⟨hgrows'.final.ended hended, fun m hm => ?_⟩
  obtain ⟨new, hgrows⟩ := hm
  have hbefore : m.Final v.before := hgrows.final_before.trans hfinal
  refine ⟨hbefore.trans hgrows'.final, fun id state hstate hterminal heq => ?_⟩
  have hlast := hbefore id state hstate hterminal
  rw [← heq, h.running v hv] at hlast
  obtain rfl := Option.some.inj hlast
  cases hterminal

end Lasts

/-- Visits to different threads that have not stopped. -/
theorem Visits.lasts (h : Visits now s visits s') (hstarted : Started visits ids)
    (hnodup : (visits.map Visit.id).Nodup)
    (hpending : ∀ v ∈ visits, ∃ state, s.state? v.id = some state ∧ state.isTerminal = false) :
    Lasts s visits s' := by
  induction h generalizing ids with
  | nil => exact .of_final (.refl _)
  | @cons s s' v visits hbefore _ ih =>
    obtain ⟨first, rest, -, hgrows, hrest⟩ := hstarted
    rw [List.map_cons, List.nodup_cons] at hnodup
    obtain ⟨state, hstate, hnot⟩ := hpending v List.mem_cons_self
    refine (Lasts.single now hbefore hgrows hstate hnot).append
      (ih hrest hnodup.2 fun u hu => ?_)
    -- a thread that is still to be visited is in the same state after the first visit
    have hne : u.id ≠ v.id := fun heq => hnodup.1 (heq ▸ List.mem_map_of_mem hu)
    obtain ⟨state, hstate, hnot⟩ := hpending u (List.mem_cons_of_mem v hu)
    refine ⟨state, ?_, hnot⟩
    have hsame : v.before.state? u.id = some state := by
      rw [hbefore, state?_setState, if_neg hne, hstate]
    obtain ⟨t, ht, rfl⟩ := state?_eq_some.mp hsame
    obtain ⟨t', ht', hp⟩ := hgrows.thread?_old ht
    rw [state?_settle, if_neg hne]
    exact state?_eq_some.mpr ⟨t', ht', hp.state⟩

/-! ### Runs -/

theorem Step.lasts (hidle : s.Idle) (h : Step s e s') : Lasts s e.visits s' := by
  cases h with
  | start routine => exact .of_final (Grows.refl.spawn routine).final
  | collect held => exact .of_final (Grows.refl.collect held).final
  | take => exact .of_final (.refl s)
  | cancel => exact .of_final ((final_cancel hidle.pending).trans (final_reap _))
  | @tick σ resume now w w' visits ids answer s' h hstarted hholds =>
    obtain ⟨-, -, -, rfl, rfl⟩ | ⟨-, hanswers, -, t, hvisits, rfl⟩ := visits_of_tick h
    · exact .of_final (.refl _)
    have hcancel : Lasts s [] (s.cancelCollected now) :=
      .of_final (final_cancel fun id hid => hidle.pending id (List.mem_filter.mp hid).1)
    have hordered := hanswers.pairwise hidle.toSound
    have hlasts : Lasts (s.cancelCollected now) visits t := by
      refine hvisits.lasts hstarted (hordered.imp Nat.ne_of_lt) fun v hv => ?_
      -- what is due is not collected, so it is not among those that are cancelled
      have hdue := hanswers.due hidle.toSound hv
      have ⟨t₀, ht₀, hcollected, _⟩ := hdue
      obtain ⟨t₁, ht₁, -, -, hsame⟩ := thread?_cancelCollected now ht₀
      obtain rfl := hsame hcollected
      exact ⟨t₁.state, state?_of_thread? ht₁, hdue.isTerminal_eq_false ht₀⟩
    have hreaped := (hcancel.append hlasts).append (.of_final (final_reap t))
    rwa [List.nil_append, List.append_nil] at hreaped

/-- **What a run does to threads that have stopped**: nothing. -/
theorem Run.lasts (hidle : s.Idle) (h : Run s events s') :
    Lasts s (events.flatMap Event.visits) s' := by
  induction h with
  | nil => exact .of_final (.refl _)
  | @snoc events e s₁ s₂ hrun hstep ih =>
    rw [List.flatMap_append, List.flatMap_singleton]
    exact ih.append (hstep.lasts (hrun.idle hidle))

end Scheduler

end KeyLight
