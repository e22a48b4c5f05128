import KeyLight.Proofs.Scheduler.Cancelling
import KeyLight.Proofs.Scheduler.Leaving

/-!
# What a thread is resumed with

The first visit to a thread resumes it with the routine that it was started with, and each later one
with what it came back with from the visit before. Nothing else is ever handed over to it, whatever
other threads do in the meantime and whatever the host does when it is called back. `GoesOn` says so
of a row of visits, and `Course.goesOn` of the visits of a course; a thread may be started between
two ticks or in the middle of one (`Amid`).
-/

namespace KeyLight

/-- No other element of an increasing row has the same key. -/
theorem ne_of_increasing {α : Type} {key : α → Nat} {earlier later : List α} {a : α}
    (h : (earlier ++ a :: later).Pairwise fun x y => key x < key y) :
    ∀ x ∈ earlier ++ later, key x ≠ key a := by
  obtain ⟨-, hlater, hbefore⟩ := List.pairwise_append.mp h
  refine List.forall_mem_append.mpr ⟨fun x hx => ?_, fun x hx => ?_⟩
  · exact Nat.ne_of_lt (hbefore x hx a List.mem_cons_self)
  · exact Nat.ne_of_gt ((List.pairwise_cons.mp hlater).1 x hx)

theorem Outcome.isTerminal_state_of_rest? {ρ : Type} {o : Outcome ρ} (now : Float)
    (h : o.rest? = none) : (o.state now).isTerminal = true := by
  cases o with
  | finished | failed | stray => rfl
  | suspended => cases h

namespace Scheduler

variable {ρ : Type} {s s' s'' m m' : Scheduler ρ} {id : ThreadId} {now : Float} {v : Visit ρ}
  {visits visits' : List (Visit ρ)} {next next' last : Option ρ}

/-- Visits to one thread that go on from one another: each hands over what there is left to do, and
what it comes back with is left to do after it. -/
inductive GoesOn : Option ρ → List (Visit ρ) → Option ρ → Prop
  | nil {next : Option ρ} : GoesOn next [] next
  | cons {v : Visit ρ} {visits : List (Visit ρ)} {last : Option ρ}
      (h : GoesOn v.outcome.rest? visits last) : GoesOn (some v.routine) (v :: visits) last

/-- The visits to one thread. -/
def visitsTo (id : ThreadId) (visits : List (Visit ρ)) : List (Visit ρ) :=
  visits.filter fun v => v.id = id

/-- What leads from one scheduler to another is that `m` becomes `m'`, or it is a tick in which this
happens while a thread runs. The list is of the visits of the tick. -/
inductive Amid (m m' : Scheduler ρ) : Scheduler ρ → List (Visit ρ) → Scheduler ρ → Prop
  | between : Amid m m' m [] m'
  | during {σ : Type} {resume : Resume ρ σ} (hresume : resume.Disturbs) {now : Float} {w w' : σ}
      {earlier later : List (Visit ρ)} {v : Visit ρ} {answer : Except Violation TickSummary}
      {s s' : Scheduler ρ}
      (h : tick resume.recorded now (w, []) s = some (answer, (w', earlier ++ v :: later), s'))
      (hbefore : v.before.Disturbed m) (hafter : m'.Disturbed v.after) :
      Amid m m' s (earlier ++ v :: later) s'

theorem GoesOn.append (h : GoesOn next visits next') (h' : GoesOn next' visits' last) :
    GoesOn next (visits ++ visits') last := by
  induction h with
  | nil => exact h'
  | cons _ ih => exact .cons (ih h')

theorem visitsTo_append (id : ThreadId) (visits visits' : List (Visit ρ)) :
    visitsTo id (visits ++ visits') = visitsTo id visits ++ visitsTo id visits' :=
  List.filter_append ..

theorem visitsTo_eq_nil (h : ∀ v ∈ visits, v.id ≠ id) : visitsTo id visits = [] :=
  List.filter_eq_nil_iff.mpr fun v hv => by simpa using h v hv

/-! ### How many threads there are -/

theorem Disturbed.size_le (h : s.Disturbed s') : s.threads.size ≤ s'.threads.size := by
  induction h with
  | refl => exact Nat.le_refl _
  | grow _ hgrows ih => exact Nat.le_trans ih hgrows.numbered.le
  | take _ ih => exact ih
  | @cancel s' _ ih =>
    rw [cancelAll_eq, size_reap, size_updateAll]
    exact ih

theorem Visits.size_le (h : Visits now s visits s')
    (hd : ∀ v ∈ visits, v.before.Disturbed v.after) : s.threads.size ≤ s'.threads.size := by
  induction h with
  | nil => exact Nat.le_refl _
  | @cons s s' v visits hbefore _ ih =>
    obtain ⟨hv, hd⟩ := List.forall_mem_cons.mp hd
    have hfirst := hv.size_le
    have hrest := ih hd
    rw [hbefore, size_setState] at hfirst
    rw [size_settle] at hrest
    exact Nat.le_trans hfirst hrest

/-! ### Live threads in their order -/

/-- The live threads are among those that were started, and in the order of starting. -/
structure Listed (s : Scheduler ρ) : Prop where
  known : s.Known
  ordered : s.live.Pairwise (· < ·)

theorem listed_empty : (empty : Scheduler ρ).Listed := ⟨known_empty, .nil⟩

theorem Listed.congr (h : s.Listed) (hlive : s'.live = s.live)
    (hsize : s'.threads.size = s.threads.size) : s'.Listed :=
  ⟨h.known.congr hlive hsize, hlive ▸ h.ordered⟩

theorem Listed.reap (h : s.Listed) : s.reap.Listed := ⟨h.known.reap, h.ordered.filter _⟩

theorem Listed.grows {ids : List ThreadId} (h : s.Listed) (hgrows : s.Grows ids s') :
    s'.Listed where
  known := h.known.grows hgrows
  ordered := by
    rw [hgrows.live_eq, List.pairwise_append]
    refine ⟨h.ordered, hgrows.numbered.pairwise, fun old hold new hnew => ?_⟩
    exact Nat.lt_of_le_of_lt (h.known old hold).2 (hgrows.numbered.mem_iff.mp hnew).1

theorem Listed.disturbed (h : s.Listed) (hd : s.Disturbed s') : s'.Listed := by
  induction hd with
  | refl => exact h
  | grow _ hgrows ih => exact ih.grows hgrows
  | take _ ih => exact ⟨ih.known, ih.ordered⟩
  | cancel _ ih =>
    refine ⟨ih.known.disturbed (.cancel .refl), ?_⟩
    rw [live_cancelAll]
    exact .nil

theorem Visits.listed (hvisits : Visits now s visits s')
    (hd : ∀ v ∈ visits, v.before.Disturbed v.after) (h : s.Listed) : s'.Listed := by
  induction hvisits with
  | nil => exact h
  | @cons s s' v visits hbefore _ ih =>
    obtain ⟨hv, hd⟩ := List.forall_mem_cons.mp hd
    have hstart : v.before.Listed := by
      rw [hbefore]
      exact h.congr (live_setState ..) (size_setState ..)
    exact ih hd ((hstart.disturbed hv).congr (live_settle ..) (size_settle ..))

/-! ### Threads that are not visited -/

/-- What becomes of a thread that is not visited: nothing is left for it to do any more, or it is as
it was. -/
def Unvisited (s s' : Scheduler ρ) (id : ThreadId) : Prop :=
  ∀ t, s.thread? id = some t → ∃ t', s'.thread? id = some t' ∧
    (t'.routine = none ∨
      t'.routine = t.routine ∧ t'.state = t.state ∧ (id ∈ s.live → id ∈ s'.live))

protected theorem Unvisited.refl (s : Scheduler ρ) (id : ThreadId) : Unvisited s s id :=
  fun t ht => ⟨t, ht, .inr ⟨rfl, rfl, fun hid => hid⟩⟩

protected theorem Unvisited.trans (h : Unvisited s s' id) (h' : Unvisited s' s'' id) :
    Unvisited s s'' id := fun t ht => by
  obtain ⟨t', ht', hcases⟩ := h t ht
  obtain ⟨t'', ht'', hcases'⟩ := h' t' ht'
  refine ⟨t'', ht'', ?_⟩
  obtain hnone' | ⟨hroutine', hstate', hlive'⟩ := hcases'
  · exact .inl hnone'
  obtain hnone | ⟨hroutine, hstate, hlive⟩ := hcases
  · exact .inl (hroutine'.trans hnone)
  · exact .inr ⟨hroutine'.trans hroutine, hstate'.trans hstate, fun hid => hlive' (hlive hid)⟩

theorem unvisited_grows {ids : List ThreadId} (h : s.Grows ids s') (id : ThreadId) :
    Unvisited s s' id := fun t ht => by
  obtain ⟨t', ht', hp⟩ := h.thread?_old ht
  refine ⟨t', ht', .inr ⟨hp.routine, hp.state, fun hid => ?_⟩⟩
  rw [h.live_eq]
  exact List.mem_append_left ids hid

/-- Cancelling drops what the live threads have left to do. -/
theorem unvisited_cancelAll (s : Scheduler ρ) (id : ThreadId) :
    Unvisited s s.cancelAll.2 id := fun t ht => by
  have hcancel := thread?_updateAll (f := Thread.cancel) (fun _ => rfl) s s.live id
  rw [ht] at hcancel
  rw [cancelAll_eq, thread?_reap, live_updateAll]
  by_cases hlive : id ∈ s.live
  · rw [if_pos hlive] at hcancel
    have hdone : id ∈ s.live.filter (s.updateAll s.live Thread.cancel).isDone := by
      refine List.mem_filter.mpr ⟨hlive, ?_⟩
      rw [isDone_of_thread? hcancel]
      exact Bool.or_true _
    rw [if_pos hdone, hcancel]
    exact ⟨_, rfl, .inl rfl⟩
  · rw [if_neg hlive] at hcancel
    rw [if_neg fun hid => hlive (List.mem_filter.mp hid).1, hcancel]
    exact ⟨t, rfl, .inr ⟨rfl, rfl, fun hid => absurd hid hlive⟩⟩

theorem Disturbed.unvisited (h : s.Disturbed s') (id : ThreadId) : Unvisited s s' id := by
  induction h with
  | refl => exact .refl s id
  | grow _ hgrows ih => exact ih.trans (unvisited_grows hgrows id)
  | take _ ih => exact ih
  | cancel _ ih => exact ih.trans (unvisited_cancelAll _ id)

theorem Unvisited.settle (h : Unvisited s s' id) (hid : id ≠ v.id) :
    Unvisited s (s'.settle now v.id v.outcome) id := fun t ht => by
  obtain ⟨t', ht', hcases⟩ := h t ht
  refine ⟨t', ?_, ?_⟩
  · rw [thread?_settle, if_neg hid, ht']
  · rwa [live_settle]

/-- Visits to others leave a thread unvisited. -/
theorem Visits.unvisited (hvisits : Visits now s visits s')
    (hd : ∀ v ∈ visits, v.before.Disturbed v.after) (hid : ∀ v ∈ visits, v.id ≠ id) :
    Unvisited s s' id := by
  induction hvisits with
  | nil => exact .refl _ id
  | @cons s s' v visits hbefore _ ih =>
    obtain ⟨hv, hd⟩ := List.forall_mem_cons.mp hd
    obtain ⟨hne, hid⟩ := List.forall_mem_cons.mp hid
    have hrunning : Unvisited s v.before id := fun t ht => by
      refine ⟨t, ?_, .inr ⟨rfl, rfl, fun hlive => ?_⟩⟩
      · rw [hbefore, thread?_setState, if_neg hne.symm, ht]
      · rwa [hbefore, live_setState]
    exact ((hrunning.trans (hv.unvisited id)).settle hne.symm).trans (ih hd hid)

/-- The visits before a visit start threads, and it and the visits after it leave others
unvisited. -/
theorem Visits.around {earlier later : List (Visit ρ)}
    (h : Visits now s (earlier ++ v :: later) s')
    (hd : ∀ u ∈ earlier ++ v :: later, u.before.Disturbed u.after) :
    s.threads.size ≤ v.before.threads.size ∧
      ∀ id, (∀ u ∈ v :: later, u.id ≠ id) → Unvisited v.after s' id := by
  obtain ⟨hearlier, hd⟩ := List.forall_mem_append.mp hd
  obtain ⟨-, hlater⟩ := List.forall_mem_cons.mp hd
  obtain ⟨m, hfirst, hrest⟩ := h.of_append
  cases hrest with
  | cons hrunning hrest =>
    refine ⟨?_, fun id hid => ?_⟩
    · rw [hrunning, size_setState]
      exact hfirst.size_le hearlier
    · obtain ⟨hv, hid⟩ := List.forall_mem_cons.mp hid
      exact ((Unvisited.refl v.after id).settle hv.symm).trans (hrest.unvisited hlater hid)

theorem Spent.unvisited {P : ρ → Prop} (hspent : s.Spent P id) (hpos : 0 < id)
    (h : Unvisited s s' id) : s'.Spent P id := by
  obtain ⟨t, ht⟩ := exists_thread? hpos hspent.le
  obtain ⟨t', ht', hcases⟩ := h t ht
  refine ⟨le_size_of_thread? ht', fun u rest hu hrest => ?_⟩
  obtain rfl : t' = u := Option.some.inj (ht'.symm.trans hu)
  obtain hnone | ⟨hsame, -⟩ := hcases
  · rw [hnone] at hrest
    cases hrest
  · exact hspent.routine t rest ht (hsame ▸ hrest)

/-! ### Threads that are visited -/

/-- A thread that is live, or for which nothing is left to do. -/
def Kept (s : Scheduler ρ) (id : ThreadId) : Prop :=
  ∃ t, s.thread? id = some t ∧ (t.routine = none ∨ id ∈ s.live)

theorem Kept.unvisited (hkept : s.Kept id) (h : Unvisited s s' id) : s'.Kept id := by
  obtain ⟨t, ht, hroutine⟩ := hkept
  obtain ⟨t', ht', hcases⟩ := h t ht
  refine ⟨t', ht', ?_⟩
  obtain hnone | ⟨hsame, -, hlive⟩ := hcases
  · exact .inl hnone
  · exact hroutine.imp hsame.trans hlive

theorem Kept.setState (hkept : s.Kept id) (state : ThreadState) : (s.setState id state).Kept id := by
  obtain ⟨t, ht, hroutine⟩ := hkept
  refine ⟨{ t with state }, ?_, ?_⟩
  · rw [thread?_setState, if_pos rfl, ht]
    rfl
  · rwa [live_setState]

/-- A thread that comes back has nothing left to do after the tick but what it came back with, if it
is not visited again. -/
theorem Kept.spent (hkept : v.after.Kept v.id)
    (h : Unvisited (v.after.settle now v.id v.outcome) s' v.id) :
    s'.reap.Spent (fun rest => v.outcome.rest? = some rest) v.id := by
  obtain ⟨t, ht, hcases⟩ := hkept
  have hsettled : (v.after.settle now v.id v.outcome).thread? v.id = some { t with
      state := v.outcome.state now
      routine := v.outcome.rest?.or t.routine } := by
    rw [thread?_settle, if_pos rfl, ht]
    rfl
  obtain ⟨t', ht', hcases'⟩ := h _ hsettled
  refine ⟨by rw [size_reap]; exact le_size_of_thread? ht', fun u rest hu hrest => ?_⟩
  rw [thread?_reap, ht'] at hu
  split at hu
  · obtain rfl := Option.some.inj hu
    cases hrest
  · rename_i hnot
    obtain rfl := Option.some.inj hu
    obtain hnone | ⟨hroutine, hstate, hlive⟩ := hcases'
    · rw [hnone] at hrest
      cases hrest
    obtain hnew | ⟨hstopped, hold⟩ := Option.or_eq_some_iff.mp (hroutine.symm.trans hrest)
    · exact hnew
    -- what a thread that stopped had left to do is dropped, as the thread was live
    obtain hnone | hlived := hcases
    · rw [hnone] at hold
      cases hold
    refine absurd (List.mem_filter.mpr ⟨hlive ?_, ?_⟩) hnot
    · rwa [live_settle]
    · rw [isDone_of_thread? ht', hstate, Outcome.isTerminal_state_of_rest? _ hstopped]
      exact Bool.or_true _

/-- A thread that is visited once in a tick has nothing left to do after it but what it came back
with. -/
theorem Visits.spent {earlier later : List (Visit ρ)}
    (h : Visits now s (earlier ++ v :: later) s')
    (hd : ∀ u ∈ earlier ++ v :: later, u.before.Disturbed u.after)
    (honce : ∀ u ∈ earlier ++ later, u.id ≠ v.id) (hkept : s.Kept v.id) :
    s'.reap.Spent (fun rest => v.outcome.rest? = some rest) v.id := by
  obtain ⟨hearlier, hd⟩ := List.forall_mem_append.mp hd
  obtain ⟨hv, hlater⟩ := List.forall_mem_cons.mp hd
  obtain ⟨hbefore, hafter⟩ := List.forall_mem_append.mp honce
  obtain ⟨m, hfirst, hrest⟩ := h.of_append
  cases hrest with
  | cons hrunning hrest =>
    have hstart : v.before.Kept v.id := by
      rw [hrunning]
      exact (hkept.unvisited (hfirst.unvisited hearlier hbefore)).setState .running
    exact (hstart.unvisited (hv.unvisited v.id)).spent (hrest.unvisited hlater hafter)

/-! ### Ticks -/

section tick

variable {σ : Type} {resume : Resume ρ σ} {w w' : σ} {answer : Except Violation TickSummary}

/-- The threads of an agenda are live, and in the order of starting. -/
theorem Listed.pairwise_agenda (hlisted : s.Listed) (now : Float) :
    (s.agenda now).Pairwise fun a b => a.1 < b.1 := by
  refine (hlisted.ordered.filter _).filterMap _ fun i j hlt a ha b hb => ?_
  obtain ⟨_, -, rfl⟩ := Option.map_eq_some_iff.mp ha
  obtain ⟨_, -, rfl⟩ := Option.map_eq_some_iff.mp hb
  exact hlt

/-- The visits of a tick are in the order of starting. -/
theorem Answers.increasing {n : TickSummary} (h : Answers (s.agenda now) n visits answer)
    (hlisted : s.Listed) : visits.Pairwise fun u v => u.id < v.id := by
  obtain ⟨rest, hagenda⟩ := h.exists_agenda_eq
  have hordered := hlisted.pairwise_agenda now
  rw [hagenda, List.pairwise_append, List.pairwise_map] at hordered
  exact hordered.1

/-- No thread is visited twice in a tick. -/
theorem Answers.exists_split {n : TickSummary} (h : Answers (s.agenda now) n visits answer)
    (hlisted : s.Listed) (hv : v ∈ visits) :
    ∃ earlier later, visits = earlier ++ v :: later ∧ ∀ u ∈ earlier ++ later, u.id ≠ v.id := by
  have hordered := h.increasing hlisted
  obtain ⟨earlier, later, rfl⟩ := List.append_of_mem hv
  exact ⟨earlier, later, rfl, ne_of_increasing hordered⟩

/-- **What a thread is resumed with in a tick** is what it had left to do before. -/
theorem goesOn_of_tick (hresume : resume.Disturbs) (hlisted : s.Listed) (hpos : 0 < id)
    (hspent : s.Spent (fun rest => next = some rest) id)
    (h : tick resume.recorded now (w, []) s = some (answer, (w', visits), s')) :
    ∃ last, GoesOn next (visitsTo id visits) last ∧
      s'.Spent (fun rest => last = some rest) id := by
  obtain ⟨-, -, -, rfl, rfl⟩ | ⟨-, hanswers, hpaid, t, hvisits, rfl⟩ := visits_of_tick h
  · exact ⟨next, .nil, hspent⟩
  have hd : ∀ u ∈ visits, u.before.Disturbed u.after := fun u hu =>
    disturbed_of_paidBy hresume (hpaid u hu)
  by_cases hvisited : ∃ v ∈ visits, v.id = id
  · obtain ⟨v, hv, rfl⟩ := hvisited
    have htask := hanswers.mem_agenda hv
    obtain ⟨t₀, ht₀, hroutine⟩ := routine_of_mem_agenda htask
    obtain ⟨t₁, ht₁, -⟩ := thread?_cancelCollected now ht₀
    have hkept : (s.cancelCollected now).Kept v.id := by
      refine ⟨t₁, ht₁, .inr ?_⟩
      rw [live_cancelCollected]
      exact mem_live_of_mem_agenda htask
    obtain ⟨earlier, later, rfl, honce⟩ := hanswers.exists_split hlisted hv
    obtain ⟨hearlier, hlater⟩ := List.forall_mem_append.mp honce
    have hto : visitsTo v.id (earlier ++ v :: later) = [v] := by
      rw [visitsTo_append, visitsTo_eq_nil hearlier, List.nil_append, visitsTo,
        List.filter_cons_of_pos (by simp)]
      exact congrArg _ (visitsTo_eq_nil hlater)
    rw [hto, hspent.routine t₀ v.routine ht₀ hroutine]
    exact ⟨v.outcome.rest?, .cons .nil, hvisits.spent hd honce hkept⟩
  · have hne : ∀ v ∈ visits, v.id ≠ id := fun v hv hid => hvisited ⟨v, hv, hid⟩
    have hcancelled : (s.cancelCollected now).Spent (fun rest => next = some rest) id := by
      rw [cancelCollected_eq]
      exact hspent.cancel _
    rw [visitsTo_eq_nil hne]
    exact ⟨next, .nil, (hcancelled.unvisited hpos (hvisits.unvisited hd hne)).reap⟩

/-- What a tick leaves of the order and the number of the threads. -/
theorem listed_of_tick (hresume : resume.Disturbs) (hlisted : s.Listed)
    (h : tick resume.recorded now (w, []) s = some (answer, (w', visits), s')) :
    s'.Listed ∧ s.threads.size ≤ s'.threads.size ∧ ∀ v ∈ visits, v.id ≤ s.threads.size := by
  obtain ⟨-, -, -, rfl, rfl⟩ | ⟨-, hanswers, hpaid, t, hvisits, rfl⟩ := visits_of_tick h
  · exact ⟨hlisted, Nat.le_refl _, fun _ hv => absurd hv List.not_mem_nil⟩
  have hd : ∀ u ∈ visits, u.before.Disturbed u.after := fun u hu =>
    disturbed_of_paidBy hresume (hpaid u hu)
  have hcancelled : (s.cancelCollected now).Listed :=
    hlisted.congr (live_cancelCollected s now) (size_cancelCollected s now)
  refine ⟨(hvisits.listed hd hcancelled).reap, ?_, fun v hv => ?_⟩
  · rw [size_reap, ← size_cancelCollected s now]
    exact hvisits.size_le hd
  · exact (hlisted.known v.id (mem_live_of_mem_agenda (hanswers.mem_agenda hv))).2

end tick

/-! ### Courses -/

theorem Course.listed (h : Course s visits s') (hlisted : s.Listed) :
    s'.Listed ∧ s.threads.size ≤ s'.threads.size ∧ ∀ v ∈ visits, v.id ≤ s'.threads.size := by
  induction h with
  | nil => exact ⟨hlisted, Nat.le_refl _, fun _ hv => absurd hv List.not_mem_nil⟩
  | disturb _ hd ih =>
    obtain ⟨hlisted', hsize, hvisits⟩ := ih
    exact ⟨hlisted'.disturbed hd, Nat.le_trans hsize hd.size_le,
      fun v hv => Nat.le_trans (hvisits v hv) hd.size_le⟩
  | tick hresume _ htick ih =>
    obtain ⟨hlisted', hsize, hvisits⟩ := ih
    obtain ⟨hlisted'', hsize', hmore⟩ := listed_of_tick hresume hlisted' htick
    exact ⟨hlisted'', Nat.le_trans hsize hsize', List.forall_mem_append.mpr
      ⟨fun v hv => Nat.le_trans (hvisits v hv) hsize', fun v hv => Nat.le_trans (hmore v hv) hsize'⟩⟩

/-- **What a thread is resumed with in a course**: what it had left to do at first, and then what it
came back with from the visit before. -/
theorem Course.goesOn (hlisted : s.Listed) (h : Course s visits s') (hpos : 0 < id)
    (hspent : s.Spent (fun rest => next = some rest) id) :
    ∃ last, GoesOn next (visitsTo id visits) last ∧
      s'.Spent (fun rest => last = some rest) id := by
  induction h with
  | nil => exact ⟨next, .nil, hspent⟩
  | disturb _ hd ih =>
    obtain ⟨last, hgoes, hspent'⟩ := ih
    exact ⟨last, hgoes, hspent'.unvisited hpos (hd.unvisited id)⟩
  | tick hresume h htick ih =>
    obtain ⟨middle, hgoes, hspent'⟩ := ih
    obtain ⟨last, hmore, hspent''⟩ :=
      goesOn_of_tick hresume (h.listed hlisted).1 hpos hspent' htick
    rw [visitsTo_append]
    exact ⟨last, hgoes.append hmore, hspent''⟩

/-! ### Threads that are started -/

/-- A new thread has nothing left to do but its routine. -/
theorem spent_spawn (m : Scheduler ρ) (routine : ρ) :
    (m.spawn routine).2.Spent (fun rest => some routine = some rest) (m.spawn routine).1 where
  le := Nat.le_of_eq (Array.size_push _).symm
  routine := fun t rest ht hrest => by
    have hnew := (thread?_spawn m routine (m.spawn routine).1).trans (if_pos rfl)
    obtain rfl := Option.some.inj (hnew.symm.trans ht)
    exact hrest

/-- A thread that is started, in whatever is going on, is not visited in it, and after it the thread
has nothing left to do but its routine. -/
theorem Amid.started {routine : ρ} (hlisted : s.Listed)
    (h : Amid m (m.spawn routine).2 s visits s') :
    (∀ v ∈ visits, v.id ≠ (m.spawn routine).1) ∧ s.threads.size < (m.spawn routine).1 ∧
      s'.Listed ∧ s'.Spent (fun rest => some routine = some rest) (m.spawn routine).1 := by
  cases h with
  | between =>
    refine ⟨fun _ hv => absurd hv List.not_mem_nil, Nat.lt_succ_self _, ?_, spent_spawn s routine⟩
    exact hlisted.grows (.spawn .refl routine)
  | @during σ resume hresume now w w' earlier later v answer s s' h hbefore hafter =>
    obtain ⟨hlisted', -, hold⟩ := listed_of_tick hresume hlisted h
    obtain ⟨-, -, -, hnone, -⟩ | ⟨-, -, hpaid, t, hvisits, rfl⟩ := visits_of_tick h
    · simp at hnone
    have hd : ∀ u ∈ earlier ++ v :: later, u.before.Disturbed u.after := fun u hu =>
      disturbed_of_paidBy hresume (hpaid u hu)
    obtain ⟨hfirst, hrest⟩ := hvisits.around hd
    rw [size_cancelCollected] at hfirst
    have hnew : s.threads.size < (m.spawn routine).1 :=
      Nat.lt_succ_of_le (Nat.le_trans hfirst hbefore.size_le)
    have hne : ∀ u ∈ earlier ++ v :: later, u.id ≠ (m.spawn routine).1 := fun u hu =>
      Nat.ne_of_lt (Nat.lt_of_le_of_lt (hold u hu) hnew)
    have hback := (hafter.unvisited _).trans (hrest _ (List.forall_mem_append.mp hne).2)
    exact ⟨hne, hnew, hlisted', ((spent_spawn m routine).unvisited (Nat.succ_pos _) hback).reap⟩

/-- **What a thread is resumed with.** No visit is paid to it before it is started or in the tick in
which it is, and the later ones go on from one another, beginning with its routine. -/
theorem Amid.goesOn {routine : ρ} {past more : List (Visit ρ)} (hpast : Course empty past s)
    (h : Amid m (m.spawn routine).2 s visits s') (hmore : Course s' more s'') :
    (∀ v ∈ past ++ visits, v.id ≠ (m.spawn routine).1) ∧
      ∃ last, GoesOn (some routine) (visitsTo (m.spawn routine).1 more) last := by
  obtain ⟨hlisted, -, hearlier⟩ := hpast.listed listed_empty
  obtain ⟨hvisits, hnew, hlisted', hspent⟩ := h.started hlisted
  refine ⟨List.forall_mem_append.mpr ⟨fun v hv => ?_, hvisits⟩, ?_⟩
  · exact Nat.ne_of_lt (Nat.lt_of_le_of_lt (hearlier v hv) hnew)
  · obtain ⟨last, hgoes, -⟩ := hmore.goesOn hlisted' (Nat.succ_pos _) hspent
    exact ⟨last, hgoes⟩

end Scheduler

end KeyLight
