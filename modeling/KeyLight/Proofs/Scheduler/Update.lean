import KeyLight.Scheduler.Tick

/-!
# Updates of many threads

Cancelling, collecting and dropping all change some threads in the same way and leave the others
alone. `Scheduler.updateAll` is that operation, `thread?_updateAll` says what it does to one thread,
and the operations of the scheduler are instances of it (`reap_eq`, `collect_eq`, `cancelAll_eq`,
`cancelCollected_eq`). From these equations follows what each operation does to a thread, which is
all that later modules use.
-/

namespace KeyLight

/-- A thread marked as one whose handle is collected. -/
def Thread.collect {ρ : Type} (t : Thread ρ) : Thread ρ := { t with collected := true }

/-- A thread that is cancelled. -/
def Thread.cancel {ρ : Type} (t : Thread ρ) : Thread ρ := { t with state := .cancelled }

/-- A thread without its routine. -/
def Thread.forget {ρ : Type} (t : Thread ρ) : Thread ρ := { t with routine := none }

namespace Scheduler

variable {ρ : Type} {s : Scheduler ρ} {f : Thread ρ → Thread ρ} {id other : ThreadId}

/-! ### Which threads there are -/

theorem thread?_isSome : (s.thread? id).isSome ↔ 0 < id ∧ id ≤ s.threads.size := by
  unfold thread?
  split <;> rename_i h
  · simp [h]
  · have hpos : 0 < id := Nat.pos_of_ne_zero h
    simp only [Option.isSome_iff_exists, Array.getElem?_eq_some_iff]
    constructor
    · rintro ⟨_, hlt, -⟩
      exact ⟨hpos, Nat.le_of_pred_lt hlt⟩
    · rintro ⟨-, hle⟩
      exact ⟨_, Nat.sub_one_lt_of_le hpos hle, rfl⟩

theorem pos_of_thread? {t : Thread ρ} (h : s.thread? id = some t) : 0 < id :=
  (thread?_isSome.mp (Option.isSome_of_eq_some h)).1

theorem le_size_of_thread? {t : Thread ρ} (h : s.thread? id = some t) : id ≤ s.threads.size :=
  (thread?_isSome.mp (Option.isSome_of_eq_some h)).2

theorem exists_thread? (hpos : 0 < id) (hle : id ≤ s.threads.size) :
    ∃ t, s.thread? id = some t :=
  Option.isSome_iff_exists.mp (thread?_isSome.mpr ⟨hpos, hle⟩)

theorem state?_eq_some {state : ThreadState} :
    s.state? id = some state ↔ ∃ t, s.thread? id = some t ∧ t.state = state := by
  simp [state?]

theorem state?_of_thread? {t : Thread ρ} (h : s.thread? id = some t) :
    s.state? id = some t.state := by
  simp [state?, h]

theorem isCollected_of_thread? {t : Thread ρ} (h : s.thread? id = some t) :
    s.isCollected id = t.collected := by
  simp [isCollected, h]

/-! ### Starting a thread -/

/-- A new thread is ready, and the others are as they were. -/
theorem thread?_spawn (s : Scheduler ρ) (routine : ρ) (id : ThreadId) :
    (s.spawn routine).2.thread? id =
      if id = s.threads.size + 1 then some ⟨.ready, some routine, false⟩ else s.thread? id := by
  by_cases h0 : id = 0
  · simp [thread?, h0]
  · have hlast : id - 1 = s.threads.size ↔ id = s.threads.size + 1 :=
      ⟨fun h => by rw [← h, Nat.sub_one_add_one h0], fun h => by rw [h, Nat.add_sub_cancel]⟩
    simp only [spawn, thread?, h0, if_false, Array.getElem?_push, hlast]

/-- A new thread has a handle. -/
theorem isCollected_spawn (s : Scheduler ρ) (routine : ρ) (id : ThreadId) :
    (s.spawn routine).2.isCollected id = s.isCollected id := by
  simp only [isCollected, thread?_spawn]
  by_cases hnew : id = s.threads.size + 1
  · have hnone : s.thread? id = none := by
      rw [← Option.not_isSome_iff_eq_none, thread?_isSome]
      rintro ⟨-, hle⟩
      exact Nat.not_succ_le_self _ (hnew ▸ hle)
    rw [if_pos hnew, hnone]
  · rw [if_neg hnew]

/-! ### Changing many threads -/

@[simp] theorem size_update (s : Scheduler ρ) (id : ThreadId) (f : Thread ρ → Thread ρ) :
    (s.update id f).threads.size = s.threads.size := by
  unfold update; split <;> simp

/-- A change of anything else leaves the handles as they are. -/
theorem isCollected_update (hf : ∀ t, (f t).collected = t.collected) (s : Scheduler ρ)
    (id other : ThreadId) : (s.update id f).isCollected other = s.isCollected other := by
  unfold isCollected
  rw [thread?_update]
  by_cases hid : other = id
  · rw [if_pos hid, hid]
    cases s.thread? id with
    | none => rfl
    | some t => exact hf t
  · rw [if_neg hid]

/-- Changes the threads of a list, one after the other. -/
def updateAll (s : Scheduler ρ) (ids : List ThreadId) (f : Thread ρ → Thread ρ) : Scheduler ρ :=
  ids.foldl (fun s id => s.update id f) s

@[simp] theorem live_updateAll (s : Scheduler ρ) (ids : List ThreadId) (f : Thread ρ → Thread ρ) :
    (s.updateAll ids f).live = s.live := by
  induction ids generalizing s with
  | nil => rfl
  | cons id ids ih => exact (ih (s.update id f)).trans (live_update s id f)

@[simp] theorem failures_updateAll (s : Scheduler ρ) (ids : List ThreadId)
    (f : Thread ρ → Thread ρ) : (s.updateAll ids f).failures = s.failures := by
  induction ids generalizing s with
  | nil => rfl
  | cons id ids ih => exact (ih (s.update id f)).trans (failures_update s id f)

@[simp] theorem poison_updateAll (s : Scheduler ρ) (ids : List ThreadId)
    (f : Thread ρ → Thread ρ) : (s.updateAll ids f).poison = s.poison := by
  induction ids generalizing s with
  | nil => rfl
  | cons id ids ih => exact (ih (s.update id f)).trans (poison_update s id f)

@[simp] theorem size_updateAll (s : Scheduler ρ) (ids : List ThreadId) (f : Thread ρ → Thread ρ) :
    (s.updateAll ids f).threads.size = s.threads.size := by
  induction ids generalizing s with
  | nil => rfl
  | cons id ids ih => exact (ih (s.update id f)).trans (size_update s id f)

theorem isCollected_updateAll (hf : ∀ t, (f t).collected = t.collected) (s : Scheduler ρ)
    (ids : List ThreadId) (id : ThreadId) :
    (s.updateAll ids f).isCollected id = s.isCollected id := by
  induction ids generalizing s with
  | nil => rfl
  | cons first ids ih => exact (ih (s.update first f)).trans (isCollected_update hf s first id)

/-- A change that does nothing the second time happens to the threads of the list and to no
other. -/
theorem thread?_updateAll (hf : ∀ t, f (f t) = f t) (s : Scheduler ρ) (ids : List ThreadId)
    (id : ThreadId) :
    (s.updateAll ids f).thread? id =
      if id ∈ ids then (s.thread? id).map f else s.thread? id := by
  induction ids generalizing s with
  | nil => simp [updateAll]
  | cons first ids ih =>
    have hstep : s.updateAll (first :: ids) f = (s.update first f).updateAll ids f := rfl
    rw [hstep, ih, thread?_update]
    -- the first thread may stand in the list once more, and is then changed twice
    by_cases hfirst : id = first
    · subst hfirst
      by_cases hmem : id ∈ ids <;> simp [hmem, Function.comp_def, hf]
    · simp [hfirst]

/-- After some threads are cancelled, a thread is as it was or is one of these. -/
theorem thread?_of_cancel {ids : List ThreadId} {t' : Thread ρ}
    (h : (s.updateAll ids Thread.cancel).thread? id = some t') :
    ∃ t, s.thread? id = some t ∧ (t' = t ∨ t' = t.cancel) := by
  rw [thread?_updateAll (f := Thread.cancel) fun _ => rfl] at h
  split at h
  · obtain ⟨t, ht, rfl⟩ := Option.map_eq_some_iff.mp h
    exact ⟨t, ht, .inr rfl⟩
  · exact ⟨t', h, .inl rfl⟩

/-! ### The operations of the scheduler -/

theorem reap_eq (s : Scheduler ρ) :
    s.reap = { s.updateAll (s.live.filter s.isDone) Thread.forget with
      live := s.live.filter fun id => !s.isDone id } := rfl

@[simp] theorem live_reap (s : Scheduler ρ) :
    s.reap.live = s.live.filter fun id => !s.isDone id := rfl

@[simp] theorem failures_reap (s : Scheduler ρ) : s.reap.failures = s.failures := by
  rw [reap_eq]; exact failures_updateAll ..

@[simp] theorem poison_reap (s : Scheduler ρ) : s.reap.poison = s.poison := by
  rw [reap_eq]; exact poison_updateAll ..

@[simp] theorem size_reap (s : Scheduler ρ) : s.reap.threads.size = s.threads.size := by
  rw [reap_eq]; exact size_updateAll ..

/-- Dropping takes the routine from the threads that are done. -/
theorem thread?_reap (s : Scheduler ρ) (id : ThreadId) :
    s.reap.thread? id =
      if id ∈ s.live.filter s.isDone then (s.thread? id).map Thread.forget else s.thread? id := by
  rw [reap_eq]
  exact thread?_updateAll (f := Thread.forget) (fun _ => rfl) s _ id

@[simp] theorem state?_reap (s : Scheduler ρ) (id : ThreadId) : s.reap.state? id = s.state? id := by
  unfold state?
  rw [thread?_reap]
  split
  · simp [Function.comp_def, Thread.forget]
  · rfl

@[simp] theorem isCollected_reap (s : Scheduler ρ) (id : ThreadId) :
    s.reap.isCollected id = s.isCollected id := by
  rw [reap_eq]
  exact isCollected_updateAll (f := Thread.forget) (fun _ => rfl) s _ id

theorem collect_eq (s : Scheduler ρ) (held : ThreadId → Bool) :
    s.collect held = s.updateAll (s.live.filter fun id => !held id) Thread.collect := by
  unfold collect updateAll
  rw [List.foldl_filter]
  congr
  funext s id
  cases held id <;> rfl

/-- A collection marks the live threads that are not held. -/
theorem thread?_collect (s : Scheduler ρ) (held : ThreadId → Bool) (id : ThreadId) :
    (s.collect held).thread? id =
      if id ∈ s.live ∧ held id = false then (s.thread? id).map Thread.collect
      else s.thread? id := by
  rw [collect_eq, thread?_updateAll (f := Thread.collect) fun _ => rfl]
  simp

@[simp] theorem live_collect (s : Scheduler ρ) (held : ThreadId → Bool) :
    (s.collect held).live = s.live := by
  rw [collect_eq, live_updateAll]

@[simp] theorem failures_collect (s : Scheduler ρ) (held : ThreadId → Bool) :
    (s.collect held).failures = s.failures := by
  rw [collect_eq, failures_updateAll]

@[simp] theorem poison_collect (s : Scheduler ρ) (held : ThreadId → Bool) :
    (s.collect held).poison = s.poison := by
  rw [collect_eq, poison_updateAll]

@[simp] theorem size_collect (s : Scheduler ρ) (held : ThreadId → Bool) :
    (s.collect held).threads.size = s.threads.size := by
  rw [collect_eq, size_updateAll]

theorem cancelAll_eq (s : Scheduler ρ) :
    s.cancelAll = (s.live.length, (s.updateAll s.live Thread.cancel).reap) := rfl

theorem cancelCollected_eq (s : Scheduler ρ) (now : Float) :
    s.cancelCollected now =
      s.updateAll (s.live.filter fun id => s.isDue now id && s.isCollected id) Thread.cancel := rfl

end Scheduler

end KeyLight
