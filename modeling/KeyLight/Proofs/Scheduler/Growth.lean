import KeyLight.Proofs.Scheduler.Update

/-!
# What running code does to the scheduler

Code that runs inside an environment can start threads, and while it runs handles may be collected.
`Scheduler.Grows s ids s'` says that this is all that happened between `s` and `s'`, and that the
threads started were given the numbers `ids`, in this order. The numbers follow those given out
before (`Grows.numbered`), the threads that were there persist (`Grows.thread?_old`), and the new
ones are ready (`Grows.thread?_new`).

`Resume.StartsOnly` is the promise of a resumed thread to keep to this: no call comes back to the
host that would cancel threads or take failures in the middle of a tick.
-/

namespace KeyLight

variable {ρ σ : Type}

/-- A thread as it was before, but that its handle may have been collected in the meantime. -/
structure Thread.Persists (t t' : Thread ρ) : Prop where
  state : t'.state = t.state
  routine : t'.routine = t.routine
  collected : t.collected = true → t'.collected = true

theorem Thread.Persists.refl (t : Thread ρ) : t.Persists t := ⟨rfl, rfl, id⟩

theorem Thread.Persists.trans {t₁ t₂ t₃ : Thread ρ} (h₁ : t₁.Persists t₂) (h₂ : t₂.Persists t₃) :
    t₁.Persists t₃ :=
  ⟨h₂.state.trans h₁.state, h₂.routine.trans h₁.routine, h₂.collected ∘ h₁.collected⟩

/-- A thread that is not resumed: its state is as it was before, unless its handle is collected. -/
structure Thread.Rests (t t' : Thread ρ) : Prop where
  collected : t.collected = true → t'.collected = true
  state : t'.collected = false → t'.state = t.state

theorem Thread.Rests.persists {t₁ t₂ t₃ : Thread ρ} (h₁ : t₁.Rests t₂) (h₂ : t₂.Persists t₃) :
    t₁.Rests t₃ where
  collected := h₂.collected ∘ h₁.collected
  state := fun h => by
    have hnot : t₂.collected = false := by
      cases hcollected : t₂.collected with
      | false => rfl
      | true => rw [h₂.collected hcollected] at h; cases h
    exact h₂.state.trans (h₁.state hnot)

theorem Thread.Rests.congr {t₁ t₂ t₃ : Thread ρ} (h : t₁.Rests t₂) (hstate : t₃.state = t₂.state)
    (hcollected : t₃.collected = t₂.collected) : t₁.Rests t₃ where
  collected := fun h₁ => hcollected.trans (h.collected h₁)
  state := fun h₃ => hstate.trans (h.state (hcollected.symm.trans h₃))

/-- The numbers after one number up to another, in order. -/
structure Numbered (n : Nat) (ids : List ThreadId) (m : Nat) : Prop where
  le : n ≤ m
  eq : ids = List.range' (n + 1) (m - n)

namespace Numbered

variable {n m k : Nat} {ids ids' : List ThreadId} {id : ThreadId}

protected theorem refl (n : Nat) : Numbered n [] n :=
  ⟨Nat.le_refl n, by rw [Nat.sub_self, List.range'_zero]⟩

theorem single (n : Nat) : Numbered n [n + 1] (n + 1) :=
  ⟨Nat.le_succ n, by rw [Nat.add_sub_cancel_left, List.range'_one]⟩

theorem append (h : Numbered n ids m) (h' : Numbered m ids' k) : Numbered n (ids ++ ids') k where
  le := Nat.le_trans h.le h'.le
  eq := by
    have hle := h.le
    have hle' := h'.le
    have hnext : m + 1 = n + 1 + (m - n) := by omega
    have hlength : k - n = m - n + (k - m) := by omega
    rw [h.eq, h'.eq, hnext, List.range'_append_1, hlength]

theorem mem_iff (h : Numbered n ids m) : id ∈ ids ↔ n < id ∧ id ≤ m := by
  rw [h.eq, List.mem_range'_1, Nat.add_right_comm, Nat.add_sub_of_le h.le]
  rw [Nat.succ_le_iff, Nat.lt_succ_iff]

theorem pairwise (h : Numbered n ids m) : ids.Pairwise (· < ·) := by
  rw [h.eq]
  exact List.pairwise_lt_range'

end Numbered

namespace Scheduler

/-- What running code may do: start threads, one after the other, while handles are collected. The
list is of the numbers given to the new threads. -/
inductive Grows (s : Scheduler ρ) : List ThreadId → Scheduler ρ → Prop
  | refl : Grows s [] s
  | spawn {ids : List ThreadId} {s' : Scheduler ρ} (h : Grows s ids s') (routine : ρ) :
      Grows s (ids ++ [(s'.spawn routine).1]) (s'.spawn routine).2
  | collect {ids : List ThreadId} {s' : Scheduler ρ} (h : Grows s ids s')
      (held : ThreadId → Bool) : Grows s ids (s'.collect held)

namespace Grows

variable {s s' s'' : Scheduler ρ} {ids ids' : List ThreadId} {id : ThreadId} {t : Thread ρ}

protected theorem trans (h₁ : s.Grows ids s') (h₂ : s'.Grows ids' s'') :
    s.Grows (ids ++ ids') s'' := by
  induction h₂ with
  | refl => simpa using h₁
  | spawn _ routine ih =>
    rw [← List.append_assoc]
    exact ih.spawn routine
  | collect _ held ih => exact ih.collect held

/-- The numbers given out are those after the number of the threads that there were. -/
theorem numbered (h : s.Grows ids s') : Numbered s.threads.size ids s'.threads.size := by
  induction h with
  | refl => exact .refl _
  | @spawn _ s' _ routine ih =>
    have hsize : (s'.spawn routine).2.threads.size = s'.threads.size + 1 := Array.size_push _
    rw [hsize]
    exact ih.append (.single _)
  | collect _ held ih => rwa [size_collect]

theorem live_eq (h : s.Grows ids s') : s'.live = s.live ++ ids := by
  induction h with
  | refl => simp
  | spawn _ routine ih => simp [Scheduler.spawn, ih]
  | collect _ held ih => rw [live_collect, ih]

theorem failures_eq (h : s.Grows ids s') : s'.failures = s.failures := by
  induction h with
  | refl => rfl
  | spawn _ _ ih => exact ih
  | collect _ held ih => rw [failures_collect, ih]

theorem poison_eq (h : s.Grows ids s') : s'.poison = s.poison := by
  induction h with
  | refl => rfl
  | spawn _ _ ih => exact ih
  | collect _ held ih => rw [poison_collect, ih]

/-- A collection leaves every thread as it was, but for the marks. -/
theorem persists_collect (s : Scheduler ρ) (held : ThreadId → Bool) (ht : s.thread? id = some t) :
    ∃ t', (s.collect held).thread? id = some t' ∧ t.Persists t' := by
  rw [thread?_collect, ht]
  split
  · exact ⟨t.collect, rfl, rfl, rfl, fun _ => rfl⟩
  · exact ⟨t, rfl, .refl t⟩

/-- The threads that were there persist. -/
theorem thread?_old (h : s.Grows ids s') (ht : s.thread? id = some t) :
    ∃ t', s'.thread? id = some t' ∧ t.Persists t' := by
  induction h with
  | refl => exact ⟨t, ht, .refl t⟩
  | @spawn _ s' h routine ih =>
    obtain ⟨t', ht', hp⟩ := ih
    have hne : id ≠ s'.threads.size + 1 := Nat.ne_of_lt (Nat.lt_succ_of_le (le_size_of_thread? ht'))
    exact ⟨t', by rw [thread?_spawn, if_neg hne, ht'], hp⟩
  | @collect _ s' _ held ih =>
    obtain ⟨t', ht', hp⟩ := ih
    obtain ⟨t'', ht'', hp'⟩ := persists_collect s' held ht'
    exact ⟨t'', ht'', hp.trans hp'⟩

/-- The threads that were started are ready. -/
theorem thread?_new (h : s.Grows ids s') (hid : id ∈ ids) :
    ∃ t, s'.thread? id = some t ∧ t.state = .ready ∧ t.routine.isSome = true := by
  induction h with
  | refl => cases hid
  | @spawn _ s' h routine ih =>
    rw [thread?_spawn]
    rcases List.mem_append.mp hid with hold | hnew
    · obtain ⟨t, ht, hready⟩ := ih hold
      have hne : id ≠ s'.threads.size + 1 :=
        Nat.ne_of_lt (Nat.lt_succ_of_le (le_size_of_thread? ht))
      exact ⟨t, by rw [if_neg hne, ht], hready⟩
    · obtain rfl : id = s'.threads.size + 1 := List.mem_singleton.mp hnew
      exact ⟨_, if_pos rfl, rfl, rfl⟩
  | @collect _ s' _ held ih =>
    obtain ⟨t, ht, hready, hroutine⟩ := ih hid
    obtain ⟨t', ht', hp⟩ := persists_collect s' held ht
    exact ⟨t', ht', hp.state.trans hready, hp.routine ▸ hroutine⟩

end Grows

end Scheduler

/-- A way of resuming threads in which a thread, while it runs, starts other threads and does
nothing else to the scheduler. -/
def Resume.StartsOnly (resume : Resume ρ σ) : Prop :=
  ∀ id routine w s outcome w' s', resume id routine w s = some (outcome, w', s') →
    ∃ ids, Scheduler.Grows s ids s'

/-- A way of resuming threads in which no handle is collected while a thread runs. -/
def Resume.KeepsHandles (resume : Resume ρ σ) : Prop :=
  ∀ id routine w s outcome w' s', resume id routine w s = some (outcome, w', s') →
    ∀ other, s.isCollected other = false → s'.isCollected other = false

end KeyLight
