import KeyLight.Environment.Basic
import KeyLight.Proofs.Scheduler.History
import KeyLight.Proofs.World.Thread

/-!
# How threads are numbered

Threads are numbered in the order in which they are started, whatever else happens, so a number
stands for one thread of a history and for no other. The same induction on runs tells which numbers
are live and in which states the host can find them.
-/

namespace KeyLight.Scheduler

variable {ρ : Type} {s s' : Scheduler ρ} {e : Event ρ} {events : List (Event ρ)}

theorem size_cancelAll (s : Scheduler ρ) : s.cancelAll.2.threads.size = s.threads.size := by
  rw [cancelAll_eq, size_reap, size_updateAll]

theorem Step.numbered (hidle : s.Idle) (h : Step s e s') :
    Numbered s.threads.size e.ids s'.threads.size := by
  cases h with
  | start routine => exact (Grows.refl.spawn routine).numbered
  | collect held => exact (Grows.refl.collect held).numbered
  | take => exact .refl _
  | cancel =>
    rw [size_cancelAll]
    exact .refl _
  | tick h hstarted hholds =>
    obtain ⟨-, -, -, -, rfl, rfl⟩ | ⟨-, hticked⟩ :=
      Step.tick_cases hidle (.tick h hstarted hholds)
    · exact .refl _
    · exact hticked.numbered

/-- The numbers given out in a run are those after the number of the threads that there were. -/
theorem Run.numbered (hidle : s.Idle) (h : Run s events s') :
    Numbered s.threads.size (events.flatMap Event.ids) s'.threads.size := by
  induction h with
  | nil => exact .refl _
  | @snoc events e s₁ _ hrun hstep ih =>
    have hidle' : s₁.Idle := hrun.idle hidle
    rw [List.flatMap_append, List.flatMap_singleton]
    exact ih.append (hstep.numbered hidle')

/-- While a thread is visited in a run, it is the only one that is running. -/
theorem Run.state?_eq_running (hidle : s.Idle) (h : Run s events s') (he : e ∈ events)
    {v : Visit ρ} (hv : v ∈ e.visits) {new : List ThreadId} {m : Scheduler ρ}
    (hgrows : v.before.Grows new m) (id : ThreadId) :
    m.state? id = some .running ↔ id = v.id := by
  obtain ⟨earlier, later, s₁, s₂, -, hrun, hstep⟩ := h.exists_step he
  have hidle' : s₁.Idle := hrun.idle hidle
  cases e with
  | started | collected | taken | cancelled => cases hv
  | ticked now visits ids answer =>
    obtain ⟨-, -, -, rfl, -⟩ | ⟨-, hticked⟩ := hstep.tick_cases hidle'
    · cases hv
    · exact (hticked.meanwhile v hv new m hgrows).running id

/-- **What holds after every run**, whatever the threads do: the live ones stand in the order of
their numbers and are ready or waiting, and the numbers given out so far are `1, 2, …`, in the order
of starting. A call that fails to start a thread gives out no number, and one that succeeds gives
the object of the thread with the next number. While a thread is resumed, no other one is
running. -/
theorem run_numbers_threads (h : Run empty events s) :
    s.live.Pairwise (· < ·) ∧ (∀ id ∈ s.live, 0 < id ∧ id ≤ s.threads.size) ∧
    (∀ id ∈ s.live,
      s.state? id = some .ready ∨ ∃ wakeAt, s.state? id = some (.waiting wakeAt)) ∧
    (∀ id, s.state? id ≠ some .running) ∧
    events.flatMap Event.ids = List.range' 1 s.threads.size ∧
    (events.flatMap Event.ids).Nodup ∧
    (∀ e ∈ events, ∀ v ∈ e.visits, ∀ new m, v.before.Grows new m →
      ∀ id, m.state? id = some .running ↔ id = v.id) ∧
    ∀ (w w' : World) (args : List Value),
      (∀ f, entryPoint Capability.thread.body w args = (.error f, w') → w' = w) ∧
      ∀ vs, entryPoint Capability.thread.body w args = (.ok vs, w') →
        ∃ routine v, w'.scheduler = (w.scheduler.spawn routine).2 ∧ vs = [v] ∧
          w'.heap.object? v = some (.thread ⟨w.scheduler.threads.size + 1⟩) := by
  have hidle := Reachable.idle ⟨events, h⟩
  have hnumbered := h.numbered idle_empty
  refine ⟨hidle.ordered, fun id hid => ?_, fun id hid => ?_, hidle.still, ?_,
    hnumbered.pairwise.imp Nat.ne_of_lt, fun e he v hv new m hgrows id => ?_, fun w w' args => ?_⟩
  · obtain ⟨t, ht, -⟩ := hidle.known id hid
    exact ⟨pos_of_thread? ht, le_size_of_thread? ht⟩
  · obtain ⟨t, ht, hstate⟩ := hidle.ready_or_waiting hid
    rw [state?_of_thread? ht]
    exact hstate.imp (congrArg some) fun ⟨wakeAt, hwaiting⟩ => ⟨wakeAt, congrArg some hwaiting⟩
  · exact hnumbered.eq
  · exact h.state?_eq_running idle_empty he hv hgrows id
  · refine ⟨fun f hf => ?_, fun vs hvs => ?_⟩
    · have hsame := World.entryPoint_of_error (congrArg Prod.fst hf)
      rwa [hf] at hsame
    · obtain ⟨routine, rest, hscheduler, v, hv, hobject⟩ :=
        World.entryPoint_thread_of_ok (congrArg Prod.fst hvs)
      rw [hvs] at hscheduler hobject
      exact ⟨_, v, hscheduler, hv, hobject⟩

/-- What a thread has left to do that starts another one. -/
def starter : Coroutine :=
  .fresh (.builtin (.capability .thread)) [.builtin .tostring, .int 1]

/-- The thread that is started in a tick is the second one of the history. -/
theorem run_numbers_threads_starter :
    ∃ (events : List (Event Coroutine)) (s : Scheduler Coroutine), Run empty events s ∧
      s.live = [2] ∧ events.flatMap Event.ids = [1, 2] ∧
      ∀ id ∈ s.live,
        s.state? id = some .ready ∨ ∃ wakeAt, s.state? id = some (.waiting wakeAt) := by
  let r := Environment.firstRealm .empty .linear
  have hafter : (tick (World.resumeThread 5) 0.0 r (empty.spawn starter).2).map
      (fun result => (result.2.2.live, result.2.2.threads.size)) = some ([2], 2) := rfl
  obtain ⟨⟨answer, r', s'⟩, h, heq⟩ := Option.map_eq_some_iff.mp hafter
  obtain ⟨hlive, hsize⟩ : s'.live = [2] ∧ s'.threads.size = 2 := Prod.mk.inj heq
  obtain ⟨visits, ids, -, hstep⟩ :=
    Step.of_tick (World.resumeThread_startsOnly 5) (World.resumeThread_keepsHandles 5) h
  have hrun := (Run.single (.start starter)).snoc hstep
  obtain ⟨-, -, hstates, -, hids, -⟩ := run_numbers_threads hrun
  rw [hsize] at hids
  exact ⟨_, s', hrun, hlive, hids, hstates⟩

end KeyLight.Scheduler
