import KeyLight.Proofs.Machine.Change
import KeyLight.Proofs.Native.Effect
import KeyLight.Proofs.Scheduler.Growth
import KeyLight.World.Thread

/-!
# What scripts do to the scheduler

Scripts reach the scheduler through the capability to start threads and in no other way, so all that
running a script does to it is to start some (`Changes.grows`). A thread that is resumed keeps to
this as well (`resumeThread_startsOnly`), which is what the theorems on ticks ask of it.

The capabilities to start a thread and to wait are then described: the first one gives the object of
the new thread, and there is none if it fails; the second one suspends the thread with the request
that it makes.
-/

namespace KeyLight.World

variable {w w' : World}

/-! ### Starting threads -/

theorem Change.grows (h : w.Change w') : ∃ ids, w.scheduler.Grows ids w'.scheduler := by
  cases h with
  | heap | global | print | target => exact ⟨[], .refl⟩
  | start routine args => exact ⟨_, Scheduler.Grows.refl.spawn (Coroutine.fresh routine args)⟩

/-- Running scripts starts threads and does nothing else to the scheduler. -/
theorem Changes.grows (h : w.Changes w') : ∃ ids, w.scheduler.Grows ids w'.scheduler := by
  induction h with
  | refl => exact ⟨[], .refl⟩
  | tail _ hchange ih =>
    obtain ⟨ids, hgrows⟩ := ih
    obtain ⟨ids', hgrows'⟩ := hchange.grows
    exact ⟨ids ++ ids', hgrows.trans hgrows'⟩

/-- What a thread changes that is resumed, apart from what is noted when it comes back. -/
theorem changes_resumeThread {fuel : Nat} {id : ThreadId} {routine : Coroutine} {r r' : Realm}
    {s s' : Scheduler Coroutine} {o : Outcome Coroutine}
    (h : resumeThread fuel id routine r s = some (o, r', s')) :
    ∃ r'', World.Changes ⟨r, s⟩ ⟨r'', s'⟩ := by
  unfold resumeThread at h
  cases hrun : Machine.runCoroutine fuel ⟨r, s⟩ routine with
  | none => simp [hrun] at h
  | some stop =>
    obtain ⟨halt, w⟩ := stop
    simp only [hrun, Option.some.injEq, Prod.mk.injEq] at h
    obtain ⟨-, -, rfl⟩ := h
    exact ⟨w.toRealm, Machine.changes_runCoroutine hrun⟩

/-- **A thread that is resumed starts other threads** and does nothing else to the scheduler. -/
theorem resumeThread_startsOnly (fuel : Nat) : (resumeThread fuel).StartsOnly := by
  intro id routine r s o r' s' h
  obtain ⟨r'', hchanges⟩ := changes_resumeThread h
  exact hchanges.grows

theorem Changes.isCollected_eq (h : w.Changes w') (id : ThreadId) :
    w'.scheduler.isCollected id = w.scheduler.isCollected id := by
  induction h with
  | refl => rfl
  | tail _ hchange ih =>
    rw [← ih]
    cases hchange with
    | heap | global | print | target => rfl
    | start routine args => exact Scheduler.isCollected_spawn ..

/-- No handle is collected while a thread runs. -/
theorem resumeThread_keepsHandles (fuel : Nat) : (resumeThread fuel).KeepsHandles := by
  intro id routine r s o r' s' h other hother
  obtain ⟨r'', hchanges⟩ := changes_resumeThread h
  exact (hchanges.isCollected_eq other).trans hother

/-! ### The capability to start a thread -/

/-- A native function that fails leaves the world as it is. -/
theorem entryPoint_of_error {body : NativeBody} {args : List Value} {f : Fault}
    (h : (entryPoint body w args).1 = .error f) : (entryPoint body w args).2 = w := by
  unfold entryPoint at h ⊢
  cases hbody : body w (.ofArguments args) with
  | error f => rfl
  | ok result => simp [hbody] at h

/-- A call that starts a thread gives its object. -/
theorem entryPoint_thread_of_ok {args vs : List Value}
    (h : (entryPoint Capability.thread.body w args).1 = .ok vs) :
    ∃ routine rest,
      (entryPoint Capability.thread.body w args).2.scheduler =
        (w.scheduler.spawn (.fresh routine rest)).2 ∧
      ∃ v, vs = [v] ∧ (entryPoint Capability.thread.body w args).2.heap.object? v =
        some (.thread ⟨(w.scheduler.spawn (.fresh routine rest)).1⟩) := by
  rw [entryPoint_body] at h ⊢
  cases heffect : Capability.thread.effect w (.ofArguments args) with
  | error f => simp [heffect] at h
  | ok effect =>
    obtain ⟨routine, -, rfl⟩ : ∃ routine, ((Stack.ofArguments args).get? 1).filter
        Value.isFunction = some routine ∧
          Effect.start routine ((Stack.ofArguments args).values.drop 1) = effect := by
      simp only [Capability.effect] at heffect
      split at heffect
      · rename_i routine hroutine
        exact ⟨routine, hroutine, Except.ok.inj heffect⟩
      · cases heffect
    simp only [heffect, Except.ok.injEq] at h
    refine ⟨routine, _, rfl, .object w.heap.objects.size, ?_, Heap.object?_addObject ..⟩
    rw [← h]
    exact Stack.results_foldl_push (.ofArguments args) [.object w.heap.objects.size]

/-! ### The capability to wait -/

/-- Waiting suspends a thread for the seconds asked for, or for none if their number is negative. -/
theorem callCapability_wait {args : List Value} {frames : List Frame} {x : Float}
    (hx : (Stack.ofArguments args).finiteNumber 1 "wait" = .ok x) :
    ∃ vs w', Machine.callCapability .thread w .wait args frames =
        .halted w' (.yielded vs frames args) ∧
      outcome w'.heap (.yielded vs frames args) =
        .suspended (if 0.0 < x then x else 0.0) (.suspended frames args) ∧
      w'.scheduler = w.scheduler := by
  let seconds : Float := if 0.0 < x then x else 0.0
  have heffect : Capability.wait.effect w (.ofArguments args) =
      .ok (.make (.suspension ⟨seconds⟩)) := by
    simp only [Capability.effect, hx]
    rfl
  have hentry : entryPoint Capability.wait.body w args =
      (.ok [.object w.heap.objects.size], (w.newObject (.suspension ⟨seconds⟩)).2) := by
    rw [entryPoint_body, heffect]
    simp only [Effect.perform, World.newObject]
    rw [← Stack.results_foldl_push (.ofArguments args) [.object w.heap.objects.size]]
    rfl
  refine ⟨[.object w.heap.objects.size], (w.newObject (.suspension ⟨seconds⟩)).2, ?_, ?_, rfl⟩
  · simp only [Machine.callCapability, hentry, Machine.suspend]
  · have hobject : (w.newObject (.suspension ⟨seconds⟩)).2.heap.object?
        (.object w.heap.objects.size) = some (.suspension ⟨seconds⟩) := Heap.object?_addObject ..
    simp only [outcome, List.head?_cons, Option.bind_some, hobject, seconds]

end KeyLight.World
