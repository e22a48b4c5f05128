import KeyLight.Proofs.Scheduler.Visit
import KeyLight.Proofs.World.Confinement
import KeyLight.Proofs.World.Thread

/-!
# Failures in the journal

Scripts print, and that is all they add to the journal. A thread that fails is noted when it comes
back, so the failures that a tick notes in the journal are those of its visits, in their order
(`World.noted_of_tick`).
-/

namespace KeyLight

variable {ρ σ τ : Type}

/-- The failure that a notice tells of. -/
def Notice.failure? : Notice → Option Failure
  | .failed f => some f
  | .printed _ | .attached | .detached _ | .notFunction _ _ | .violated _ => none

/-- The failures that the journal tells of. -/
def Realm.noted (r : Realm) : List Failure := r.journal.toList.filterMap Notice.failure?

@[simp] theorem Realm.noted_note (r : Realm) (n : Notice) :
    (r.note n).noted = r.noted ++ n.failure?.toList := by
  rw [noted, note, Array.toList_push, List.filterMap_append]
  cases h : n.failure? <;> simp [h, noted]

/-- What a world keeps of the visits of a tick, if resuming one thread adds what there is to keep of
the visit to it. -/
theorem Scheduler.kept_of_resumeAll {resume : Resume ρ σ} (kept : σ → List τ)
    (keep : Visit ρ → Option τ)
    (hresume : ∀ {id routine w s o w' s'}, resume id routine w s = some (o, w', s') →
      kept w' = kept w ++ (keep ⟨id, routine, s, o, s'⟩).toList)
    {now : Float} {agenda : List (ThreadId × ρ)} {n : TickSummary} {w w' : σ}
    {record record' : List (Visit ρ)} {s s' : Scheduler ρ} {answer : Except Violation TickSummary}
    (h : resumeAll resume.recorded now agenda n (w, record) s =
      some (answer, (w', record'), s')) :
    ∃ visits, record' = record ++ visits ∧ kept w' = kept w ++ visits.filterMap keep := by
  induction agenda generalizing n w record s with
  | nil =>
    simp only [resumeAll, Option.some.injEq, Prod.mk.injEq] at h
    obtain ⟨-, ⟨rfl, rfl⟩, -⟩ := h
    exact ⟨[], (List.append_nil record).symm, (List.append_nil _).symm⟩
  | cons task agenda ih =>
    obtain ⟨id, routine⟩ := task
    simp only [resumeAll, Resume.recorded] at h
    cases hback : resume id routine w (s.setState id .running) with
    | none => simp [hback] at h
    | some result =>
      obtain ⟨outcome, w₁, after⟩ := result
      let v : Visit ρ := ⟨id, routine, s.setState id .running, outcome, after⟩
      have hfirst : kept w₁ = kept w ++ (keep v).toList := hresume hback
      -- whatever is visited after it, the visit comes first
      have hmore (visits : List (Visit ρ)) (hrecord : record' = (record ++ [v]) ++ visits)
          (hkept : kept w' = kept w₁ ++ visits.filterMap keep) :
          ∃ visits, record' = record ++ visits ∧ kept w' = kept w ++ visits.filterMap keep := by
        refine ⟨v :: visits, by simp [hrecord], ?_⟩
        rw [hkept, hfirst, List.append_assoc, List.filterMap_cons]
        cases keep v <;> rfl
      simp only [hback, Option.map_some] at h
      cases outcome with
      | stray found =>
        simp only [Option.some.injEq, Prod.mk.injEq] at h
        obtain ⟨-, ⟨rfl, rfl⟩, -⟩ := h
        exact hmore [] (List.append_nil _).symm (List.append_nil _).symm
      | finished | failed _ | suspended _ _ =>
        obtain ⟨visits, hrecord, hkept⟩ := ih h
        exact hmore visits hrecord hkept

namespace World

variable {w w' : World} {fuel : Nat}

theorem Change.noted_eq (h : w.Change w') : w'.noted = w.noted := by
  cases h with
  | heap | global | start => rfl
  -- the only change that adds to the journal adds something else
  | print controller text =>
    exact (w.noted_note (@Notice.printed controller text)).trans (List.append_nil _)
  | target hv hr =>
    obtain ⟨held, t, -, -, -, rfl⟩ := exists_of_writeTarget hr
    rfl

/-- Scripts note no failures. -/
theorem Changes.noted_eq (h : w.Changes w') : w'.noted = w.noted := by
  induction h with
  | refl => rfl
  | tail _ hchange ih => exact hchange.noted_eq.trans ih

theorem noted_noteOutcome (r : Realm) (id : ThreadId) (o : Outcome Coroutine) :
    (noteOutcome r id o).noted = r.noted ++ (o.failure? id).toList := by
  cases o with
  | failed message => exact Realm.noted_note r _
  | stray found => exact Realm.noted_note r _
  | finished | suspended _ _ => exact (List.append_nil _).symm

/-- A thread that is resumed notes the failure that it comes back with. -/
theorem noted_resumeThread {id : ThreadId} {routine : Coroutine} {r r' : Realm}
    {s s' : Scheduler Coroutine} {o : Outcome Coroutine}
    (h : resumeThread fuel id routine r s = some (o, r', s')) :
    r'.noted = r.noted ++ (o.failure? id).toList := by
  unfold resumeThread at h
  cases hrun : Machine.runCoroutine fuel ⟨r, s⟩ routine with
  | none => simp [hrun] at h
  | some stop =>
    obtain ⟨halt, w⟩ := stop
    simp only [hrun, Option.some.injEq, Prod.mk.injEq] at h
    obtain ⟨rfl, rfl, -⟩ := h
    have hsame : w.noted = r.noted := (Machine.changes_runCoroutine hrun).noted_eq
    rw [noted_noteOutcome, hsame]

/-- **A tick notes the failures of its visits**, each once and in their order. -/
theorem noted_of_tick {now : Float} {r r' : Realm} {s s' : Scheduler Coroutine}
    {visits : List (Visit Coroutine)} {answer : Except Violation TickSummary}
    (h : Scheduler.tick (resumeThread fuel).recorded now (r, []) s =
      some (answer, (r', visits), s')) :
    r'.noted = r.noted ++ visits.filterMap Visit.failure? := by
  obtain ⟨x, -, -, hsame, -⟩ | ⟨-, t, hall, -⟩ := Scheduler.resumeAll_of_tick h
  · obtain ⟨rfl, rfl⟩ := Prod.mk.inj hsame
    exact (List.append_nil _).symm
  · obtain ⟨visits, rfl, hkept⟩ := Scheduler.kept_of_resumeAll Realm.noted Visit.failure?
      noted_resumeThread hall
    exact hkept

end World

end KeyLight
