import KeyLight.Machine.Step
import KeyLight.Proofs.Native.Effect

/-!
# Calls of capabilities

A capability that refuses its arguments raises the fault and leaves the world as it is. Otherwise
the caller is given the first result of what the capability does (`callCapability_of_ok`), or it is
suspended if the capability is that of waiting (`callCapability_wait_of_ok`).

An argument that has to be a finite number is read just if it is one or a numeral for one
(`Stack.finiteNumber_eq_ok`).
-/

namespace KeyLight

/-- Either there is a controller, or the capabilities that need one are told that there is none. -/
theorem Realm.attached?_cases (r : Realm) :
    r.attached? = .error .noController ∨ ∃ id controller, r.attached? = .ok (id, controller) := by
  unfold Realm.attached?
  split
  · exact .inl rfl
  · split
    · exact .inr ⟨_, _, rfl⟩
    · exact .inl rfl

theorem Realm.controller?_cases (r : Realm) :
    r.controller? = .error .noController ∨ ∃ controller, r.controller? = .ok controller := by
  unfold Realm.controller?
  obtain h | ⟨id, controller, h⟩ := r.attached?_cases
  · exact .inl (by rw [h]; rfl)
  · exact .inr ⟨controller, by rw [h]; rfl⟩

/-! ### Arguments that are numbers -/

/-- A value is or stands for the number `x`, which is finite and equal to `q`. -/
structure HoldsNumber (v : Option Value) (x : Float) (q : Rat) : Prop where
  number : v.bind Value.coerced? = some x
  finite : Binary64.toRat? x = some q

namespace Stack

variable {args : List Value} {i : Nat} {function : String}

theorem get?_ofArguments (args : List Value) (i : Nat) :
    (ofArguments args).get? (i + 1) = args[i]? := rfl

theorem number?_ofArguments (args : List Value) (i : Nat) :
    (ofArguments args).number? (i + 1) = args[i]?.bind Value.coerced? := rfl

theorem finiteNumber_eq_ok {x : Float} :
    (ofArguments args).finiteNumber (i + 1) function = .ok x ↔ ∃ q, HoldsNumber args[i]? x q := by
  unfold finiteNumber
  rw [number?_ofArguments]
  constructor
  · intro h
    split at h
    · rename_i y hy
      split at h
      · rename_i hfinite
        obtain rfl := Except.ok.inj h
        obtain ⟨q, hq⟩ := Option.isSome_iff_exists.mp hfinite
        exact ⟨q, hy, hq⟩
      · cases h
    · cases h
  · rintro ⟨q, hnumber, hq⟩
    have hfinite : isFinite x = true := by rw [isFinite, hq, Option.isSome_some]
    rw [hnumber]
    simp only [hfinite, if_true]

/-- An argument that holds no finite number is refused. -/
theorem finiteNumber_of_not (h : ∀ x q, ¬HoldsNumber args[i]? x q) :
    (ofArguments args).finiteNumber (i + 1) function =
      .error (.argument function (i + 1) ("number expected, got " ++ Value.describe args[i]?)) := by
  unfold finiteNumber
  rw [number?_ofArguments]
  split
  · rename_i x hx
    split
    · rename_i hfinite
      obtain ⟨q, hq⟩ := Option.isSome_iff_exists.mp hfinite
      exact absurd ⟨hx, hq⟩ (h x q)
    · rfl
  · rfl

end Stack

/-! ### Effects -/

/-- The results of an effect, and the world after it. -/
def Effect.reply (w : World) : Effect → List Value × World
  | .give vs => (vs, w)
  | .say controller text => ([], w.tell (@Notice.printed controller text))
  | .make o => ([(w.newObject o).1], (w.newObject o).2)
  | .start routine args => ([(startThread w routine args).1], (startThread w routine args).2)

variable {c : Capability} {w : World} {args : List Value} {effect : Effect} {f : Fault}

theorem entryPoint_of_refused (h : c.effect w (.ofArguments args) = .error f) :
    entryPoint c.body w args = (.error f, w) := by
  rw [entryPoint_body, h]

/-- The results are what the effect pushes. -/
theorem entryPoint_of_ok (h : c.effect w (.ofArguments args) = .ok effect) :
    entryPoint c.body w args = (.ok (effect.reply w).1, (effect.reply w).2) := by
  have hresults (vs : List Value) := Stack.results_foldl_push (.ofArguments args) vs
  rw [entryPoint_body, h]
  cases effect with
  | give vs => simp only [Effect.perform, Effect.reply, hresults vs]
  | say controller text =>
    simp only [Effect.perform, Effect.reply]
    rw [show (Stack.ofArguments args).results 0 = [] from hresults []]
  | make o => exact congrArg (fun vs => (Except.ok vs, _)) (hresults [(w.newObject o).1])
  | start routine more =>
    exact congrArg (fun vs => (Except.ok vs, _)) (hresults [(Effect.startThread w routine more).1])

namespace Machine

variable (place : Place) (frames : List Frame)

theorem callCapability_of_refused (h : c.effect w (.ofArguments args) = .error f) :
    callCapability place w c args frames = .running w (.raise f) frames := by
  unfold callCapability
  rw [entryPoint_of_refused h]

/-- A capability other than that of waiting gives its first result. -/
theorem callCapability_of_ok (hc : c ≠ .wait) (h : c.effect w (.ofArguments args) = .ok effect) :
    callCapability place w c args frames =
      .running (effect.reply w).2 (.give ((effect.reply w).1.headD .nil)) frames := by
  unfold callCapability
  rw [entryPoint_of_ok h]
  cases c with
  | wait => exact absurd rfl hc
  | print | tocolor | fade | thread | now => rfl

/-- That of waiting suspends the caller with its results, and its arguments are kept. -/
theorem callCapability_wait_of_ok (h : Capability.wait.effect w (.ofArguments args) = .ok effect) :
    callCapability place w .wait args frames =
      suspend place (effect.reply w).2 (effect.reply w).1 frames args := by
  unfold callCapability
  rw [entryPoint_of_ok h]

end Machine

end KeyLight
