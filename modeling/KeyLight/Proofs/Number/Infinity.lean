import KeyLight.Proofs.Number.Rounding

/-!
# Infinite numbers, zeros and the order

Rounding says nothing about sums and products with an infinite number, or with what is no number;
they are told here case by case (`exact_add_infinite`, `exact_mul_infinite`,
`exact_infinite_mul_zero`). Nor does it tell apart the two zeros, but adding one of them changes
only the other (`add_zero_eq`). In the order, what is above zero is above all that is not
(`not_le_of_zero_lt`), and rounding leads to nothing below zero from what is not below zero
(`Rounds.not_lt_zero`).
-/

namespace KeyLight.Binary64

open Float.Model UnpackedFloat

variable {x y : Float} {p q : Rat} {negative : Bool}

/-! ### Infinite numbers -/

theorem exact_assemble_infinity (s : Sign) :
    exact (assemble (.infinity s)) = .infinite (s == .negative) := by
  rw [exact_assemble]
  cases s <;> rfl

theorem exact_assemble_notANumber : exact (assemble .notANumber) = .nan := by
  rw [exact_assemble]
  rfl

theorem unpack_of_infinite (h : exact x = .infinite negative) :
    ∃ s : Sign, x.toModel.unpack = .infinity s ∧ (s == .negative) = negative := by
  rw [exact_eq] at h
  cases hx : x.toModel.unpack with
  | infinity s =>
    rw [hx] at h
    exact ⟨s, rfl, Exact.infinite.inj h⟩
  | notANumber | zero | finite =>
    rw [hx] at h
    cases h

theorem unpack_of_nan (h : exact x = .nan) : x.toModel.unpack = .notANumber := by
  rw [exact_eq] at h
  cases hx : x.toModel.unpack with
  | notANumber => rfl
  | infinity | zero | finite =>
    rw [hx] at h
    cases h

theorem add_eq_assemble (x y : Float) :
    x + y = assemble (UnpackedFloat.add .binary64 x.toModel.unpack y.toModel.unpack) := rfl

theorem mul_eq_assemble (x y : Float) :
    x * y = assemble (UnpackedFloat.mul .binary64 x.toModel.unpack y.toModel.unpack) := rfl

/-- A finite number is lost in an infinite one. -/
theorem exact_add_infinite (hx : toRat? x = some p) (hy : exact y = .infinite negative) :
    exact (x + y) = .infinite negative := by
  obtain ⟨s, hs, rfl⟩ := unpack_of_infinite hy
  obtain ⟨s', hx, -⟩ | ⟨m, e, hm, hx, -⟩ | ⟨m, e, hm, hx, -⟩ := unpack_cases hx
  all_goals
    rw [add_eq_assemble, hx, hs]
    exact exact_assemble_infinity s

theorem exact_add_nan (x : Float) (hy : exact y = .nan) : exact (x + y) = .nan := by
  rw [add_eq_assemble, unpack_of_nan hy]
  cases x.toModel.unpack <;> exact exact_assemble_notANumber

/-- An infinite number stays infinite when it is multiplied by a number above zero. -/
theorem exact_mul_infinite (hx : exact x = .infinite negative) (hy : toRat? y = some q)
    (hq : 0 < q) : exact (x * y) = .infinite negative := by
  obtain ⟨s, hs, rfl⟩ := unpack_of_infinite hx
  obtain ⟨s', -, rfl⟩ | ⟨m, e, hm, hy, -⟩ | ⟨m, e, hm, -, hneg⟩ := unpack_cases hy
  · exact absurd hq (lt_irrefl 0)
  · rw [mul_eq_assemble, hs, hy]
    refine (exact_assemble_infinity _).trans ?_
    cases s <;> rfl
  · exact absurd hq hneg.not_gt

/-- An infinite number of nothing is no number. -/
theorem exact_infinite_mul_zero (hx : exact x = .infinite negative) : exact (x * 0.0) = .nan := by
  obtain ⟨s, hx, -⟩ := unpack_of_infinite hx
  rw [mul_eq_assemble, hx, unpack_zero]
  exact exact_assemble_notANumber

/-! ### Zeros -/

/-- Adding a zero keeps every number but a zero. -/
theorem add_zero_eq (hx : toRat? x = some p) (hp : p ≠ 0) (hy : toRat? y = some 0) : x + y = x := by
  obtain ⟨s, hy, -⟩ | ⟨_, _, _, -, hpos⟩ | ⟨_, _, _, -, hneg⟩ := unpack_cases hy
  · have hsum : UnpackedFloat.add .binary64 x.toModel.unpack y.toModel.unpack =
        x.toModel.unpack := by
      obtain ⟨s', -, rfl⟩ | ⟨m, e, hm, hx, -⟩ | ⟨m, e, hm, hx, -⟩ := unpack_cases hx
      · exact absurd rfl hp
      all_goals
        rw [hx, hy]
        rfl
    rw [add_eq_assemble, hsum, assemble_unpack]
  · exact absurd hpos (lt_irrefl 0)
  · exact absurd hneg (lt_irrefl 0)

/-! ### The order -/

theorem le_iff : x ≤ y ↔ (x.toModel.unpack.compare y.toModel.unpack).any Ordering.isLE = true := by
  change decide ((x.toModel.unpack.compare y.toModel.unpack).any Ordering.isLE = true) = true ↔ _
  rw [decide_eq_true_iff]

/-- A number above zero is not at or below one that is not. -/
theorem not_le_of_zero_lt (hx : 0.0 < x) (hy : y ≤ 0.0) : ¬x ≤ y := by
  rw [lt_iff, unpack_zero] at hx
  rw [le_iff, unpack_zero] at hy
  rw [le_iff]
  generalize x.toModel.unpack = u at *
  generalize y.toModel.unpack = v at *
  -- `u` has a positive sign and is no zero, and `v` is a zero or has a negative one
  cases u with
  | notANumber | zero => cases hx
  | infinity s =>
    cases s with
    | negative => cases hx
    | positive =>
      cases v with
      | notANumber => cases hy
      | infinity s' =>
        cases s' with
        | negative => exact nofun
        | positive => cases hy
      | zero | finite => exact nofun
  | finite s m e hm =>
    cases s with
    | negative => cases hx
    | positive =>
      cases v with
      | notANumber => cases hy
      | infinity s' | finite s' =>
        cases s' with
        | negative => exact nofun
        | positive => cases hy
      | zero => exact nofun

theorem not_le_zero_of_lt (hx : 0.0 < x) : ¬x ≤ 0.0 :=
  not_le_of_zero_lt hx (by decide +kernel)

/-- What is above zero is a finite number, or infinite. -/
theorem finite_or_infinite_of_zero_lt (hx : 0.0 < x) :
    (∃ q, toRat? x = some q ∧ 0 < q) ∨ exact x = .infinite false := by
  have hsign := hx
  rw [lt_iff, unpack_zero] at hsign
  cases hu : x.toModel.unpack with
  | notANumber | zero =>
    rw [hu] at hsign
    cases hsign
  | infinity s =>
    rw [hu] at hsign
    cases s with
    | negative => cases hsign
    | positive =>
      right
      rw [exact_eq, hu]
      rfl
  | finite s m e hm =>
    left
    have hexact : exact x = .finite (s == .negative) m e := by
      rw [exact_eq, hu]
      rfl
    have hvalue := toRat?_of_exact hexact
    exact ⟨_, hvalue, (zero_lt_iff hvalue).mp hx⟩

theorem not_lt_zero_of_infinite (hx : exact x = .infinite false) : ¬x < 0.0 := by
  obtain ⟨s, hx, hs⟩ := unpack_of_infinite hx
  cases s with
  | negative => cases hs
  | positive =>
    rw [lt_iff, hx]
    exact nofun

namespace Rounds

variable {r : Rat}

theorem exact_of_le (h : Rounds r x) (hr : overflow ≤ |r|) :
    exact x = .infinite (decide (r < 0)) := by
  cases h with
  | finite hlt _ _ => exact absurd hlt (not_lt.mpr hr)
  | infinite _ hx => exact hx

theorem toRat?_of_lt (h : Rounds r x) (hr : |r| < overflow) : ∃ s, toRat? x = some s := by
  cases h with
  | finite _ _ hx => exact ⟨_, hx⟩
  | infinite hge _ => exact absurd hr (not_lt.mpr hge)

theorem exact_ne_nan (h : Rounds r x) : exact x ≠ .nan := by
  intro hnan
  cases h with
  | finite _ _ hx =>
    rw [toRat?, hnan] at hx
    cases hx
  | infinite _ hx =>
    rw [hnan] at hx
    cases hx

/-- A number that is not below zero is not rounded to one that is. -/
theorem not_lt_zero (h : Rounds r x) (hr : 0 ≤ r) : ¬x < 0.0 := by
  cases h with
  | @finite n _ hn hx =>
    rw [lt_zero_iff hx, not_lt]
    have hunit : (0 : Rat) < 2 ^ lastBit r := by positivity
    have hn : 0 ≤ n := by
      by_contra hneg
      have hle : (n : Rat) ≤ -1 := by exact_mod_cast Int.le_sub_one_of_lt (not_le.mp hneg)
      have hnear := (abs_le.mp hn.near).2
      nlinarith
    positivity
  | infinite _ hx =>
    rw [decide_eq_false (not_lt.mpr hr)] at hx
    exact not_lt_zero_of_infinite hx

end Rounds

end KeyLight.Binary64
