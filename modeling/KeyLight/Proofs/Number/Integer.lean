import KeyLight.Script.Number

/-!
# Integers among the numbers

A number of a script is exactly an integer (`Value.IsInteger`) if it is an integer of 64 bits, or a
floating-point number with that value. Positions and key codes are read by `Value.roundedInt?`, which
rounds integers of more than 53 bits. That makes no difference to what is asked for: rounding never
leads to a smaller integer of up to 53 bits from one that is none (`Binary64.nearestInt_eq_iff`), so
a number is read as such an integer just if it is that integer (`Value.roundedInt?_eq_some_iff`).
-/

namespace KeyLight

namespace Binary64

/-! ### Rounding integers -/

/-- Integers of smaller size have at most 53 significant bits. -/
def exactBound : Nat := Nat.pow 2 53

theorem log2_lt_of_lt {n k : Nat} (hk : 0 < k) (h : n < Nat.pow 2 k) : n.log2 < k := by
  by_cases hzero : n = 0
  · rw [hzero]
    exact hk
  · exact (Nat.log2_lt hzero).mpr h

theorem nearestInt_of_lt {n : Int} (h : n.natAbs < exactBound) : nearestInt n = n := by
  rw [nearestInt, if_pos (log2_lt_of_lt (by decide) h)]

theorem div_le_divNearestEven (num den : Nat) : num / den ≤ divNearestEven num den := by
  unfold divNearestEven
  simp only
  split
  · exact Nat.le_refl _
  · split <;> omega

/-- Rounding keeps large integers large. -/
theorem exactBound_le_natAbs_nearestInt {n : Int} (h : exactBound ≤ n.natAbs) :
    exactBound ≤ (nearestInt n).natAbs := by
  have hzero : n.natAbs ≠ 0 := Nat.ne_of_gt (Nat.lt_of_lt_of_le (by decide) h)
  have hsize : 53 ≤ n.natAbs.log2 := (Nat.le_log2 hzero).mpr h
  obtain ⟨k, hk⟩ : ∃ k, n.natAbs.log2 = k + 53 := ⟨_, (Nat.sub_add_cancel hsize).symm⟩
  -- the unit is the last bit that is kept, so the quotient has 53 bits
  have hunit : 0 < Nat.pow 2 (k + 1) := Nat.pow_pos (by decide)
  have hkept : Nat.pow 2 52 ≤ n.natAbs / Nat.pow 2 (k + 1) := by
    rw [Nat.le_div_iff_mul_le hunit]
    refine Nat.le_trans (Nat.le_of_eq ?_) (Nat.log2_self_le hzero)
    rw [hk]
    exact (Nat.pow_add 2 52 (k + 1)).symm.trans (congrArg (Nat.pow 2) (by omega))
  have hrounded : exactBound ≤
      divNearestEven n.natAbs (Nat.pow 2 (k + 1)) * Nat.pow 2 (k + 1) := by
    calc exactBound = Nat.pow 2 52 * 2 := by decide
      _ ≤ Nat.pow 2 52 * Nat.pow 2 (k + 1) := Nat.mul_le_mul_left _ (Nat.le_self_pow (by omega) 2)
      _ ≤ _ := Nat.mul_le_mul_right _ (Nat.le_trans hkept (div_le_divNearestEven _ _))
  have hnot : ¬n.natAbs.log2 < 53 := by omega
  have hexponent : n.natAbs.log2 - 52 = k + 1 := by omega
  simp only [nearestInt, if_neg hnot, hexponent]
  split
  · rwa [Int.natAbs_neg, Int.natAbs_natCast]
  · rwa [Int.natAbs_natCast]

/-- **An integer of up to 53 bits is the rounded form of itself alone.** -/
theorem nearestInt_eq_iff {n m : Int} (hm : m.natAbs < exactBound) :
    nearestInt n = m ↔ n = m := by
  constructor
  · intro h
    by_cases hn : n.natAbs < exactBound
    · rw [← nearestInt_of_lt hn, h]
    · have hlarge := exactBound_le_natAbs_nearestInt (Nat.le_of_not_lt hn)
      rw [h] at hlarge
      omega
  · rintro rfl
    exact nearestInt_of_lt hm

/-- Rounding keeps what is positive apart from what is not. -/
theorem one_le_nearestInt_iff {n : Int} : 1 ≤ nearestInt n ↔ 1 ≤ n := by
  by_cases hn : n.natAbs < exactBound
  · rw [nearestInt_of_lt hn]
  · have hlarge := exactBound_le_natAbs_nearestInt (Nat.le_of_not_lt hn)
    have hbound : 0 < exactBound := by decide
    -- the rounded form is large, so its sign is that of the integer
    have hsize : ¬n.natAbs.log2 < 53 := fun h => hn (Nat.lt_of_not_le fun hle =>
      Nat.not_le_of_lt h ((Nat.le_log2 (by omega)).mpr hle))
    simp only [nearestInt, if_neg hsize] at hlarge ⊢
    split at hlarge <;> split <;> omega

/-! ### Floating-point integers -/

theorem quotient_den_pos (m : Nat) (e : Int) : 0 < (quotient 2 m e).2 := by
  unfold quotient
  split
  · exact Nat.one_pos
  · exact Nat.pow_pos (by decide)

/-- A quotient is an integer just if the division leaves nothing. -/
theorem mkRat_eq_intCast_iff {num : Int} {den : Nat} (hden : 0 < den) {n : Int} :
    mkRat num den = (n : Rat) ↔ num = n * den := by
  rw [← Rat.mkRat_one, Rat.mkRat_eq_iff (Nat.ne_of_gt hden) Nat.one_ne_zero]
  simp

/-- A division that leaves nothing gives the quotient. -/
theorem eq_mul_iff_div {num den : Nat} (hden : 0 < den) {n : Int} :
    (num : Int) = n * den ↔ num % den = 0 ∧ ((num / den : Nat) : Int) = n := by
  constructor
  · intro h
    have hdvd : (den : Int) ∣ num := h ▸ Int.dvd_mul_left n den
    refine ⟨Nat.mod_eq_zero_of_dvd (Int.natCast_dvd_natCast.mp hdvd), ?_⟩
    rw [Int.natCast_ediv, h]
    exact Int.mul_ediv_cancel n (Int.natCast_ne_zero.mpr (Nat.ne_of_gt hden))
  · rintro ⟨hdvd, rfl⟩
    exact congrArg Nat.cast (Nat.div_mul_cancel (Nat.dvd_of_mod_eq_zero hdvd)).symm

/-- **A number is read as an integer just if that is its value.** -/
theorem toInt?_eq_some_iff {x : Float} {n : Int} :
    toInt? x = some n ↔ toRat? x = some (n : Rat) := by
  unfold toInt? toRat?
  cases exact x with
  | nan | infinite => simp
  | finite negative m e =>
    have hden := quotient_den_pos m e
    simp only [rational, Option.some_inj, Option.ite_none_right_eq_some]
    cases negative with
    | false =>
      simp only [Bool.false_eq_true, if_false]
      rw [mkRat_eq_intCast_iff hden, eq_mul_iff_div hden]
    | true =>
      have hneg {a b : Int} : -a = b ↔ a = -b := by omega
      simp only [if_true]
      rw [Rat.neg_mkRat, mkRat_eq_intCast_iff hden, hneg, hneg, ← Int.neg_mul, eq_mul_iff_div hden]

end Binary64

namespace Value

/-- A value is a number that is exactly an integer. -/
inductive IsInteger : Value → Int → Prop
  | int (n : Int64) : IsInteger (.int n) n.toInt
  | float {x : Float} {n : Int} (hx : Binary64.toRat? x = some (n : Rat)) : IsInteger (.float x) n

variable {v : Value}

theorem isInteger_int_iff {m : Int64} {n : Int} : (Value.int m).IsInteger n ↔ m.toInt = n :=
  ⟨fun h => by cases h; rfl, fun h => h ▸ .int m⟩

theorem isInteger_float_iff {x : Float} {n : Int} :
    (Value.float x).IsInteger n ↔ Binary64.toRat? x = some (n : Rat) :=
  ⟨fun h => by cases h; assumption, .float⟩

theorem IsInteger.isSome_number? {n : Int} (h : v.IsInteger n) : v.number?.isSome := by
  cases h <;> rfl

/-- **A number is read as an integer of up to 53 bits just if it is that integer.** -/
theorem roundedInt?_eq_some_iff {n : Int} (hn : n.natAbs < Binary64.exactBound) :
    v.roundedInt? = some n ↔ v.IsInteger n := by
  cases v with
  | int m =>
    rw [roundedInt?, Option.some_inj, Binary64.nearestInt_eq_iff hn, isInteger_int_iff]
  | float x =>
    rw [roundedInt?, Binary64.toInt?_eq_some_iff, isInteger_float_iff]
  | nil | bool | text | table | closure | builtin | object => exact ⟨nofun, nofun⟩

/-- **A number denotes a place just if it is the integer of that place counted from one.** -/
theorem index?_eq_some_iff {i : Nat} (hi : i + 1 < Binary64.exactBound) :
    v.index? = some i ↔ v.IsInteger (i + 1 : Nat) := by
  have hplace : i < maxIndex := Nat.lt_trans (Nat.lt_of_succ_lt hi) (by decide)
  rw [← roundedInt?_eq_some_iff (by omega)]
  unfold index?
  cases v.roundedInt? with
  | none => simp
  | some n =>
    simp only [Option.some_inj]
    split
    · rw [Option.some_inj]
      omega
    · refine iff_of_false nofun ?_
      omega

/-- **A number denotes some place just if it is an integer from one on.** -/
theorem isSome_index?_iff : v.index?.isSome ↔ ∃ n : Int, 1 ≤ n ∧ v.IsInteger n := by
  have hsome : v.index?.isSome ↔ ∃ n, v.roundedInt? = some n ∧ 1 ≤ n := by
    unfold index?
    cases v.roundedInt? with
    | none => simp
    | some n =>
      simp only [Option.some_inj, exists_eq_left']
      split <;> simp [*]
  rw [hsome]
  cases v with
  | int m =>
    simp only [roundedInt?, Option.some_inj, exists_eq_left', Binary64.one_le_nearestInt_iff,
      isInteger_int_iff, exists_eq_right']
  | float x =>
    simp only [roundedInt?, Binary64.toInt?_eq_some_iff, isInteger_float_iff]
    exact exists_congr fun _ => And.comm
  | nil | bool | text | table | closure | builtin | object =>
    exact iff_of_false (fun ⟨_, h, _⟩ => nomatch h) (fun ⟨_, _, h⟩ => nomatch h)

end Value

end KeyLight
