import KeyLight.Proofs.Number.Float

/-!
# Sums, differences and products of floating-point numbers

A rational number is rounded to its nearest multiple of a power of two, the exponent of which
depends on the magnitude of the number and is at least -1074; of two such multiples it is rounded to
the even one (`IsNearestEven`, `lastBit`). From `overflow` on a number is rounded to an infinite
one. `Rounds` says all this of a number and the floating-point number that it is rounded to.

The model of the floating-point numbers computes with mantissas and exponents. A mantissa is shifted
to the right, the last bit that is lost is kept apart, and whether any other one was set; what comes
out is the quotient rounded to nearest (`roundedMantissa_shiftRight`). The result is put together
from its parts as it was taken apart (`exact_assemble_finite`), where too great an exponent gives an
infinite number.

The main statements are `rounds_add`, `rounds_sub` and `rounds_mul`: the operations give the exact
results rounded. A result that some floating-point number has as its value is not changed
(`Rounds.toRat?_eq`), and any other one by at most one part in 2^53 (`Rounds.abs_sub_le`).
-/

namespace KeyLight.Binary64

open Float.Model UnpackedFloat

/-! ### Nearest multiples -/

/-- The multiple of a unit that is nearest to a number, and of two such multiples the even one. -/
structure IsNearestEven (r unit : Rat) (n : Int) : Prop where
  near : |r - n * unit| ≤ unit / 2
  even : |r - n * unit| = unit / 2 → Even n

namespace IsNearestEven

variable {r unit : Rat} {n : Int}

theorem scale (h : IsNearestEven r unit n) {c : Rat} (hc : 0 < c) :
    IsNearestEven (r * c) (unit * c) n := by
  have hdistance : |r * c - n * (unit * c)| = |r - n * unit| * c := by
    rw [← mul_assoc, ← sub_mul, abs_mul, abs_of_pos hc]
  have hhalf : unit * c / 2 = unit / 2 * c := by ring
  refine ⟨?_, fun htie => h.even ?_⟩
  · rw [hdistance, hhalf]
    exact mul_le_mul_of_nonneg_right h.near hc.le
  · rw [hdistance, hhalf] at htie
    exact mul_right_cancel₀ hc.ne' htie

protected theorem neg (h : IsNearestEven r unit n) : IsNearestEven (-r) unit (-n) := by
  have hdistance : |-r - ((-n : Int) : Rat) * unit| = |r - n * unit| := by
    rw [← abs_neg]
    push_cast
    ring_nf
  exact ⟨hdistance.trans_le h.near, fun htie => (h.even (hdistance.symm.trans htie)).neg⟩

/-- A number is closer to an odd multiple than the middle between this and the next one. -/
theorem lt_of_not_even (h : IsNearestEven r unit n) (hn : ¬Even n) : r < n * unit + unit / 2 := by
  have hhalf : 0 ≤ unit / 2 := (abs_nonneg _).trans h.near
  have hle := (abs_le.mp h.near).2
  refine lt_of_le_of_ne (by linarith) fun htie => hn (h.even ?_)
  rw [htie, add_sub_cancel_left, abs_of_nonneg hhalf]

/-- A multiple of the unit is nearest to itself alone. -/
theorem eq_of_multiple {k : Int} (h : IsNearestEven r unit n) (hunit : 0 < unit)
    (hr : r = k * unit) : n = k := by
  have hnear := h.near
  rw [hr, ← sub_mul, abs_mul, abs_of_pos hunit] at hnear
  have hlt : |((k - n : Int) : Rat)| < 1 := by
    push_cast
    nlinarith
  have hzero : k - n = 0 := Int.abs_lt_one_iff.mp (by exact_mod_cast hlt)
  omega

end IsNearestEven

/-- Dividing to the nearest integer finds the nearest multiple of the divisor. -/
theorem isNearestEven_divNearestEven (num : Nat) {den : Nat} (hden : 0 < den) :
    IsNearestEven num den (divNearestEven num den) := by
  have hrest : ((num % den : Nat) : Rat) < den := by exact_mod_cast Nat.mod_lt num hden
  have hnum : (num : Rat) = (num / den : Nat) * den + (num % den : Nat) := by
    exact_mod_cast (Nat.div_add_mod' num den).symm
  unfold divNearestEven
  generalize num / den = q at *
  generalize num % den = rest at *
  simp only
  rw [hnum]
  split
  · rename_i hbelow
    have hbelow : (2 * rest : Rat) < den := by exact_mod_cast hbelow
    have hdistance : |(q * den + rest : Rat) - ((q : Nat) : Int) * den| = rest := by
      push_cast
      rw [add_sub_cancel_left, abs_of_nonneg (Nat.cast_nonneg _)]
    exact ⟨by linarith, fun htie => by linarith⟩
  rename_i hnot
  have hnot : (den : Rat) ≤ 2 * rest := by exact_mod_cast not_lt.mp hnot
  split
  · rename_i habove
    have habove : (den : Rat) < 2 * rest := by exact_mod_cast habove
    have hdistance : |(q * den + rest : Rat) - ((q + 1 : Nat) : Int) * den| = den - rest := by
      rw [← abs_of_pos (sub_pos.mpr hrest), abs_sub_comm]
      push_cast
      ring_nf
    exact ⟨by linarith, fun htie => by linarith⟩
  · -- both neighbours are at the same distance
    rename_i htie
    have htie : (2 * rest : Rat) = den := le_antisymm (by exact_mod_cast not_lt.mp htie) hnot
    have heven : Even ((q + q % 2 : Nat) : Int) := by
      rw [Int.even_coe_nat, Nat.even_iff]
      omega
    refine ⟨le_of_eq ?_, fun _ => heven⟩
    rcases Nat.mod_two_eq_zero_or_one q with hq | hq <;> rw [hq]
    · push_cast
      rw [add_zero, add_sub_cancel_left, abs_of_nonneg (Nat.cast_nonneg _)]
      linarith
    · rw [abs_of_nonpos] <;> push_cast <;> linarith

/-! ### Shifting mantissas -/

/-- What is shifted out of a mantissa is kept as the two bits that rounding looks at. -/
theorem shiftRight_eq (m n : Nat) :
    (⟨m, false, false⟩ : ExtendedMantissa) >>> (n + 1) =
      ⟨m / 2 ^ (n + 1), m / 2 ^ n % 2 == 1, m % 2 ^ n != 0⟩ := by
  induction n with
  | zero =>
    change ExtendedMantissa.shiftRightOne ⟨m, false, false⟩ = _
    rcases Nat.mod_two_eq_zero_or_one m with h | h <;>
      simp [ExtendedMantissa.shiftRightOne, Nat.mod_one, h]
  | succ n ih =>
    have hstep : (⟨m, false, false⟩ : ExtendedMantissa) >>> (n + 1 + 1) =
        ((⟨m, false, false⟩ : ExtendedMantissa) >>> (n + 1)).shiftRightOne := rfl
    have hpower : m / 2 ^ (n + 1) / 2 = m / 2 ^ (n + 1 + 1) := by
      rw [Nat.div_div_eq_div_mul, ← Nat.pow_succ]
    have hsticky : m % 2 ^ (n + 1) = m % 2 ^ n + 2 ^ n * (m / 2 ^ n % 2) := Nat.mod_mul
    rw [hstep, ih]
    simp only [ExtendedMantissa.shiftRightOne, hpower, hsticky, ExtendedMantissa.mk.injEq, true_and]
    rcases Nat.mod_two_eq_zero_or_one (m / 2 ^ (n + 1)) with h | h <;>
      rcases Nat.mod_two_eq_zero_or_one (m / 2 ^ n) with h' | h' <;> simp [h, h']

theorem mantissa_shiftRight (m n : Nat) :
    ((⟨m, false, false⟩ : ExtendedMantissa) >>> n).mantissa = m / 2 ^ n := by
  cases n with
  | zero => exact (Nat.div_one m).symm
  | succ n => rw [shiftRight_eq]

/-- A mantissa that is shifted is rounded to the nearest, a tie to the even one. -/
theorem roundedMantissa_shiftRight (m n : Nat) :
    ((⟨m, false, false⟩ : ExtendedMantissa) >>> n).roundedMantissa =
      divNearestEven m (2 ^ n) := by
  cases n with
  | zero =>
    rw [Nat.pow_zero, divNearestEven_one]
    rfl
  | succ n =>
    have hrest : m % 2 ^ (n + 1) = m % 2 ^ n + 2 ^ n * (m / 2 ^ n % 2) := Nat.mod_mul
    have hlt : m % 2 ^ n < 2 ^ n := Nat.mod_lt _ (Nat.two_pow_pos n)
    have hpower : 2 ^ (n + 1) = 2 * 2 ^ n := Nat.pow_succ'
    rw [shiftRight_eq, ExtendedMantissa.roundedMantissa, divNearestEven, hrest, hpower]
    generalize m / (2 * 2 ^ n) = q
    generalize m % 2 ^ n = sticky at *
    -- the first bit that is lost tells which half the rest is in, the others whether it is a tie
    rcases Nat.mod_two_eq_zero_or_one (m / 2 ^ n) with h | h <;> rw [h]
    · have hbelow : 2 * (sticky + 2 ^ n * 0) < 2 * 2 ^ n := by omega
      rw [if_pos hbelow]
      cases sticky <;> rfl
    · rw [if_neg (by omega)]
      cases sticky with
      | zero =>
        rw [if_neg (by omega)]
        rfl
      | succ k =>
        rw [if_pos (by omega)]
        rfl

/-! ### Mantissas and exponents -/

/-- The mantissas and exponents of finite numbers: there are 53 bits, and fewer only with the least
exponent. -/
structure InForm (m : Nat) (e : Int) : Prop where
  lt : m < 2 ^ 53
  least : -1074 ≤ e
  most : e ≤ 971
  full : -1074 < e → 2 ^ 52 ≤ m

theorem inForm_of_exact {x : Float} {negative : Bool} {m : Nat} {e : Int}
    (h : exact x = .finite negative m e) : InForm m e := by
  have h52 : Nat.pow 2 52 = 4503599627370496 := rfl
  unfold exact at h
  simp only [h52] at h
  split at h
  · split at h <;> cases h
  split at h
  all_goals
    obtain ⟨-, rfl, rfl⟩ := Exact.finite.inj h
    constructor <;> omega

/-- The number with the given sign, mantissa and exponent. -/
def assemble (u : UnpackedFloat) : Float := .ofModel (.pack u)

theorem exact_assemble (u : UnpackedFloat) :
    exact (assemble u) = ofUnpacked
      (UnpackedFloat.unpack .binary64 (UnpackedFloat.pack .binary64 u)) :=
  exact_eq _

theorem toRat?_of_exact {x : Float} {negative : Bool} {m : Nat} {e : Int}
    (h : exact x = .finite negative m e) : toRat? x = some (rational negative m e) := by
  rw [toRat?, h]

theorem toRat?_assemble_zero (s : Sign) : toRat? (assemble (.zero s)) = some 0 := by
  have hexact : exact (assemble (.zero s)) = .finite (s == .negative) 0 (-1074) := by
    rw [exact_assemble, UnpackedFloat.pack, unpack_packedZero]
    rfl
  rw [toRat?_of_exact hexact, rational_zero]

section Pack

variable {s : Sign} {m : Nat} {e : Int} (hm : 0 < m)

theorem pack_finite :
    UnpackedFloat.pack .binary64 (.finite s m e hm) =
      if 2048 ≤ (e + 1075).toNat + 1 then packedInfinity .binary64 s
      else if m.log2 + 1 = 53 then
        packComponents .binary64 s (BitVec.ofNat 11 (e + 1075).toNat) (BitVec.ofNat 52 m)
      else packComponents .binary64 s (BitVec.ofNat 11 0) (BitVec.ofNat 52 m) := by
  have hbias : (e + 1075).toNat = (e + (1023 : Nat) + (52 : Nat)).toNat := by omega
  rw [hbias]
  rfl

/-- The parts of a number that is not infinite are found in its bits. -/
theorem ofUnpacked_packComponents (s : Sign) {field : Nat} (hfield : field < 2047) (m : Nat) :
    ofUnpacked (UnpackedFloat.unpack .binary64
      (packComponents .binary64 s (BitVec.ofNat 11 field) (BitVec.ofNat 52 m))) =
        if field = 0 then .finite (s == .negative) (m % 2 ^ 52) (-1074)
        else .finite (s == .negative) (m % 2 ^ 52 + 2 ^ 52) ((field : Int) - 1075) := by
  have hsize : field % 2 ^ 11 = field := Nat.mod_eq_of_lt (by omega)
  rw [ofUnpacked_unpack, ← toNat_unpackExponent, ← toNat_unpackMantissa, ← sign_eq_negative,
    unpackExponent_packComponents, unpackMantissa_packComponents, unpackSign_packComponents,
    Sign.ofBitVec_toBitVec, BitVec.toNat_ofNat, BitVec.toNat_ofNat, hsize,
    if_neg (Nat.ne_of_lt hfield)]
  rfl

/-- Too great an exponent gives an infinite number. -/
theorem exact_assemble_of_lt (he : 971 < e) :
    exact (assemble (.finite s m e hm)) = .infinite (s == .negative) := by
  rw [exact_assemble, pack_finite, if_pos (by omega)]
  cases s <;> rfl

/-- A number in form is put together and taken apart again. -/
theorem exact_assemble_finite (hform : InForm m e) :
    exact (assemble (.finite s m e hm)) = .finite (s == .negative) m e := by
  obtain ⟨hlt, hleast, hmost, hfull⟩ := hform
  have hlog : m.log2 + 1 = 53 ↔ 2 ^ 52 ≤ m := by
    have hbits : m.log2 < 53 := log2_lt_of_lt (by decide) hlt
    rw [← Nat.le_log2 hm.ne']
    omega
  rw [exact_assemble, pack_finite, if_neg (by omega)]
  by_cases hbits : 2 ^ 52 ≤ m
  · rw [if_pos (hlog.mpr hbits), ofUnpacked_packComponents s (by omega), if_neg (by omega)]
    congr <;> omega
  · obtain rfl : e = -1074 := by
      by_contra hne
      exact hbits (hfull (by omega))
    rw [if_neg (mt hlog.mp hbits), ofUnpacked_packComponents s (by decide), if_pos rfl,
      Nat.mod_eq_of_lt (not_le.mp hbits)]

end Pack

/-! ### Rounding to 53 bits -/

/-- The exponent of the last bit that is kept of `m · 2^e`. -/
def lastKept (m : Nat) (e : Int) : Int := max ((m.log2 : Int) + e - 52) (-1074)

/-- The mantissa that is kept of `m · 2^e`. -/
def kept (m : Nat) (e : Int) : Nat := divNearestEven m (2 ^ (lastKept m e - e).toNat)

section Kept

variable {m : Nat} {e : Int}

theorem shiftToTargetExponent_eq (m : Nat) (e : Int) :
    shiftToTargetExponent .binary64 m e .exact =
      ((⟨m, false, false⟩ : ExtendedMantissa) >>> (lastKept m e - e).toNat,
        e + (lastKept m e - e).toNat) := by
  have htarget : lastKept m e =
      max ((m.log2 : Int) + 1 + e - (53 : Nat)) (3 - 2 ^ (11 - 1) - (53 : Nat)) := by
    unfold lastKept
    omega
  rw [htarget]
  rfl

theorem kept_le (he : e ≤ lastKept m e) : kept m e ≤ 2 ^ 53 := by
  have hlt : m < 2 ^ (m.log2 + 1) := Nat.lt_log2_self
  have hpower : 2 ^ (m.log2 + 1) ≤ 2 ^ 53 * 2 ^ (lastKept m e - e).toNat := by
    rw [← Nat.pow_add]
    refine Nat.pow_le_pow_right (by decide) ?_
    unfold lastKept at *
    omega
  have hquotient : m / 2 ^ (lastKept m e - e).toNat < 2 ^ 53 :=
    (Nat.div_lt_iff_lt_mul (Nat.two_pow_pos _)).mpr (hlt.trans_le hpower)
  exact (divNearestEven_le _ _).trans hquotient

theorem le_kept (hm : 0 < m) (he : e ≤ lastKept m e) (hleast : -1074 < lastKept m e) :
    2 ^ 52 ≤ kept m e := by
  have hpower : 2 ^ 52 * 2 ^ (lastKept m e - e).toNat ≤ m := by
    rw [← Nat.pow_add]
    refine le_trans (Nat.pow_le_pow_right (by decide) ?_) (Nat.log2_self_le hm.ne')
    unfold lastKept at *
    omega
  exact ((Nat.le_div_iff_mul_le (Nat.two_pow_pos _)).mpr hpower).trans (div_le_divNearestEven _ _)

theorem shift_eq_zero (hlt : kept m e < 2 ^ 53) :
    (lastKept (kept m e) (lastKept m e) - lastKept m e).toNat = 0 := by
  have hbits : (kept m e).log2 < 53 := log2_lt_of_lt (by decide) hlt
  have hleast : -1074 ≤ lastKept m e := le_max_right _ _
  generalize lastKept m e = k at *
  unfold lastKept
  omega

theorem shift_eq_one (hcarry : kept m e = 2 ^ 53) :
    (lastKept (kept m e) (lastKept m e) - lastKept m e).toNat = 1 := by
  have hbits : (2 ^ 53).log2 = 53 := Nat.log2_two_pow
  have hleast : -1074 ≤ lastKept m e := le_max_right _ _
  rw [hcarry]
  generalize lastKept m e = k at *
  rw [lastKept, hbits]
  omega

/-- Rounding shifts the last bit that is kept to the end, and once more if that carries. -/
theorem roundWithAccuracy_eq (s : Sign) (he : e ≤ lastKept m e) {shift : Nat}
    (hshift : (lastKept (kept m e) (lastKept m e) - lastKept m e).toNat = shift) :
    roundWithAccuracy .binary64 s m e .exact =
      if h : kept m e / 2 ^ shift = 0 then .zero s
      else .finite s (kept m e / 2 ^ shift) (lastKept m e + shift) (Nat.pos_of_ne_zero h) := by
  subst hshift
  have hexponent : e + (lastKept m e - e).toNat = lastKept m e := by omega
  unfold roundWithAccuracy
  simp only [shiftToTargetExponent_eq, roundedMantissa_shiftRight, mantissa_shiftRight, hexponent]
  rfl

theorem round_of_zero (s : Sign) (he : e ≤ lastKept m e) (hzero : kept m e = 0) :
    roundWithAccuracy .binary64 s m e .exact = .zero s := by
  have hlt : kept m e < 2 ^ 53 := by omega
  rw [roundWithAccuracy_eq s he (shift_eq_zero hlt), dif_pos (by rw [hzero, Nat.zero_div])]

theorem round_of_lt (s : Sign) (he : e ≤ lastKept m e) (hpos : 0 < kept m e)
    (hlt : kept m e < 2 ^ 53) :
    roundWithAccuracy .binary64 s m e .exact = .finite s (kept m e) (lastKept m e) hpos := by
  have hkept : kept m e / 2 ^ 0 = kept m e := Nat.div_one _
  rw [roundWithAccuracy_eq s he (shift_eq_zero hlt), dif_neg (by omega)]
  congr
  exact add_zero _

theorem round_of_carry (s : Sign) (he : e ≤ lastKept m e) (hcarry : kept m e = 2 ^ 53) :
    roundWithAccuracy .binary64 s m e .exact =
      .finite s (2 ^ 52) (lastKept m e + 1) (Nat.two_pow_pos 52) := by
  have hhalf : kept m e / 2 ^ 1 = 2 ^ 52 := by omega
  rw [roundWithAccuracy_eq s he (shift_eq_one hcarry), dif_neg (by omega)]
  simp only [hhalf]
  rfl

/-- The mantissa that is kept is that of the number, if the exponent is not too great. -/
theorem toRat?_round (s : Sign) (hm : 0 < m) (he : e ≤ lastKept m e)
    (hfits : lastKept m e < 971 ∨ lastKept m e = 971 ∧ kept m e < 2 ^ 53) :
    toRat? (assemble (roundWithAccuracy .binary64 s m e .exact)) =
      some (rational (s == .negative) (kept m e) (lastKept m e)) := by
  have hleast : -1074 ≤ lastKept m e := le_max_right _ _
  rcases Nat.eq_zero_or_pos (kept m e) with hzero | hpos
  · rw [round_of_zero s he hzero, toRat?_assemble_zero, hzero, rational_zero]
  rcases (kept_le he).lt_or_eq with hlt | hcarry
  · have hmost : lastKept m e ≤ 971 := by omega
    rw [round_of_lt s he hpos hlt,
      toRat?_of_exact (exact_assemble_finite _ ⟨hlt, hleast, hmost, le_kept hm he⟩)]
  · -- the carry goes to the exponent
    have hmost : lastKept m e + 1 ≤ 971 := by omega
    have hdouble : ((2 ^ 53 : Nat) : Rat) * 2 ^ lastKept m e =
        (2 ^ 52 : Nat) * 2 ^ (lastKept m e + 1) := by
      rw [zpow_add_one₀ two_ne_zero]
      push_cast
      ring
    rw [round_of_carry s he hcarry, toRat?_of_exact (exact_assemble_finite _
      ⟨by decide, by omega, hmost, fun _ => le_refl _⟩), hcarry]
    simp only [rational_eq, hdouble]

/-- Otherwise it is infinite. -/
theorem exact_round (s : Sign) (hm : 0 < m) (he : e ≤ lastKept m e)
    (hgreat : 971 < lastKept m e ∨ lastKept m e = 971 ∧ kept m e = 2 ^ 53) :
    exact (assemble (roundWithAccuracy .binary64 s m e .exact)) = .infinite (s == .negative) := by
  have hpos : 0 < kept m e := (Nat.two_pow_pos 52).trans_le (le_kept hm he (by omega))
  rcases (kept_le he).lt_or_eq with hlt | hcarry
  · rw [round_of_lt s he hpos hlt, exact_assemble_of_lt _ (by omega)]
  · rw [round_of_carry s he hcarry, exact_assemble_of_lt _ (by omega)]

end Kept

/-- A number in form keeps all its bits. -/
theorem InForm.kept_eq {m : Nat} {e : Int} (hform : InForm m e) (hm : 0 < m) :
    lastKept m e = e ∧ kept m e = m := by
  obtain ⟨hlt, hleast, -, hfull⟩ := hform
  have hlast : lastKept m e = e := by
    have hmost : m.log2 < 53 := log2_lt_of_lt (by decide) hlt
    unfold lastKept
    rcases hleast.lt_or_eq with hmore | rfl
    · have hbits : 52 ≤ m.log2 := (Nat.le_log2 hm.ne').mpr (hfull hmore)
      omega
    · omega
  refine ⟨hlast, ?_⟩
  rw [kept, hlast, sub_self]
  exact divNearestEven_one m

/-- A product of numbers in form has no bits to spare. -/
theorem InForm.le_lastKept_mul {m m' : Nat} {e e' : Int} (hform : InForm m e)
    (hform' : InForm m' e') (hm : 0 < m) (hm' : 0 < m') :
    e + e' ≤ lastKept (m * m') (e + e') := by
  have hproduct : m * m' ≠ 0 := (Nat.mul_pos hm hm').ne'
  obtain ⟨-, hleast, -, hfull⟩ := hform
  obtain ⟨-, hleast', -, hfull'⟩ := hform'
  unfold lastKept
  rcases hleast.lt_or_eq with hmore | rfl
  · have hbits := (Nat.le_log2 hproduct).mpr ((hfull hmore).trans (Nat.le_mul_of_pos_right m hm'))
    omega
  rcases hleast'.lt_or_eq with hmore | rfl
  · have hbits := (Nat.le_log2 hproduct).mpr ((hfull' hmore).trans (Nat.le_mul_of_pos_left m' hm))
    omega
  · omega

/-! ### The number nearest to a rational one -/

/-- The exponent of the last bit that is kept of a number. -/
def lastBit (r : Rat) : Int := max (Int.log 2 |r| - 52) (-1074)

/-- The numbers from here on are infinite when they are rounded. -/
def overflow : Rat := (2 ^ 54 - 1) * 2 ^ (970 : Int)

/-- A floating-point number is what a number is rounded to: its nearest multiple of the last bit
that is kept, or infinite if it is too great. -/
inductive Rounds (r : Rat) (x : Float) : Prop
  | finite {n : Int} (hr : |r| < overflow) (hn : IsNearestEven r (2 ^ lastBit r) n)
      (hx : toRat? x = some ((n : Rat) * 2 ^ lastBit r))
  | infinite (hr : overflow ≤ |r|) (hx : exact x = .infinite (decide (r < 0)))

/-- The greatest exponents, told by half the greatest last bit. -/
theorem zpow_add_970 (k : Nat) : (2 : Rat) ^ (970 + k : Int) = 2 ^ k * 2 ^ (970 : Int) := by
  rw [add_comm, zpow_add₀ two_ne_zero, zpow_natCast]

section Magnitude

variable {m : Nat} {e : Int}

theorem zpow_le_mul (hm : 0 < m) (e : Int) : (2 : Rat) ^ ((m.log2 : Int) + e) ≤ m * 2 ^ e := by
  rw [zpow_add₀ two_ne_zero, zpow_natCast]
  have hle : ((2 ^ m.log2 : Nat) : Rat) ≤ m := by exact_mod_cast Nat.log2_self_le hm.ne'
  push_cast at hle
  gcongr

theorem mul_lt_zpow (m : Nat) (e : Int) : (m : Rat) * 2 ^ e < 2 ^ ((m.log2 : Int) + e + 1) := by
  have hlt : (m : Rat) < ((2 ^ (m.log2 + 1) : Nat) : Rat) := by exact_mod_cast Nat.lt_log2_self
  push_cast at hlt
  have hexponent : ((m.log2 : Int) + e + 1) = ((m.log2 + 1 : Nat) : Int) + e := by
    push_cast
    ring
  rw [hexponent, zpow_add₀ two_ne_zero, zpow_natCast]
  gcongr

theorem lastBit_mul (hm : 0 < m) (e : Int) : lastBit ((m : Rat) * 2 ^ e) = lastKept m e := by
  have hpos : (0 : Rat) < m * 2 ^ e := by positivity
  have hlog : Int.log 2 ((m : Rat) * 2 ^ e) = m.log2 + e := by
    refine le_antisymm ?_ ?_
    · rw [← Int.lt_add_one_iff, ← Int.lt_zpow_iff_log_lt one_lt_two hpos]
      exact_mod_cast mul_lt_zpow m e
    · rw [← Int.zpow_le_iff_le_log one_lt_two hpos]
      exact_mod_cast zpow_le_mul hm e
  rw [lastBit, abs_of_pos hpos, hlog, lastKept]

theorem isNearestEven_kept (he : e ≤ lastKept m e) :
    IsNearestEven (m * 2 ^ e) (2 ^ lastKept m e) (kept m e) := by
  have hnear := (isNearestEven_divNearestEven m (Nat.two_pow_pos (lastKept m e - e).toNat)).scale
    (c := 2 ^ e) (by positivity)
  have hunit : (((2 ^ (lastKept m e - e).toNat : Nat) : Rat)) * 2 ^ e = 2 ^ lastKept m e := by
    push_cast
    rw [← zpow_natCast, ← zpow_add₀ two_ne_zero]
    congr 1
    omega
  rwa [hunit] at hnear

/-- A number with fewer digits is not too great. -/
theorem lt_overflow (hlt : lastKept m e < 971) : (m : Rat) * 2 ^ e < overflow := by
  have hfewer : (2 : Rat) ^ ((m.log2 : Int) + e + 1) ≤ 2 ^ (970 + (53 : Nat) : Int) := by
    refine zpow_le_zpow_right₀ one_le_two ?_
    unfold lastKept at hlt
    omega
  rw [zpow_add_970] at hfewer
  refine ((mul_lt_zpow m e).trans_le hfewer).trans ?_
  unfold overflow
  gcongr
  norm_num

/-- A number with more digits is too great. -/
theorem overflow_le (hm : 0 < m) (hlt : 971 < lastKept m e) : overflow ≤ m * 2 ^ e := by
  have hmore : (2 : Rat) ^ (970 + (54 : Nat) : Int) ≤ 2 ^ ((m.log2 : Int) + e) := by
    refine zpow_le_zpow_right₀ one_le_two ?_
    unfold lastKept at hlt
    omega
  rw [zpow_add_970] at hmore
  refine le_trans ?_ (hmore.trans (zpow_le_mul hm e))
  unfold overflow
  gcongr
  norm_num

/-- Among the numbers with as many digits as there can be, those are too great that are rounded up
to one digit more. -/
theorem overflow_le_iff_carry (he : e ≤ lastKept m e) (hlast : lastKept m e = 971) :
    overflow ≤ m * 2 ^ e ↔ kept m e = 2 ^ 53 := by
  have hnear := isNearestEven_kept he
  have hunit : (2 : Rat) ^ lastKept m e = 2 * 2 ^ (970 : Int) := by
    rw [hlast.trans (show (971 : Int) = 970 + (1 : Nat) from rfl), zpow_add_970, pow_one]
  have hpos : (0 : Rat) < 2 ^ (970 : Int) := by positivity
  unfold overflow
  rw [hunit] at hnear
  generalize (2 : Rat) ^ (970 : Int) = half at *
  obtain ⟨hlower, hupper⟩ := abs_le.mp hnear.near
  rcases lt_trichotomy (kept m e) (2 ^ 53 - 1) with hlt | heq | hgt
  · have hkept : (kept m e : Rat) + 2 ≤ 2 ^ 53 := by
      have hkept : kept m e + 2 ≤ 2 ^ 53 := by omega
      exact_mod_cast hkept
    refine iff_of_false (not_le.mpr ?_) (by omega)
    push_cast at hupper
    nlinarith
  · -- the greatest multiple is odd, so a tie with it is rounded up
    have hodd := hnear.lt_of_not_even (by rw [heq]; decide)
    refine iff_of_false (not_le.mpr ?_) (by omega)
    rw [heq] at hodd
    push_cast at hodd
    linarith
  · have hcarry : kept m e = 2 ^ 53 := by
      have hle := kept_le he
      omega
    refine iff_of_true ?_ hcarry
    rw [hcarry] at hlower
    push_cast at hlower
    linarith

/-- A number is too great if its last bit is, or if it is rounded up to where this begins. -/
theorem overflow_le_iff (hm : 0 < m) (he : e ≤ lastKept m e) :
    overflow ≤ m * 2 ^ e ↔
      971 < lastKept m e ∨ lastKept m e = 971 ∧ kept m e = 2 ^ 53 := by
  rcases lt_trichotomy (lastKept m e) 971 with hlt | heq | hgt
  · exact iff_of_false (not_le.mpr (lt_overflow hlt)) (by omega)
  · rw [overflow_le_iff_carry he heq]
    omega
  · exact iff_of_true (overflow_le hm hgt) (.inl hgt)

/-- The value of a mantissa with a sign and an exponent. -/
def signedValue (s : Sign) (m : Nat) (e : Int) : Rat := (s.apply m : Int) * 2 ^ e

theorem signedValue_positive (m : Nat) (e : Int) : signedValue .positive m e = m * 2 ^ e := rfl

theorem signedValue_negative (m : Nat) (e : Int) : signedValue .negative m e = -(m * 2 ^ e) := by
  change ((-(m : Int) : Int) : Rat) * _ = _
  push_cast
  ring

theorem signedValue_eq_rational (s : Sign) (m : Nat) (e : Int) :
    signedValue s m e = rational (s == .negative) m e := by
  rw [rational_eq]
  cases s with
  | positive => exact (one_mul _).symm
  | negative => exact (signedValue_negative m e).trans (neg_one_mul _).symm

theorem abs_signedValue (s : Sign) (m : Nat) (e : Int) : |signedValue s m e| = m * 2 ^ e := by
  have hnonneg : (0 : Rat) ≤ m * 2 ^ e := by positivity
  cases s with
  | positive => rw [signedValue_positive, abs_of_nonneg hnonneg]
  | negative => rw [signedValue_negative, abs_neg, abs_of_nonneg hnonneg]

theorem signedValue_neg_iff (hm : 0 < m) (s : Sign) (e : Int) :
    decide (signedValue s m e < 0) = (s == .negative) := by
  have hpos : (0 : Rat) < m * 2 ^ e := by positivity
  cases s with
  | positive => exact decide_eq_false (not_lt.mpr hpos.le)
  | negative =>
    rw [signedValue_negative]
    exact decide_eq_true (neg_neg_of_pos hpos)

/-- **Rounding to 53 bits gives the nearest number.** -/
theorem rounds_roundWithAccuracy (s : Sign) (hm : 0 < m) (he : e ≤ lastKept m e) :
    Rounds (signedValue s m e) (assemble (roundWithAccuracy .binary64 s m e .exact)) := by
  have hbit : lastBit (signedValue s m e) = lastKept m e := by
    rw [← lastBit_mul hm, lastBit, lastBit, abs_signedValue, abs_of_pos (by positivity)]
  by_cases hgreat : overflow ≤ |signedValue s m e|
  · refine .infinite hgreat ?_
    rw [abs_signedValue, overflow_le_iff hm he] at hgreat
    rw [signedValue_neg_iff hm, exact_round s hm he hgreat]
  · have hlt := not_le.mp hgreat
    rw [abs_signedValue, overflow_le_iff hm he] at hgreat
    have hle := kept_le he
    have hvalue := toRat?_round s hm he (by omega)
    rw [← signedValue_eq_rational, signedValue, ← hbit] at hvalue
    refine .finite hlt ?_ hvalue
    rw [hbit]
    cases s with
    | positive => exact isNearestEven_kept he
    | negative =>
      rw [signedValue_negative]
      exact (isNearestEven_kept he).neg

/-- A mantissa that is shifted to the left. -/
theorem mul_two_pow_mul (m k : Nat) (e : Int) :
    ((m * 2 ^ k : Nat) : Rat) * 2 ^ (e - k) = m * 2 ^ e := by
  rw [zpow_sub₀ two_ne_zero, zpow_natCast]
  push_cast
  field_simp

/-- Rounding a number of any length. -/
theorem rounds_round (s : Sign) (hm : 0 < m) (e : Int) :
    Rounds (signedValue s m e) (assemble (round .binary64 s m e)) := by
  have htarget : lastKept m e = Format.binary64.targetExponent (totalExponent m e) := by
    change _ = max ((m.log2 : Int) + 1 + e - (53 : Nat)) (3 - 2 ^ (11 - 1) - (53 : Nat))
    unfold lastKept
    omega
  generalize hk : (e - lastKept m e).toNat = k
  have hround : round .binary64 s m e =
      roundWithAccuracy .binary64 s (m * 2 ^ k) (e - k) .exact := by
    rw [← hk, ← Nat.shiftLeft_eq, htarget]
    rfl
  have hvalue : signedValue s m e = signedValue s (m * 2 ^ k) (e - k) := by
    cases s with
    | positive => exact (mul_two_pow_mul m k e).symm
    | negative => rw [signedValue_negative, signedValue_negative, mul_two_pow_mul]
  have hpos : 0 < m * 2 ^ k := by positivity
  -- the shifted number is the same, and so is its last bit
  have hkept : lastKept (m * 2 ^ k) (e - k) = lastKept m e := by
    rw [← lastBit_mul hpos, mul_two_pow_mul, lastBit_mul hm]
  rw [hround, hvalue]
  exact rounds_roundWithAccuracy s hpos (by omega)

end Magnitude

/-! ### Sums, differences and products -/

theorem Rounds.of_zero {x : Float} (hx : toRat? x = some 0) : Rounds 0 x := by
  have hunit : (0 : Rat) < 2 ^ lastBit 0 := by positivity
  refine .finite (n := 0) ?_ ⟨?_, fun _ => Even.zero⟩ ?_
  · rw [abs_zero, overflow]
    positivity
  · simp only [Int.cast_zero, zero_mul, sub_zero, abs_zero]
    positivity
  · rw [hx, Int.cast_zero, zero_mul]

/-- Adding up mantissas. -/
theorem rounds_normalize (m e : Int) :
    Rounds (m * 2 ^ e : Rat) (assemble (UnpackedFloat.normalize .binary64 m e .positive)) := by
  unfold UnpackedFloat.normalize
  split
  · rename_i hlt
    have hneg : m < 0 := Int.compare_eq_lt.mp hlt
    have hvalue : signedValue .negative (-m).toNat e = m * 2 ^ e := by
      rw [signedValue]
      change ((-((-m).toNat : Int) : Int) : Rat) * _ = _
      rw [Int.toNat_of_nonneg (by omega), neg_neg]
    rw [← hvalue]
    exact rounds_round .negative (by omega) e
  · rename_i heq
    obtain rfl : m = 0 := Int.compare_eq_eq.mp heq
    rw [Int.cast_zero, zero_mul]
    exact .of_zero (toRat?_assemble_zero _)
  · rename_i hgt
    have hpos : 0 < m := Int.compare_eq_gt.mp hgt
    have hvalue : signedValue .positive m.toNat e = m * 2 ^ e := by
      rw [signedValue]
      change ((m.toNat : Int) : Rat) * _ = _
      rw [Int.toNat_of_nonneg hpos.le]
    rw [← hvalue]
    exact rounds_round .positive (by omega) e

/-- A value is kept when the mantissa is shifted to a lower exponent. -/
theorem signedValue_eq_shifted (s : Sign) (m : Nat) {e k : Int} (hle : k ≤ e) :
    signedValue s m e = ((s.apply ((m <<< (e - k).toNat : Nat) : Int) : Int) : Rat) * 2 ^ k := by
  have hvalue := mul_two_pow_mul m (e - k).toNat e
  have hk : e - ((e - k).toNat : Int) = k := by omega
  rw [hk, ← Nat.shiftLeft_eq] at hvalue
  change _ = signedValue s _ k
  cases s with
  | positive => exact hvalue.symm
  | negative => rw [signedValue_negative, signedValue_negative, hvalue]

/-- The finite numbers in form, with their values. -/
inductive HasValue : UnpackedFloat → Rat → Prop
  | zero (s : Sign) : HasValue (.zero s) 0
  | finite {s : Sign} {m : Nat} {e : Int} (hm : 0 < m) (hform : InForm m e) :
      HasValue (.finite s m e hm) (signedValue s m e)

theorem assemble_unpack (x : Float) : assemble x.toModel.unpack = x := by
  have hbits := pack_unpack_of_valid x.toModel.valid
  have hmodel : Float.Model.pack x.toModel.unpack = x.toModel := by
    unfold Float.Model.pack Float.Model.unpack
    congr
  rw [assemble, hmodel]

theorem hasValue_unpack {x : Float} {q : Rat} (h : toRat? x = some q) :
    HasValue x.toModel.unpack q := by
  have hexact := exact_eq x
  unfold toRat? at h
  cases hx : x.toModel.unpack with
  | notANumber | infinity =>
    rw [hx] at hexact
    rw [hexact] at h
    cases h
  | zero s =>
    rw [hx] at hexact
    rw [hexact] at h
    obtain rfl : rational _ 0 _ = q := Option.some.inj h
    rw [rational_zero]
    exact .zero s
  | finite s m e hm =>
    rw [hx] at hexact
    rw [hexact] at h
    obtain rfl : rational _ m e = q := Option.some.inj h
    rw [← signedValue_eq_rational]
    exact .finite hm (inForm_of_exact hexact)

namespace HasValue

variable {u v : UnpackedFloat} {p q : Rat}

theorem toRat? (h : HasValue u q) : toRat? (assemble u) = some q := by
  cases h with
  | zero s => exact toRat?_assemble_zero s
  | finite hm hform =>
    rw [toRat?_of_exact (exact_assemble_finite hm hform), signedValue_eq_rational]

protected theorem neg (h : HasValue u q) : HasValue u.neg (-q) := by
  cases h with
  | zero s =>
    rw [neg_zero]
    exact .zero _
  | @finite s m e hm hform =>
    have hvalue : -signedValue s m e = signedValue (-s) m e := by
      cases s with
      | positive => exact (signedValue_negative m e).symm
      | negative => rw [signedValue_negative, neg_neg]; rfl
    rw [hvalue]
    exact .finite hm hform

/-- A number is rounded to itself. -/
theorem rounds (h : HasValue u q) : Rounds q (assemble u) := by
  cases h with
  | zero s => exact .of_zero (toRat?_assemble_zero s)
  | @finite s m e hm hform =>
    obtain ⟨hlast, hkept⟩ := hform.kept_eq hm
    have hpos : 0 < kept m e := hm.trans_eq hkept.symm
    have hlt : kept m e < 2 ^ 53 := hkept.trans_lt hform.lt
    have hround := rounds_roundWithAccuracy s hm hlast.ge
    rw [round_of_lt s hlast.ge hpos hlt] at hround
    simpa only [hlast, hkept] using hround

/-- Sums are rounded. -/
theorem rounds_add (hu : HasValue u p) (hv : HasValue v q) :
    Rounds (p + q) (assemble (UnpackedFloat.add .binary64 u v)) := by
  cases hu with
  | zero s =>
    rw [zero_add]
    cases hv with
    | zero s' => cases s <;> cases s' <;> exact .of_zero (toRat?_assemble_zero _)
    | finite hm hform => exact (HasValue.finite hm hform).rounds
  | @finite s m e hm hform =>
    cases hv with
    | zero s' =>
      rw [add_zero]
      exact (HasValue.finite hm hform).rounds
    | @finite s' m' e' hm' hform' =>
      rw [signedValue_eq_shifted s m (min_le_left e e'),
        signedValue_eq_shifted s' m' (min_le_right e e'), ← add_mul, ← Int.cast_add]
      exact rounds_normalize _ _

/-- Differences are rounded. -/
theorem rounds_sub (hu : HasValue u p) (hv : HasValue v q) :
    Rounds (p - q) (assemble (UnpackedFloat.sub .binary64 u v)) := by
  have hadd : UnpackedFloat.sub .binary64 u v = UnpackedFloat.add .binary64 u v.neg := by
    cases hu with
    | zero s =>
      cases hv with
      | zero s' => rfl
      | finite hm hform => rfl
    | finite hm hform =>
      cases hv with
      | zero s' => rfl
      | @finite s' m' e' hm' hform' =>
        have hsign (k : Int) : (-s').apply k = -s'.apply k := by
          cases s' with
          | positive => rfl
          | negative => exact (neg_neg k).symm
        simp only [UnpackedFloat.sub, UnpackedFloat.add, UnpackedFloat.neg, hsign, sub_eq_add_neg]
  rw [hadd, sub_eq_add_neg]
  exact hu.rounds_add hv.neg

/-- Products are rounded. -/
theorem rounds_mul (hu : HasValue u p) (hv : HasValue v q) :
    Rounds (p * q) (assemble (UnpackedFloat.mul .binary64 u v)) := by
  cases hu with
  | zero s =>
    rw [zero_mul]
    cases hv <;> exact .of_zero (toRat?_assemble_zero _)
  | @finite s m e hm hform =>
    cases hv with
    | zero s' =>
      rw [mul_zero]
      exact .of_zero (toRat?_assemble_zero _)
    | @finite s' m' e' hm' hform' =>
      have hvalue : signedValue s m e * signedValue s' m' e' =
          signedValue (s * s') (m * m') (e + e') := by
        have hproduct : (m : Rat) * 2 ^ e * (m' * 2 ^ e') = (m * m' : Nat) * 2 ^ (e + e') := by
          rw [zpow_add₀ two_ne_zero]
          push_cast
          ring
        cases s <;> cases s'
        · rw [signedValue_negative, signedValue_negative, neg_mul_neg, hproduct]
          rfl
        · rw [signedValue_negative, signedValue_positive, neg_mul, hproduct]
          exact (signedValue_negative _ _).symm
        · rw [signedValue_negative, signedValue_positive, mul_neg, hproduct]
          exact (signedValue_negative _ _).symm
        · exact hproduct
      rw [hvalue]
      exact rounds_roundWithAccuracy _ (Nat.mul_pos hm hm') (hform.le_lastKept_mul hform' hm hm')

end HasValue

section Operations

variable {x y : Float} {p q : Rat}

/-- **Sums of floating-point numbers are the exact sums rounded.** -/
theorem rounds_add (hx : toRat? x = some p) (hy : toRat? y = some q) : Rounds (p + q) (x + y) :=
  (hasValue_unpack hx).rounds_add (hasValue_unpack hy)

/-- **So are differences.** -/
theorem rounds_sub (hx : toRat? x = some p) (hy : toRat? y = some q) : Rounds (p - q) (x - y) :=
  (hasValue_unpack hx).rounds_sub (hasValue_unpack hy)

/-- **So are products.** -/
theorem rounds_mul (hx : toRat? x = some p) (hy : toRat? y = some q) : Rounds (p * q) (x * y) :=
  (hasValue_unpack hx).rounds_mul (hasValue_unpack hy)

/-- A number is rounded to itself. -/
theorem rounds_self (hx : toRat? x = some p) : Rounds p x := by
  have hself := (hasValue_unpack hx).rounds
  rwa [assemble_unpack] at hself

/-- The multiples of the least number above zero. -/
def IsMultiple (r : Rat) : Prop := ∃ k : Int, r = k * 2 ^ (-1074 : Int)

theorem IsMultiple.add (hp : IsMultiple p) (hq : IsMultiple q) : IsMultiple (p + q) := by
  obtain ⟨k, rfl⟩ := hp
  obtain ⟨l, rfl⟩ := hq
  exact ⟨k + l, by rw [Int.cast_add, add_mul]⟩

theorem IsMultiple.sub (hp : IsMultiple p) (hq : IsMultiple q) : IsMultiple (p - q) := by
  obtain ⟨k, rfl⟩ := hp
  obtain ⟨l, rfl⟩ := hq
  exact ⟨k - l, by rw [Int.cast_sub, sub_mul]⟩

/-- The values of finite numbers are among them. -/
theorem isMultiple_of_toRat? (hx : toRat? x = some p) : IsMultiple p := by
  have hvalue := hasValue_unpack hx
  generalize x.toModel.unpack = u at hvalue
  cases hvalue with
  | zero s => exact ⟨0, by rw [Int.cast_zero, zero_mul]⟩
  | @finite s m e hm hform => exact ⟨_, signedValue_eq_shifted s m hform.least⟩

end Operations

namespace Rounds

variable {r s : Rat} {x y : Float}

/-- A value that some number has is rounded to itself. -/
theorem toRat?_eq (h : Rounds r x) (hy : toRat? y = some r) : toRat? x = some r := by
  have hself := rounds_self hy
  cases hself with
  | infinite hr hinfinite =>
    rw [toRat?, hinfinite] at hy
    cases hy
  | @finite k hr hk hvalue =>
    have hmultiple : (k : Rat) * 2 ^ lastBit r = r := Option.some.inj (hvalue.symm.trans hy)
    cases h with
    | infinite hgreat _ => exact absurd hr (not_lt.mpr hgreat)
    | finite _ hn hx => rw [hx, hn.eq_of_multiple (by positivity) hmultiple.symm, hmultiple]

/-- **Rounding changes a number by half of its last bit at most.** Nothing is lost below the least
exponent, since the number is a multiple of the least one. -/
theorem abs_sub_le (h : Rounds r x) (hx : toRat? x = some s) (hr : IsMultiple r) :
    |s - r| ≤ |r| / 2 ^ 53 := by
  cases h with
  | infinite _ hinfinite =>
    rw [toRat?, hinfinite] at hx
    cases hx
  | @finite n _ hn hvalue =>
    obtain rfl : (n : Rat) * 2 ^ lastBit r = s := Option.some.inj (hvalue.symm.trans hx)
    have hexact {k : Int} (hk : r = k * 2 ^ lastBit r) :
        |n * 2 ^ lastBit r - r| ≤ |r| / 2 ^ 53 := by
      rw [hn.eq_of_multiple (by positivity) hk, ← hk, sub_self, abs_zero]
      positivity
    by_cases hzero : r = 0
    · exact hexact (k := 0) (by rw [hzero, Int.cast_zero, zero_mul])
    rcases le_total (Int.log 2 |r| - 52) (-1074) with hleast | hmore
    · obtain ⟨k, hk⟩ := hr
      exact hexact (k := k) (by rw [lastBit, max_eq_right hleast]; exact hk)
    · have hlog : (2 : Rat) ^ Int.log 2 |r| ≤ |r| := by
        exact_mod_cast Int.zpow_log_le_self one_lt_two (abs_pos.mpr hzero)
      have hunit : (2 : Rat) ^ lastBit r = 2 ^ Int.log 2 |r| / 2 ^ 52 := by
        rw [lastBit, max_eq_left hmore, zpow_sub₀ two_ne_zero]
        rfl
      calc |n * 2 ^ lastBit r - r|
        _ = |r - n * 2 ^ lastBit r| := abs_sub_comm _ _
        _ ≤ 2 ^ lastBit r / 2 := hn.near
        _ = 2 ^ Int.log 2 |r| / 2 ^ 53 := by rw [hunit]; ring
        _ ≤ |r| / 2 ^ 53 := by gcongr

end Rounds

end KeyLight.Binary64
