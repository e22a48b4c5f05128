import KeyLight.Proofs.Number.Integer
import Mathlib

/-!
# Floating-point numbers and their values

Numbers are taken apart by their bits (`Binary64.exact`), and this agrees with the model of the
floating-point numbers that comparisons are done in (`exact_eq`), so a finite number lies below or
above zero just if its value does (`lt_zero_iff`, `zero_lt_iff`). In the other direction, the bits
of a mantissa and an exponent are put together to the number with this value (`toRat?_ofBits`), so
the number that an integer is converted to has the value of the integer rounded to 53 bits
(`toRat?_ofInt`).
-/

namespace KeyLight.Binary64

open Float.Model UnpackedFloat

/-! ### Taking numbers apart -/

/-- What the model of a floating-point number is taken apart into. -/
def ofUnpacked : UnpackedFloat → Exact
  | .notANumber => .nan
  | .infinity sign => .infinite (sign == .negative)
  | .zero sign => .finite (sign == .negative) 0 (-1074)
  | .finite sign m e _ => .finite (sign == .negative) m e

section Bits

variable (b : BitVec Format.binary64.numBits)

theorem toNat_unpackMantissa : (unpackMantissa b).toNat = b.toNat % Nat.pow 2 52 := by
  rw [unpackMantissa_def, BitVec.extractLsb'_toNat, Nat.shiftRight_zero]
  rfl

theorem toNat_unpackExponent : (unpackExponent b).toNat = b.toNat / Nat.pow 2 52 % 2048 := by
  rw [unpackExponent_def, BitVec.extractLsb'_toNat, Nat.shiftRight_eq_div_pow]
  rfl

theorem toNat_unpackSign : (unpackSign b).toNat = b.toNat / Nat.pow 2 63 := by
  rw [unpackSign_def, BitVec.extractLsb'_toNat, Nat.shiftRight_eq_div_pow]
  refine Nat.mod_eq_of_lt ?_
  have hlt : b.toNat < 2 ^ 64 := b.isLt
  exact (Nat.div_lt_iff_lt_mul (by decide)).mpr hlt

theorem sign_eq_negative : (Sign.ofBitVec (unpackSign b) == .negative) =
    (b.toNat / Nat.pow 2 63 == 1) := by
  rw [← toNat_unpackSign]
  generalize unpackSign b = s
  revert s
  decide

end Bits

theorem ofUnpacked_unpack (b : BitVec Format.binary64.numBits) :
    ofUnpacked (UnpackedFloat.unpack Format.binary64 b) =
      if b.toNat / Nat.pow 2 52 % 2048 = 2047 then
        if b.toNat % Nat.pow 2 52 = 0 then .infinite (b.toNat / Nat.pow 2 63 == 1) else .nan
      else if b.toNat / Nat.pow 2 52 % 2048 = 0 then
        .finite (b.toNat / Nat.pow 2 63 == 1) (b.toNat % Nat.pow 2 52) (-1074)
      else
        .finite (b.toNat / Nat.pow 2 63 == 1) (b.toNat % Nat.pow 2 52 + Nat.pow 2 52)
          (((b.toNat / Nat.pow 2 52 % 2048 : Nat) : Int) - 1075) := by
  have hones : unpackExponent b = -1#_ ↔ (unpackExponent b).toNat = 2047 := BitVec.toNat_inj.symm
  have hzero : unpackExponent b = 0#_ ↔ (unpackExponent b).toNat = 0 := BitVec.toNat_inj.symm
  have hfraction : unpackMantissa b = 0#_ ↔ (unpackMantissa b).toNat = 0 := BitVec.toNat_inj.symm
  rw [← toNat_unpackExponent, ← toNat_unpackMantissa, ← sign_eq_negative]
  unfold UnpackedFloat.unpack
  simp only [hones, hzero]
  split
  · split
    · rw [if_pos (hfraction.mp ‹_›)]
      rfl
    · rw [if_neg (mt hfraction.mpr ‹_›)]
      rfl
  split
  · rename_i hsub
    split
    · rename_i hm
      rw [hfraction.mp hm]
      rfl
    · simp only [ofUnpacked, hsub]
      rfl
  · have hmantissa : (1#1 ++ unpackMantissa b).toNat =
        (unpackMantissa b).toNat + Nat.pow 2 52 := by
      have hbit := Nat.two_pow_add_eq_or_of_lt (unpackMantissa b).isLt 1
      rw [Nat.mul_one, Nat.add_comm] at hbit
      rw [BitVec.toNat_append]
      exact hbit.symm
    simp only [ofUnpacked, hmantissa]
    rfl

/-- A number is taken apart as the model of floating-point numbers takes it apart. -/
theorem exact_eq (x : Float) : exact x = ofUnpacked x.toModel.unpack :=
  (ofUnpacked_unpack x.toModel.toBits.toBitVec).symm

/-- Bits that are no payload of what is not a number are kept. -/
theorem toBits_ofBits {bits : UInt64} (h : bits.toNat / Nat.pow 2 52 % 2048 ≠ 2047) :
    (Float.ofBits bits).toBits = bits := by
  have hnumber : ¬@isNaNBits Format.binary64 bits.toBitVec := fun hnan => by
    have hones := (decide_eq_true_iff.mp hnan).1
    refine h ?_
    rw [← UInt64.toNat_toBitVec, ← toNat_unpackExponent bits.toBitVec, hones]
    rfl
  have hpack : (Float.Model.ofBits bits).toBits.toBitVec =
      UnpackedFloat.pack Format.binary64 (UnpackedFloat.unpack Format.binary64 bits.toBitVec) := rfl
  rw [pack_unpack, if_neg hnumber] at hpack
  exact UInt64.toBitVec_inj.mp hpack

/-! ### Signs -/

theorem quotient_num_pos {m : Nat} (hm : 0 < m) (e : Int) : 0 < (quotient 2 m e).1 := by
  unfold quotient
  split
  · exact Nat.mul_pos hm (Nat.pow_pos (by decide))
  · exact hm

theorem rational_pos {m : Nat} (hm : 0 < m) (e : Int) : 0 < rational false m e := by
  have hnum := quotient_num_pos hm e
  have hden := quotient_den_pos m e
  change 0 < mkRat (quotient 2 m e).1 (quotient 2 m e).2
  rw [Rat.mkRat_eq_div]
  positivity

theorem rational_neg {m : Nat} (hm : 0 < m) (e : Int) : rational true m e < 0 :=
  neg_lt_zero.mpr (rational_pos hm e)

theorem rational_zero (negative : Bool) (e : Int) : rational negative 0 e = 0 := by
  have hnum : (quotient 2 0 e).1 = 0 := by
    unfold quotient
    split <;> simp
  unfold rational
  simp only [hnum]
  cases negative <;> simp

/-- A finite number is zero, or its sign is that of its value. -/
theorem unpack_cases {x : Float} {q : Rat} (h : toRat? x = some q) :
    (∃ sign, x.toModel.unpack = .zero sign ∧ q = 0) ∨
      (∃ m e hm, x.toModel.unpack = .finite .positive m e hm ∧ 0 < q) ∨
        ∃ m e hm, x.toModel.unpack = .finite .negative m e hm ∧ q < 0 := by
  unfold toRat? at h
  rw [exact_eq] at h
  cases hx : x.toModel.unpack with
  | notANumber | infinity => simp [hx, ofUnpacked] at h
  | zero sign =>
    rw [hx] at h
    obtain rfl := Option.some.inj h
    exact .inl ⟨sign, rfl, rational_zero _ _⟩
  | finite sign m e hm =>
    rw [hx] at h
    obtain rfl := Option.some.inj h
    cases sign with
    | positive => exact .inr (.inl ⟨m, e, hm, rfl, rational_pos hm e⟩)
    | negative => exact .inr (.inr ⟨m, e, hm, rfl, rational_neg hm e⟩)

/-- A number lies below another one as the model of floating-point numbers has it. -/
theorem lt_iff {x y : Float} :
    x < y ↔ x.toModel.unpack.compare y.toModel.unpack = some .lt := by
  change decide ((x.toModel.unpack.compare y.toModel.unpack == some .lt) = true) = true ↔ _
  rw [decide_eq_true_iff, beq_iff_eq]

theorem unpack_zero : (0.0 : Float).toModel.unpack = .zero .positive := rfl

theorem toRat?_zero : toRat? 0.0 = some 0 := by decide +kernel

/-- **A finite number lies below zero just if its value does.** -/
theorem lt_zero_iff {x : Float} {q : Rat} (h : toRat? x = some q) : x < 0.0 ↔ q < 0 := by
  rw [lt_iff, unpack_zero]
  obtain ⟨sign, hx, rfl⟩ | ⟨m, e, hm, hx, hq⟩ | ⟨m, e, hm, hx, hq⟩ := unpack_cases h <;> rw [hx]
  · exact iff_of_false nofun (lt_irrefl 0)
  · exact iff_of_false nofun (not_lt_of_gt hq)
  · exact iff_of_true rfl hq

/-- **And above zero just if its value does.** -/
theorem zero_lt_iff {x : Float} {q : Rat} (h : toRat? x = some q) : 0.0 < x ↔ 0 < q := by
  rw [lt_iff, unpack_zero]
  obtain ⟨sign, hx, rfl⟩ | ⟨m, e, hm, hx, hq⟩ | ⟨m, e, hm, hx, hq⟩ := unpack_cases h <;> rw [hx]
  · exact iff_of_false nofun (lt_irrefl 0)
  · exact iff_of_true rfl hq
  · exact iff_of_false nofun (not_lt_of_gt hq)

/-! ### Putting integers together -/

/-- The value of a number is its integer times a power of two. -/
theorem rational_eq (negative : Bool) (m : Nat) (e : Int) :
    rational negative m e = (if negative then -1 else 1) * ((m : Rat) * 2 ^ e) := by
  have hpositive : mkRat (quotient 2 m e).1 (quotient 2 m e).2 = (m : Rat) * 2 ^ e := by
    unfold quotient
    split
    · rename_i he
      obtain ⟨k, rfl⟩ := Int.eq_ofNat_of_zero_le he
      simp [Rat.mkRat_one]
    · rename_i he
      obtain ⟨k, hk⟩ := Int.eq_ofNat_of_zero_le (Int.le_of_lt (Int.neg_pos_of_neg (not_le.mp he)))
      obtain rfl : e = -(k : Int) := by omega
      simp [Rat.mkRat_eq_div, div_eq_mul_inv]
  unfold rational
  cases negative <;> simp [hpositive]

/-- The bits of a number with a leading one are its sign, its exponent and the rest of its
mantissa. -/
theorem exact_ofBits (negative : Bool) {field fraction : Nat} (hzero : field ≠ 0)
    (hfield : field < 2047) (hfraction : fraction < Nat.pow 2 52) :
    exact (Float.ofBits (UInt64.ofNat
      ((if negative then Nat.pow 2 63 else 0) + (field * Nat.pow 2 52 + fraction)))) =
        .finite negative (fraction + Nat.pow 2 52) ((field : Int) - 1075) := by
  have h52 : Nat.pow 2 52 = 4503599627370496 := rfl
  have h63 : Nat.pow 2 63 = 9223372036854775808 := rfl
  rw [h52] at hfraction
  generalize hbits : (if negative then Nat.pow 2 63 else 0) + (field * Nat.pow 2 52 + fraction) =
    bits
  have hparts : bits / Nat.pow 2 52 % 2048 = field ∧ bits % Nat.pow 2 52 = fraction ∧
      (bits / Nat.pow 2 63 == 1) = negative ∧ bits < UInt64.size := by
    have hsize : UInt64.size = 18446744073709551616 := rfl
    rw [h52, h63, hsize]
    cases negative <;> simp only [h52, h63, Bool.false_eq_true, if_false, if_true] at hbits <;>
      simp <;> omega
  obtain ⟨hexponent, hmantissa, hsign, hsize⟩ := hparts
  have htoNat : (UInt64.ofNat bits).toNat = bits := UInt64.toNat_ofNat_of_lt hsize
  have hkept : (Float.ofBits (UInt64.ofNat bits)).toBits = UInt64.ofNat bits :=
    toBits_ofBits (by rw [htoNat, hexponent]; exact Nat.ne_of_lt hfield)
  simp only [exact, hkept, htoNat, hexponent, hmantissa, hsign]
  rw [if_neg (Nat.ne_of_lt hfield), if_neg hzero]

/-- A mantissa of 53 bits, or the next number after these, is put together with an exponent. -/
theorem toRat?_ofBits (negative : Bool) {m : Nat} {e : Int} (hleast : Nat.pow 2 52 ≤ m)
    (hmost : m ≤ Nat.pow 2 53) (he : -1074 ≤ e) (hlt : e < 970) :
    toRat? (Float.ofBits (UInt64.ofNat
      ((if negative then Nat.pow 2 63 else 0) + magnitudeBits m e))) =
        some (rational negative m e) := by
  have h52 : Nat.pow 2 52 = 4503599627370496 := rfl
  have h53 : Nat.pow 2 53 = 9007199254740992 := rfl
  obtain ⟨field, hfield⟩ := Int.eq_ofNat_of_zero_le (show 0 ≤ e + 1075 by omega)
  have hexponent : (e + 1075).toNat = field := by omega
  rcases Nat.lt_or_eq_of_le hmost with hlt53 | rfl
  · have hbits : magnitudeBits m e = field * Nat.pow 2 52 + (m - Nat.pow 2 52) := by
      rw [magnitudeBits, if_neg (Nat.not_lt.mpr hleast), hexponent, Nat.min_eq_left]
      rw [h52, h53] at *
      omega
    rw [hbits, toRat?, exact_ofBits negative (by omega) (by omega) (by rw [h52, h53] at *; omega)]
    simp only [Nat.sub_add_cancel hleast]
    congr
    omega
  · -- the carry goes to the exponent
    have hbits : magnitudeBits (Nat.pow 2 53) e = (field + 1) * Nat.pow 2 52 + 0 := by
      rw [magnitudeBits, if_neg (Nat.not_lt.mpr hleast), hexponent, Nat.min_eq_left]
      · rw [h52, h53]
        omega
      · rw [h52, h53]
        omega
    rw [hbits, toRat?, exact_ofBits negative (by omega) (by omega) (by decide)]
    simp only [rational_eq, Nat.zero_add]
    have hpower : (2 : Rat) ^ (((field + 1 : Nat) : Int) - 1075) = 2 ^ e * 2 := by
      rw [show ((field + 1 : Nat) : Int) - 1075 = e + 1 by omega, zpow_add_one₀ two_ne_zero]
    have hcarry : ((Nat.pow 2 53 : Nat) : Rat) = (Nat.pow 2 52 : Nat) * 2 := by
      rw [h52, h53]
      norm_num
    rw [hpower, hcarry]
    ring_nf

/-! ### Integers -/

theorem quotient_two_one_of_le {k : Nat} (h : 52 ≤ k) :
    quotient 2 1 ((k : Int) - 52) = (Nat.pow 2 (k - 52), 1) := by
  unfold quotient
  rw [if_pos (by omega), Nat.one_mul]
  congr
  omega

theorem quotient_two_one_of_lt {k : Nat} (h : k < 52) :
    quotient 2 1 ((k : Int) - 52) = (1, Nat.pow 2 (52 - k)) := by
  unfold quotient
  rw [if_neg (by omega)]
  congr
  omega

theorem log2Ratio_one {n : Nat} (hn : n ≠ 0) : log2Ratio n 1 = n.log2 := by
  have hguess : ((n.log2 : Int) - (Nat.log2 1 : Nat)) = n.log2 := by
    rw [show Nat.log2 1 = 0 from rfl]
    omega
  unfold log2Ratio
  simp only [hguess, quotient, Int.natCast_nonneg, if_true, Int.toNat_natCast, Nat.one_mul,
    Nat.mul_one]
  exact if_pos (Nat.log2_self_le hn)

theorem divNearestEven_one (n : Nat) : divNearestEven n 1 = n := by
  simp [divNearestEven, Nat.mod_one]

theorem divNearestEven_le (num den : Nat) : divNearestEven num den ≤ num / den + 1 := by
  unfold divNearestEven
  simp only
  split
  · omega
  · split <;> omega

/-- The mantissa of an integer. -/
def mantissa (n : Nat) : Nat :=
  if n.log2 < 52 then n * Nat.pow 2 (52 - n.log2)
  else divNearestEven n (Nat.pow 2 (n.log2 - 52))

theorem mantissa_bounds {n : Nat} (hn : n ≠ 0) :
    Nat.pow 2 52 ≤ mantissa n ∧ mantissa n ≤ Nat.pow 2 53 := by
  have hleast := Nat.log2_self_le hn
  have hmost := Nat.lt_log2_self (n := n)
  generalize hk : n.log2 = k at hleast hmost
  unfold mantissa
  rw [hk]
  split
  · rename_i hlt
    have h52 : Nat.pow 2 52 = 2 ^ k * 2 ^ (52 - k) := by
      rw [← Nat.pow_add]
      exact congrArg (Nat.pow 2) (by omega)
    have h53 : Nat.pow 2 53 = 2 ^ (k + 1) * 2 ^ (52 - k) := by
      rw [← Nat.pow_add]
      exact congrArg (Nat.pow 2) (by omega)
    rw [h52, h53]
    exact ⟨Nat.mul_le_mul_right _ hleast, Nat.mul_le_mul_right _ (Nat.le_of_lt hmost)⟩
  · rename_i hnot
    have hunit : 0 < Nat.pow 2 (k - 52) := Nat.pow_pos (by decide)
    have h52 : Nat.pow 2 52 * Nat.pow 2 (k - 52) = 2 ^ k := by
      refine (Nat.pow_add 2 52 (k - 52)).symm.trans (congrArg (Nat.pow 2) (by omega))
    have h53 : Nat.pow 2 53 * Nat.pow 2 (k - 52) = 2 ^ (k + 1) := by
      refine (Nat.pow_add 2 53 (k - 52)).symm.trans (congrArg (Nat.pow 2) (by omega))
    have hlow : Nat.pow 2 52 ≤ n / Nat.pow 2 (k - 52) :=
      (Nat.le_div_iff_mul_le hunit).mpr (h52 ▸ hleast)
    have hhigh : n / Nat.pow 2 (k - 52) < Nat.pow 2 53 :=
      (Nat.div_lt_iff_lt_mul hunit).mpr (h53 ▸ hmost)
    exact ⟨Nat.le_trans hlow (div_le_divNearestEven _ _),
      Nat.le_trans (divNearestEven_le _ _) hhigh⟩

/-- The number nearest to an integer is put together from its mantissa. -/
theorem ofInt_eq {n : Int} (hn : n ≠ 0) :
    ofInt n = Float.ofBits (UInt64.ofNat ((if decide (n < 0) then Nat.pow 2 63 else 0) +
      magnitudeBits (mantissa n.natAbs) (n.natAbs.log2 - 52))) := by
  have hzero : n.natAbs ≠ 0 := Int.natAbs_ne_zero.mpr hn
  have hexponent : max (-1074) ((n.natAbs.log2 : Int) - 52) = n.natAbs.log2 - 52 := by omega
  have hnot : ¬(n.natAbs = 0 ∨ 1 = 0) := by omega
  simp only [ofInt, ofRatio, if_neg hnot, log2Ratio_one hzero, hexponent]
  by_cases hlt : n.natAbs.log2 < 52
  · simp only [mantissa, if_pos hlt, quotient_two_one_of_lt hlt, divNearestEven_one]
  · simp only [mantissa, if_neg hlt, quotient_two_one_of_le (Nat.le_of_not_lt hlt), Nat.mul_one]

/-- The value of the mantissa is the integer, or the multiple of the last bit that is kept which is
nearest to it. -/
theorem mantissa_mul_eq (n : Nat) :
    (mantissa n : Rat) * 2 ^ ((n.log2 : Int) - 52) =
      if n.log2 < 53 then (n : Rat)
      else (divNearestEven n (Nat.pow 2 (n.log2 - 52)) * Nat.pow 2 (n.log2 - 52) : Nat) := by
  have hpower (k : Nat) : ((Nat.pow 2 k : Nat) : Rat) = 2 ^ (k : Int) := by
    rw [zpow_natCast]
    exact Nat.cast_pow 2 k
  unfold mantissa
  rcases Nat.lt_trichotomy n.log2 52 with hlt | heq | hgt
  · have hunit : ((52 - n.log2 : Nat) : Int) = 52 - n.log2 := by omega
    rw [if_pos hlt, if_pos (Nat.lt_succ_of_lt hlt), Nat.cast_mul, hpower, mul_assoc,
      ← zpow_add₀ two_ne_zero, hunit]
    simp
  · rw [heq, if_neg (Nat.lt_irrefl 52), if_pos (by decide)]
    change ((divNearestEven n 1 : Nat) : Rat) * 2 ^ (0 : Int) = n
    rw [divNearestEven_one, zpow_zero, mul_one]
  · have hunit : ((n.log2 - 52 : Nat) : Int) = n.log2 - 52 := by omega
    rw [if_neg (Nat.not_lt.mpr (Nat.le_of_lt hgt)), if_neg (Nat.not_lt.mpr hgt), Nat.cast_mul,
      hpower, hunit]

/-- **The number nearest to an integer is the integer rounded to 53 bits.** -/
theorem toRat?_ofInt {n : Int} (hn : n.natAbs.log2 < 1022) :
    toRat? (ofInt n) = some (nearestInt n : Rat) := by
  by_cases hzero : n = 0
  · subst hzero
    have hexact : exact (ofInt 0) = .finite false 0 (-1074) := by decide +kernel
    rw [toRat?, hexact]
    exact congrArg some (rational_zero false (-1074))
  · obtain ⟨hleast, hmost⟩ := mantissa_bounds (Int.natAbs_ne_zero.mpr hzero)
    rw [ofInt_eq hzero, toRat?_ofBits _ hleast hmost (by omega) (by omega), rational_eq,
      mantissa_mul_eq]
    -- the sign is put back in front of the magnitude
    have hmagnitude := Nat.cast_natAbs (α := Rat) n
    simp only [nearestInt, decide_eq_true_eq]
    by_cases hneg : n < 0
    · rw [abs_of_neg hneg] at hmagnitude
      simp only [if_pos hneg, hmagnitude]
      split <;> simp
    · rw [abs_of_nonneg (not_lt.mp hneg)] at hmagnitude
      simp only [if_neg hneg, hmagnitude]
      split <;> simp

end KeyLight.Binary64
