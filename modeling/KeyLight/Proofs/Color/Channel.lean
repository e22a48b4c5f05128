import KeyLight.Color.Scale
import KeyLight.Proofs.Number.Float

/-!
# Channels of numbers

A number gives the channel of the integer nearest to it, a tie going away from zero, brought into
the range from 0 to 255. `IsChannel` says so of each kind of number, and `channel` gives just these
channels (`isChannel_iff`). Integers of 64 bits are converted to floating-point numbers on the way.
That rounds the large ones, and they stay out of range (`channel_ofInt`).
-/

namespace KeyLight

/-- The integer nearest to a number, and of two such integers the one that is farther from zero. -/
structure IsNearestAway (q : Rat) (n : Int) : Prop where
  near : |q - n| ≤ 1 / 2
  away : |q - n| = 1 / 2 → |q| ≤ |(n : Rat)|

/-- Rounding a number that is not negative. -/
theorem isNearestAway_of_nonneg {q : Rat} (hq : 0 ≤ q) (n : Int) :
    (q + 1 / 2).floor = n ↔ IsNearestAway q n := by
  have hfloor : (q + 1 / 2).floor = n ↔ (n : Rat) ≤ q + 1 / 2 ∧ q + 1 / 2 < n + 1 := by
    rw [Rat.floor_def, ← Rat.floor_def']
    exact Int.floor_eq_iff
  rw [hfloor]
  constructor
  · rintro ⟨hlow, hhigh⟩
    refine ⟨abs_le.mpr ⟨by linarith, by linarith⟩, fun htie => ?_⟩
    rcases (abs_eq (by norm_num)).mp htie with habove | hbelow
    · linarith
    · rw [abs_of_nonneg hq, abs_of_nonneg (by linarith)]
      linarith
  · rintro ⟨hnear, haway⟩
    obtain ⟨hlow, hhigh⟩ := abs_le.mp hnear
    refine ⟨by linarith, ?_⟩
    -- the integer below would be the nearer to zero of two
    have hnot : q ≠ n + 1 / 2 := fun htie => by
      have hn : (0 : Rat) ≤ n := by
        have hint : -1 < n := by
          have : ((-1 : Int) : Rat) < n := by push_cast; linarith
          exact_mod_cast this
        exact_mod_cast (by omega : (0 : Int) ≤ n)
      have hle := haway (by rw [htie]; norm_num)
      rw [abs_of_nonneg hq, abs_of_nonneg hn] at hle
      linarith
    have hlt : q < n + 1 / 2 := lt_of_le_of_ne (by linarith) hnot
    linarith

theorem IsNearestAway.neg {q : Rat} {n : Int} (h : IsNearestAway q n) :
    IsNearestAway (-q) (-n) := by
  have hdistance : |-q - ((-n : Int) : Rat)| = |q - n| := by
    rw [← abs_neg]
    push_cast
    ring_nf
  refine ⟨hdistance.trans_le h.near, fun htie => ?_⟩
  push_cast
  rw [abs_neg, abs_neg]
  exact h.away (hdistance.symm.trans htie)

/-- **Numbers are rounded to the nearest integer**, a tie going away from zero. -/
theorem roundAway_eq_iff {q : Rat} {n : Int} : roundAway q = n ↔ IsNearestAway q n := by
  unfold roundAway
  split
  · exact isNearestAway_of_nonneg ‹_› n
  · rename_i hq
    have hneg : 0 ≤ -q := by linarith
    rw [neg_eq_iff_eq_neg, isNearestAway_of_nonneg hneg]
    constructor
    · intro h
      simpa using h.neg
    · exact fun h => h.neg

theorem roundAway_intCast (n : Int) : roundAway n = n := by
  refine roundAway_eq_iff.mpr ⟨?_, fun _ => le_refl _⟩
  rw [sub_self, abs_zero]
  norm_num

/-- Integers out of range are replaced by the ends of the range. -/
theorem toNat_saturate (n : Int) : ((saturate n).toNat : Int) = max 0 (min n 255) := by
  have hsmall : min n.toNat 255 < UInt8.size := by
    have hsize : UInt8.size = 256 := rfl
    omega
  rw [saturate, UInt8.toNat_ofNat_of_lt' hsmall]
  omega

/-- Integers that are brought into range are the same channel if they are the same in range. -/
theorem saturate_eq_iff {m n : Int} :
    saturate m = saturate n ↔ max 0 (min m 255) = max 0 (min n 255) := by
  rw [← toNat_saturate, ← toNat_saturate, Int.natCast_inj, UInt8.toNat_inj]

/-- Rounding to 53 bits keeps an integer in range as it is and one out of range on its side. -/
theorem saturate_nearestInt (n : Int) : saturate (Binary64.nearestInt n) = saturate n := by
  rcases Nat.lt_or_ge n.natAbs Binary64.exactBound with hsmall | hlarge
  · rw [Binary64.nearestInt_of_lt hsmall]
  · have hrounded := Binary64.exactBound_le_natAbs_nearestInt hlarge
    have hsign := Binary64.one_le_nearestInt_iff (n := n)
    have hbound : 255 < Binary64.exactBound := by decide
    rw [saturate_eq_iff]
    omega

theorem channel_of_toRat? {x : Float} {q : Rat} (h : Binary64.toRat? x = some q) :
    channel x = saturate (roundAway q) := by
  unfold Binary64.toRat? at h
  unfold channel
  cases hx : Binary64.exact x with
  | nan | infinite => simp [hx] at h
  | finite negative m e =>
    rw [hx] at h
    rw [← Option.some.inj h]
    rfl

/-- **An integer of 64 bits gives its own channel.** -/
theorem channel_ofInt (n : Int64) : channel (Binary64.ofInt n.toInt) = saturate n.toInt := by
  have hsize : n.toInt.natAbs.log2 < 64 := by
    have hle := n.le_toInt
    have hlt := n.toInt_lt
    have hbound : n.toInt.natAbs < 2 ^ 64 := by omega
    exact Binary64.log2_lt_of_lt (by decide) hbound
  rw [channel_of_toRat? (Binary64.toRat?_ofInt (by omega)), roundAway_intCast, saturate_nearestInt]

/-- The channel of a number. -/
inductive IsChannel : Numeral → UInt8 → Prop
  | int {n : Int64} {c : UInt8} (hc : (c.toNat : Int) = max 0 (min n.toInt 255)) :
      IsChannel (.int n) c
  | nan {x : Float} (hx : Binary64.exact x = .nan) : IsChannel (.float x) 0
  | below {x : Float} (hx : Binary64.exact x = .infinite true) : IsChannel (.float x) 0
  | above {x : Float} (hx : Binary64.exact x = .infinite false) : IsChannel (.float x) 255
  | finite {x : Float} {q : Rat} {n : Int} {c : UInt8} (hx : Binary64.toRat? x = some q)
      (hn : IsNearestAway q n) (hc : (c.toNat : Int) = max 0 (min n 255)) : IsChannel (.float x) c

/-- **What a number gives is its channel.** -/
theorem isChannel_iff {m : Numeral} {c : UInt8} :
    IsChannel m c ↔ channel (Value.numeralToFloat m) = c := by
  have hrange {n : Int} : (c.toNat : Int) = max 0 (min n 255) ↔ saturate n = c := by
    rw [← toNat_saturate, Int.natCast_inj, UInt8.toNat_inj, eq_comm]
  constructor
  · intro h
    cases h with
    | int hc => exact (channel_ofInt _).trans (hrange.mp hc)
    | nan hx | below hx | above hx => simp [Value.numeralToFloat, channel, hx]
    | finite hx hn hc =>
      rw [Value.numeralToFloat, channel_of_toRat? hx, roundAway_eq_iff.mpr hn, hrange.mp hc]
  · rintro rfl
    cases m with
    | int n => exact .int (by rw [Value.numeralToFloat, channel_ofInt, toNat_saturate])
    | float x =>
      cases hx : Binary64.exact x with
      | nan =>
        simp only [Value.numeralToFloat, channel, hx]
        exact .nan hx
      | infinite negative =>
        simp only [Value.numeralToFloat, channel, hx]
        cases negative with
        | true => exact .below hx
        | false => exact .above hx
      | finite negative m e =>
        have hq : Binary64.toRat? x = some (Binary64.rational negative m e) := by
          rw [Binary64.toRat?, hx]
        rw [Value.numeralToFloat, channel_of_toRat? hq]
        exact .finite hq (roundAway_eq_iff.mp rfl) (toNat_saturate _)

end KeyLight
