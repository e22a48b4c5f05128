import KeyLight.Animation.Interpolator
import KeyLight.Proofs.Color.Channel
import Mathlib

/-!
# Colour fades between their ends

Fades between colours are written for every kind of number (`Rgba.fade`). On floating-point numbers
that is what an interpolator yields (`valueAt_eq_fade`); here they are read on the rationals. A
channel is a number that is mixed and then rounded, and both keep the order, so a channel moves
between its two ends as the height of the curve moves between 0 and 1. The linear curve only rises,
and the bounce keeps to these heights (`Easing.bounce_mem_unit`) and has no jumps
(`Easing.continuous_bounce`).

The main statement is `Rgba.fade_stays_on_segment`.
-/

namespace KeyLight

open Set (Icc uIcc)

/-! ### Rounding to channels -/

/-- Rounding keeps the order. -/
theorem roundAway_mono : Monotone roundAway := by
  intro p q hle
  have hfloor {x y : Rat} (h : x ≤ y) : x.floor ≤ y.floor := by
    rw [Rat.floor_def, Rat.floor_def, ← Rat.floor_def', ← Rat.floor_def']
    exact Int.floor_mono h
  have hsign {x : Rat} (h : 0 ≤ x) : 0 ≤ (x + 1 / 2).floor :=
    hfloor (show (0 : Rat) ≤ x + 1 / 2 by linarith)
  unfold roundAway
  split <;> split
  · exact hfloor (by linarith)
  · linarith
  · rename_i hp hq
    have hp := hsign (show 0 ≤ -p by linarith)
    have hq := hsign hq
    linarith
  · exact neg_le_neg (hfloor (by linarith))

theorem toNat_ratChannel (q : Rat) :
    ((ratChannel q).toNat : Int) = max 0 (min (roundAway q) 255) :=
  toNat_saturate _

theorem ratChannel_mono : Monotone fun q => (ratChannel q).toNat := by
  intro p q hle
  have hround := roundAway_mono hle
  have hp := toNat_ratChannel p
  have hq := toNat_ratChannel q
  simp only
  omega

theorem ratChannel_natCast (c : UInt8) : ratChannel c.toNat = c := by
  have hvalue := toNat_ratChannel c.toNat
  have hround : roundAway c.toNat = c.toNat := roundAway_intCast c.toNat
  have hlt := c.toNat_lt
  rw [hround] at hvalue
  exact UInt8.toNat_inj.mp (by omega)

/-! ### Channels of mixed colours -/

/-- The channels of a colour. -/
inductive Channel
  | red
  | green
  | blue
  | alpha
  deriving Repr, DecidableEq

namespace Channel

/-- The number in a channel of a colour. -/
def of : Channel → Rgba → Nat
  | red, c => c.red.toNat
  | green, c => c.green.toNat
  | blue, c => c.blue.toNat
  | alpha, c => c.alpha.toNat

/-- A channel of a mixed colour is mixed from the channels. -/
theorem of_mix (i : Channel) (a b : Rgba) (t : Rat) :
    i.of (Rgba.mix a b t) = (ratChannel (mix (i.of a : Rat) (i.of b) t)).toNat := by
  cases i <;> rfl

variable {i : Channel} {a b : Rgba}

/-- A channel that is to rise rises with the fraction. -/
theorem monotone_of_mix (h : i.of a ≤ i.of b) : Monotone fun t : Rat => i.of (Rgba.mix a b t) := by
  intro s t hle
  simp only [of_mix]
  refine ratChannel_mono ?_
  have hdifference : (0 : Rat) ≤ i.of b - i.of a := sub_nonneg.mpr (by exact_mod_cast h)
  unfold mix
  gcongr

/-- And one that is to fall falls. -/
theorem antitone_of_mix (h : i.of b ≤ i.of a) : Antitone fun t : Rat => i.of (Rgba.mix a b t) := by
  intro s t hle
  simp only [of_mix]
  refine ratChannel_mono ?_
  have hdifference : (i.of b - i.of a : Rat) ≤ 0 := sub_nonpos.mpr (by exact_mod_cast h)
  exact add_le_add_right (mul_le_mul_of_nonpos_left hle hdifference) _

end Channel

namespace Rgba

variable (a b : Rgba)

theorem mix_zero : mix a b (0 : Rat) = a := by
  have hchannel (x y : UInt8) : ratChannel (KeyLight.mix (x.toNat : Rat) y.toNat 0) = x := by
    rw [KeyLight.mix, mul_zero, add_zero, ratChannel_natCast]
  change Rgba.mk _ _ _ _ = a
  simp only [Scale.toChannel, Scale.ofChannel, hchannel]

theorem mix_one : mix a b (1 : Rat) = b := by
  have hchannel (x y : UInt8) : ratChannel (KeyLight.mix (x.toNat : Rat) y.toNat 1) = y := by
    rw [KeyLight.mix, mul_one, add_sub_cancel, ratChannel_natCast]
  change Rgba.mk _ _ _ _ = b
  simp only [Scale.toChannel, Scale.ofChannel, hchannel]

/-- The channels of a mixed colour lie between those it is mixed from. -/
theorem mix_mem_uIcc {t : Rat} (ht : t ∈ Icc 0 1) (i : Channel) :
    i.of (mix a b t) ∈ uIcc (i.of a) (i.of b) := by
  rcases le_total (i.of a) (i.of b) with h | h
  · rw [Set.uIcc_of_le h]
    have hlow := Channel.monotone_of_mix h ht.1
    have hhigh := Channel.monotone_of_mix h ht.2
    simp only [mix_zero, mix_one] at hlow hhigh
    exact ⟨hlow, hhigh⟩
  · rw [Set.uIcc_of_ge h]
    have hlow := Channel.antitone_of_mix h ht.1
    have hhigh := Channel.antitone_of_mix h ht.2
    simp only [mix_zero, mix_one] at hlow hhigh
    exact ⟨hhigh, hlow⟩

end Rgba

/-! ### Fractions of fades -/

section Fractions

variable {x y duration elapsed : Rat}

theorem Easing.unit_mem_unit (x : Rat) : Easing.unit x ∈ Icc (0 : Rat) 1 := by
  change (if x < (0.0 : Rat) then (0.0 : Rat) else if (1.0 : Rat) < x then 1.0 else x) ∈ _
  norm_num
  split
  · norm_num
  split
  · norm_num
  · constructor <;> linarith

theorem Easing.unit_of_mem (hx : x ∈ Icc 0 1) : Easing.unit x = x := by
  change (if x < (0.0 : Rat) then (0.0 : Rat) else if (1.0 : Rat) < x then 1.0 else x) = x
  norm_num
  rw [if_neg (not_lt.mpr hx.1), if_neg (not_lt.mpr hx.2)]

theorem progress_rat (duration elapsed : Rat) :
    progress duration elapsed =
      if duration ≤ 0 ∨ duration ≤ elapsed then 1
      else if elapsed ≤ 0 then 0 else elapsed / duration := by
  change (if duration ≤ (0.0 : Rat) ∨ duration ≤ elapsed then (1.0 : Rat)
    else if elapsed ≤ (0.0 : Rat) then 0.0 else elapsed / duration) = _
  norm_num

theorem progress_of_done (h : duration ≤ 0 ∨ duration ≤ elapsed) :
    progress duration elapsed = 1 := by
  rw [progress_rat, if_pos h]

theorem progress_of_not_begun (hduration : 0 < duration) (helapsed : elapsed ≤ 0) :
    progress duration elapsed = 0 := by
  rw [progress_rat, if_neg (by rintro (h | h) <;> linarith), if_pos helapsed]

/-- A fade that lasts goes on in proportion to the time, between its start and its end. -/
theorem progress_eq_max_min (hduration : 0 < duration) :
    progress duration elapsed = max 0 (min 1 (elapsed / duration)) := by
  rw [progress_rat]
  rcases le_or_gt duration elapsed with hdone | hdone
  · rw [if_pos (.inr hdone), min_eq_left ((one_le_div hduration).mpr hdone),
      max_eq_right zero_le_one]
  have hbelow : elapsed / duration ≤ 1 := (div_le_one hduration).mpr hdone.le
  rw [if_neg (by rintro (h | h) <;> linarith), min_eq_right hbelow]
  split
  · exact (max_eq_left (div_nonpos_of_nonpos_of_nonneg ‹_› hduration.le)).symm
  · exact (max_eq_right (div_nonneg (by linarith) hduration.le)).symm

theorem progress_mem_unit (duration elapsed : Rat) :
    progress duration elapsed ∈ Icc (0 : Rat) 1 := by
  rcases le_or_gt duration 0 with hduration | hduration
  · rw [progress_of_done (.inl hduration)]
    norm_num
  · rw [progress_eq_max_min hduration]
    exact ⟨le_max_left _ _, max_le zero_le_one (min_le_left _ _)⟩

theorem progress_mono (duration : Rat) : Monotone (progress duration) := by
  intro s t hle
  rcases le_or_gt duration 0 with hduration | hduration
  · rw [progress_of_done (.inl hduration), progress_of_done (.inl hduration)]
  · rw [progress_eq_max_min hduration, progress_eq_max_min hduration]
    gcongr

end Fractions

/-! ### The bounce -/

namespace Easing

theorem bounce_rat (x : Rat) :
    bounce x =
      if x < 4 / 11 then 121 / 16 * x ^ 2
      else if x < 8 / 11 then 121 / 16 * (x - 6 / 11) ^ 2 + 3 / 4
      else if x < 10 / 11 then 121 / 16 * (x - 9 / 11) ^ 2 + 15 / 16
      else 121 / 16 * (x - 21 / 22) ^ 2 + 63 / 64 := by
  change (if x < (1.0 / 2.75 : Rat) then _ else if x < (2.0 / 2.75 : Rat) then _
    else if x < (2.5 / 2.75 : Rat) then _ else _) = _
  simp only [rebound]
  norm_num
  ring_nf

/-- The bounce stays between 0 and 1. -/
theorem bounce_mem_unit {x : Rat} (hx : x ∈ Icc 0 1) : bounce x ∈ Icc (0 : Rat) 1 := by
  obtain ⟨hlow, hhigh⟩ := hx
  rw [bounce_rat]
  split
  · constructor <;> nlinarith
  split
  · constructor <;> nlinarith
  split
  · constructor <;> nlinarith
  · constructor <;> nlinarith

/-- **The parabolas of the bounce meet** where one follows the other. -/
theorem continuous_bounce : Continuous (bounce : Rat → Rat) := by
  have hjoint {c : Rat} {f g : Rat → Rat} (hf : Continuous f) (hg : Continuous g)
      (hmeet : f c = g c) : Continuous fun x => if x < c then f x else g x := by
    have hle := hg.if_le hf continuous_const continuous_id fun x (hx : c = x) => hx ▸ hmeet.symm
    simpa only [← not_lt, ite_not, id] using hle
  rw [funext bounce_rat]
  refine hjoint (by fun_prop) (hjoint (by fun_prop) (hjoint (by fun_prop) (by fun_prop) ?_) ?_) ?_
  all_goals norm_num

/-- Both curves that take no sine lead from 0 to 1 and stay between. -/
theorem arithmetic?_mem_unit {e : Easing} {curve : Rat → Rat} (h : e.arithmetic? = some curve) :
    (∀ x ∈ Icc (0 : Rat) 1, curve x ∈ Icc (0 : Rat) 1) ∧ curve 0 = 0 ∧ curve 1 = 1 := by
  cases e with
  | linear =>
    cases h
    exact ⟨fun _ hx => hx, rfl, rfl⟩
  | bounceOut =>
    cases h
    refine ⟨fun _ => bounce_mem_unit, ?_, ?_⟩ <;> rw [bounce_rat] <;> norm_num
  | easeIn | easeOut | easeInOut => cases h

end Easing

/-! ### Fades -/

/-- An interpolator between colours yields the fade on floating-point numbers. -/
theorem Interpolator.valueAt_eq_fade {f : Interpolator} {curve : Float → Float} {a b : Rgba}
    (hends : f.endpoints = .color a b) (hcurve : f.easing.arithmetic? = some curve) (now : Float) :
    f.valueAt now = .color (Rgba.fade curve a b f.duration (now - f.start)) := by
  unfold valueAt valueAfter
  rw [hends, Easing.curve_eq_of_arithmetic? hcurve]

namespace Rgba

variable {e : Easing} {curve : Rat → Rat} {duration elapsed : Rat} (a b : Rgba)

theorem fade_mem_uIcc (hcurve : e.arithmetic? = some curve) (duration elapsed : Rat) (i : Channel) :
    i.of (fade curve a b duration elapsed) ∈ uIcc (i.of a) (i.of b) := by
  obtain ⟨hmem, -, -⟩ := Easing.arithmetic?_mem_unit hcurve
  exact mix_mem_uIcc a b (hmem _ (Easing.unit_mem_unit _)) i

theorem fade_of_not_begun (hcurve : e.arithmetic? = some curve) (hduration : 0 < duration)
    (helapsed : elapsed ≤ 0) : fade curve a b duration elapsed = a := by
  obtain ⟨-, hzero, -⟩ := Easing.arithmetic?_mem_unit hcurve
  rw [fade, progress_of_not_begun hduration helapsed, Easing.unit_of_mem (by norm_num), hzero,
    mix_zero]

theorem fade_of_done (hcurve : e.arithmetic? = some curve)
    (hdone : duration ≤ 0 ∨ duration ≤ elapsed) : fade curve a b duration elapsed = b := by
  obtain ⟨-, -, hone⟩ := Easing.arithmetic?_mem_unit hcurve
  rw [fade, progress_of_done hdone, Easing.unit_of_mem (by norm_num), hone, mix_one]

/-- Along the linear curve the colours are mixed by the progress of the fade. -/
theorem fade_id (duration elapsed : Rat) :
    fade id a b duration elapsed = mix a b (progress duration elapsed) := by
  rw [fade, Easing.unit_of_mem (progress_mem_unit _ _), id]

/-- **Colour fades stay on the segment between their ends.** Along the linear curve and the bounce
an interpolator yields the fade on floating-point numbers, which is written as the one on the
rationals is, and on these each channel stays between the two ends. A fade that lasts has its first
colour up to its start, and every fade has its last colour from its end on. Along the linear curve
each channel moves in one direction only. The bounce leads from 0 to 1 and stays between; it has no
jumps, and where its parabolas meet it is 1. -/
theorem fade_stays_on_segment (hcurve : e.arithmetic? = some curve) (start duration : Rat) :
    (∀ (f : Interpolator) (onFloats : Float → Float), f.endpoints = .color a b → f.easing = e →
      e.arithmetic? = some onFloats →
      ∀ now, f.valueAt now = .color (fade onFloats a b f.duration (now - f.start))) ∧
    (∀ now (i : Channel),
      i.of (fade curve a b duration (now - start)) ∈ uIcc (i.of a) (i.of b)) ∧
    (∀ now, 0 < duration → now ≤ start → fade curve a b duration (now - start) = a) ∧
    (∀ now, duration ≤ 0 ∨ start + duration ≤ now → fade curve a b duration (now - start) = b) ∧
    (e = .linear → ∀ i : Channel,
      (i.of a ≤ i.of b → Monotone fun now => i.of (fade curve a b duration (now - start))) ∧
      (i.of b ≤ i.of a → Antitone fun now => i.of (fade curve a b duration (now - start)))) ∧
    (∀ x ∈ Icc (0 : Rat) 1, Easing.bounce x ∈ Icc (0 : Rat) 1) ∧
    Easing.bounce (0 : Rat) = 0 ∧ Easing.bounce (1 : Rat) = 1 ∧
    Continuous (Easing.bounce : Rat → Rat) ∧
    ∀ joint ∈ ([1 / 2.75, 2 / 2.75, 2.5 / 2.75] : List Rat), Easing.bounce joint = 1 := by
  have hbounce : Easing.bounceOut.arithmetic? = some (Easing.bounce : Rat → Rat) := rfl
  obtain ⟨hmem, hzero, hone⟩ := Easing.arithmetic?_mem_unit hbounce
  refine ⟨fun f onFloats hends heasing honFloats => ?_, fun now => fade_mem_uIcc a b hcurve _ _,
    fun now hduration hnow => ?_, fun now hnow => ?_, ?_, hmem, hzero, hone,
    Easing.continuous_bounce, ?_⟩
  · exact f.valueAt_eq_fade hends (heasing ▸ honFloats)
  · exact fade_of_not_begun a b hcurve hduration (sub_nonpos.mpr hnow)
  · exact fade_of_done a b hcurve (hnow.imp_right le_sub_iff_add_le'.mpr)
  · rintro rfl i
    obtain rfl : id = curve := Option.some.inj hcurve
    have hprogress : Monotone fun now => progress duration (now - start) :=
      (progress_mono duration).comp fun _ _ h => sub_le_sub_right h start
    simp only [fade_id]
    exact ⟨fun h => (Channel.monotone_of_mix h).comp hprogress,
      fun h => (Channel.antitone_of_mix h).comp_monotone hprogress⟩
  · simp only [Easing.bounce_rat]
    norm_num

/-- A bounce of two seconds that starts at ten: its colours before and after, and a bound in the
middle of it. -/
theorem fade_stays_on_segment_bouncing :
    Easing.bounceOut.arithmetic? = some (Easing.bounce : Rat → Rat) ∧
    fade Easing.bounce ⟨0, 90, 7, 255⟩ ⟨200, 10, 7, 0⟩ (2 : Rat) (9 - 10) = ⟨0, 90, 7, 255⟩ ∧
    fade Easing.bounce ⟨0, 90, 7, 255⟩ ⟨200, 10, 7, 0⟩ (2 : Rat) (12 - 10) = ⟨200, 10, 7, 0⟩ ∧
    (fade Easing.bounce ⟨0, 90, 7, 255⟩ ⟨200, 10, 7, 0⟩ (2 : Rat) (11 - 10)).green.toNat ∈
      uIcc 90 10 := by
  obtain ⟨-, hmem, hfirst, hlast, -⟩ := fade_stays_on_segment (e := .bounceOut) ⟨0, 90, 7, 255⟩
    ⟨200, 10, 7, 0⟩ rfl 10 2
  exact ⟨rfl, hfirst 9 (by norm_num) (by norm_num), hlast 12 (.inr (by norm_num)), hmem 11 .green⟩

end Rgba

end KeyLight
