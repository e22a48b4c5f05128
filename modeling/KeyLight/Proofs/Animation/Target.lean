import KeyLight.Animation.Interpolator
import KeyLight.Proofs.Number.Infinity
import Mathlib

/-!
# Where fades between numbers arrive

A linear fade between numbers adds to its start the way to its target, also when all of the way or
nothing of it is done. The way is rounded, and so is the sum. So the fade arrives at its target if
the way is a floating-point number, and else near it. If the way is so great that it is infinite,
the fade arrives there, and it has no value before it starts.

The main statement is `Interpolator.valueAt_arrives_unless_rounded`.
-/

namespace KeyLight

open Binary64

/-! ### All of the way and nothing of it -/

theorem toRat?_one : toRat? 1.0 = some 1 := by decide +kernel

theorem Easing.unit_one : Easing.unit (1.0 : Float) = 1.0 := by decide +kernel

theorem Easing.unit_zero : Easing.unit (0.0 : Float) = 0.0 := by decide +kernel

section Mix

variable {a b d : Float} {p q δ : Rat}

/-- All of a finite way. -/
theorem rounds_add_mul_one (ha : toRat? a = some p) (hd : toRat? d = some δ) :
    Rounds (p + δ) (a + d * 1.0) := by
  have hway := rounds_mul hd toRat?_one
  rw [mul_one] at hway
  exact rounds_add ha (hway.toRat?_eq hd)

/-- A way that is a floating-point number leads to the target. -/
theorem toRat?_add_mul_one (ha : toRat? a = some p) (hb : toRat? b = some q)
    (hway : ∃ y, toRat? y = some (q - p)) : toRat? (a + (b - a) * 1.0) = some q := by
  obtain ⟨y, hy⟩ := hway
  have hsum := rounds_add_mul_one ha ((rounds_sub hb ha).toRat?_eq hy)
  rw [add_sub_cancel] at hsum
  exact hsum.toRat?_eq hb

/-- All of an infinite way. -/
theorem exact_add_mul_one {negative : Bool} (ha : toRat? a = some p)
    (hd : exact d = .infinite negative) : exact (a + d * 1.0) = .infinite negative :=
  exact_add_infinite ha (exact_mul_infinite hd toRat?_one one_pos)

/-- Nothing of a finite way. -/
theorem toRat?_mul_zero (hd : toRat? d = some δ) : toRat? (d * 0.0) = some 0 := by
  have hnothing := rounds_mul hd toRat?_zero
  rw [mul_zero] at hnothing
  exact hnothing.toRat?_eq toRat?_zero

theorem toRat?_add_mul_zero (ha : toRat? a = some p) (hd : toRat? d = some δ) :
    toRat? (a + d * 0.0) = some p := by
  have hsum := rounds_add ha (toRat?_mul_zero hd)
  rw [add_zero] at hsum
  exact hsum.toRat?_eq ha

/-- The way is rounded once and the sum a second time. -/
theorem abs_sub_le_of_rounds {x : Float} {r : Rat} (ha : toRat? a = some p) (hb : toRat? b = some q)
    (hd : Rounds (q - p) d) (hδ : toRat? d = some δ) (hx : Rounds (p + δ) x)
    (hr : toRat? x = some r) : |r - q| ≤ (|q| + 2 * |q - p|) / 2 ^ 53 := by
  have hway := hd.abs_sub_le hδ ((isMultiple_of_toRat? hb).sub (isMultiple_of_toRat? ha))
  have hsum := hx.abs_sub_le hr ((isMultiple_of_toRat? ha).add (isMultiple_of_toRat? hδ))
  have hsmall : |q - p| / 2 ^ 53 ≤ |q - p| := div_le_self (abs_nonneg _) (by norm_num)
  have hreached : |p + δ| ≤ |q| + |q - p| := by
    calc |p + δ|
      _ = |q + (δ - (q - p))| := by ring_nf
      _ ≤ |q| + |δ - (q - p)| := abs_add_le _ _
      _ ≤ |q| + |q - p| := add_le_add_right (hway.trans hsmall) _
  calc |r - q|
    _ = |(r - (p + δ)) + (δ - (q - p))| := by ring_nf
    _ ≤ |r - (p + δ)| + |δ - (q - p)| := abs_add_le _ _
    _ ≤ |p + δ| / 2 ^ 53 + |q - p| / 2 ^ 53 := add_le_add hsum hway
    _ ≤ (|q| + |q - p|) / 2 ^ 53 + |q - p| / 2 ^ 53 := by gcongr
    _ = (|q| + 2 * |q - p|) / 2 ^ 53 := by ring

end Mix

/-! ### Fades -/

theorem progress_float_of_done {duration elapsed : Float}
    (h : duration ≤ elapsed ∨ duration ≤ 0.0) : progress duration elapsed = 1.0 :=
  if_pos h.symm

theorem progress_float_of_not_begun {duration elapsed : Float} (hduration : 0.0 < duration)
    (helapsed : elapsed ≤ 0.0) : progress duration elapsed = 0.0 := by
  have hnot : ¬(duration ≤ 0.0 ∨ duration ≤ elapsed) := by
    rintro (h | h)
    · exact not_le_zero_of_lt hduration h
    · exact not_le_of_zero_lt hduration helapsed h
  exact (if_neg hnot).trans (if_pos helapsed)

namespace Interpolator

variable {f : Interpolator} {a b : Float} {now : Float}

theorem valueAt_of_number (hends : f.endpoints = .number a b) (heasing : f.easing = .linear) :
    f.valueAt now = .number (a + (b - a) * Easing.unit (progress f.duration (now - f.start))) := by
  unfold valueAt valueAfter
  rw [hends, heasing]
  rfl

/-- In the end all of the way is added. -/
theorem valueAt_of_done (hends : f.endpoints = .number a b) (heasing : f.easing = .linear)
    (hdone : f.isDone now = true ∨ f.duration ≤ 0.0) :
    f.valueAt now = .number (a + (b - a) * 1.0) := by
  have hdone : f.duration ≤ now - f.start ∨ f.duration ≤ 0.0 := hdone.imp_left of_decide_eq_true
  rw [valueAt_of_number hends heasing, progress_float_of_done hdone, Easing.unit_one]

/-- Before the start nothing of it is. -/
theorem valueAt_of_not_begun (hends : f.endpoints = .number a b) (heasing : f.easing = .linear)
    (hduration : 0.0 < f.duration) (hnow : now - f.start ≤ 0.0) :
    f.valueAt now = .number (a + (b - a) * 0.0) := by
  rw [valueAt_of_number hends heasing, progress_float_of_not_begun hduration hnow, Easing.unit_zero]

variable {p q : Rat}

/-- **Where linear fades between numbers start and arrive.** The way is the difference of the ends,
rounded. A fade that is done, or takes no time, yields its start with the way added and this rounded
again: its target if the difference is a floating-point number, and else what is near it, but an
infinite number if the way is infinite. Up to its start a fade that lasts yields its first number if
the way is finite, and else what is no number. -/
theorem valueAt_arrives_unless_rounded (hends : f.endpoints = .number a b)
    (heasing : f.easing = .linear) (ha : toRat? a = some p) (hb : toRat? b = some q) (now : Float) :
    Rounds (q - p) (b - a) ∧
      (f.isDone now = true ∨ f.duration ≤ 0.0 → ∃ v, f.valueAt now = .number v ∧
        (∀ way, toRat? (b - a) = some way → Rounds (p + way) v) ∧
        (overflow ≤ |q - p| → exact v = .infinite (decide (q - p < 0))) ∧
        ((∃ y, toRat? y = some (q - p)) → toRat? v = some q) ∧
        ∀ r, toRat? v = some r → |r - q| ≤ (|q| + 2 * |q - p|) / 2 ^ 53) ∧
      (0.0 < f.duration → now - f.start ≤ 0.0 → ∃ v, f.valueAt now = .number v ∧
        (|q - p| < overflow → toRat? v = some p ∧ (p ≠ 0 → v = a)) ∧
        (overflow ≤ |q - p| → exact v = .nan)) := by
  have hway : Rounds (q - p) (b - a) := rounds_sub hb ha
  refine ⟨hway, fun hdone => ⟨_, valueAt_of_done hends heasing hdone, ?_⟩,
    fun hduration hnow => ⟨_, valueAt_of_not_begun hends heasing hduration hnow, ?_⟩⟩
  · refine ⟨fun way hway => rounds_add_mul_one ha hway, fun hgreat => ?_, fun hy => ?_,
      fun r hr => ?_⟩
    · exact exact_add_mul_one ha (hway.exact_of_le hgreat)
    · exact toRat?_add_mul_one ha hb hy
    · rcases lt_or_ge |q - p| overflow with hlt | hgreat
      · obtain ⟨δ, hδ⟩ := hway.toRat?_of_lt hlt
        exact abs_sub_le_of_rounds ha hb hway hδ (rounds_add_mul_one ha hδ) hr
      · rw [toRat?, exact_add_mul_one ha (hway.exact_of_le hgreat)] at hr
        cases hr
  · refine ⟨fun hlt => ?_, fun hgreat => ?_⟩
    · obtain ⟨δ, hδ⟩ := hway.toRat?_of_lt hlt
      exact ⟨toRat?_add_mul_zero ha hδ, fun hp => add_zero_eq ha hp (toRat?_mul_zero hδ)⟩
    · exact exact_add_nan a (exact_infinite_mul_zero (hway.exact_of_le hgreat))

/-- A fade from 1 to 3: it starts and arrives where it should. -/
theorem valueAt_arrives_unless_rounded_small :
    ∃ first last,
      valueAt ⟨.number 1.0 3.0, 10.0, 4.0, .linear⟩ 9.0 = .number first ∧ first = 1.0 ∧
      valueAt ⟨.number 1.0 3.0, 10.0, 4.0, .linear⟩ 20.0 = .number last ∧ toRat? last = some 3 := by
  have hone : toRat? 1.0 = some 1 := by decide +kernel
  have htwo : toRat? 2.0 = some (3 - 1) := by decide +kernel
  have hthree : toRat? 3.0 = some 3 := by decide +kernel
  have hlt : |(3 : Rat) - 1| < overflow := by
    have hpower : (1 : Rat) ≤ 2 ^ (970 : Int) := one_le_zpow₀ one_le_two (by decide)
    unfold overflow
    generalize (2 : Rat) ^ (970 : Int) = power at *
    norm_num
    linarith
  obtain ⟨-, -, hstart⟩ := valueAt_arrives_unless_rounded
    (f := ⟨.number 1.0 3.0, 10.0, 4.0, .linear⟩) rfl rfl hone hthree 9.0
  obtain ⟨-, hdone, -⟩ := valueAt_arrives_unless_rounded
    (f := ⟨.number 1.0 3.0, 10.0, 4.0, .linear⟩) rfl rfl hone hthree 20.0
  obtain ⟨first, hfirst, hfinite, -⟩ := hstart (by decide +kernel) (by decide +kernel)
  obtain ⟨last, hlast, -, -, hexact, -⟩ := hdone (.inl (by decide +kernel))
  exact ⟨first, last, hfirst, (hfinite hlt).2 one_ne_zero, hlast, hexact ⟨2.0, htwo⟩⟩

/-- The way from 10^16 to 1 is rounded to 10^16, so that the fade arrives at 0; and the way from
-10^308 to 10^308 is infinite, so that the fade has no value before it starts. -/
theorem not_forall_valueAt_arrives :
    (¬∀ (f : Interpolator) (a b now : Float), f.endpoints = .number a b → f.easing = .linear →
      (toRat? a).isSome → (toRat? b).isSome → (toRat? f.start).isSome →
      (toRat? f.duration).isSome → (f.isDone now = true ∨ f.duration ≤ 0.0) →
      ∃ v, f.valueAt now = .number v ∧ toRat? v = toRat? b) ∧
    ¬∀ (f : Interpolator) (a b now : Float), f.endpoints = .number a b → f.easing = .linear →
      (toRat? a).isSome → (toRat? b).isSome → (toRat? f.start).isSome →
      (toRat? f.duration).isSome → 0.0 < f.duration → now - f.start ≤ 0.0 →
      ∃ v, f.valueAt now = .number v ∧ toRat? v = toRat? a := by
  constructor
  · intro h
    obtain ⟨v, hv, hvalue⟩ := h ⟨.number 1e16 1.0, 0.0, 1.0, .linear⟩ 1e16 1.0 2.0 rfl rfl
      (by decide +kernel) (by decide +kernel) (by decide +kernel) (by decide +kernel)
      (.inl (by decide +kernel))
    have hzero : valueAt ⟨.number 1e16 1.0, 0.0, 1.0, .linear⟩ 2.0 = .number 0.0 := by
      decide +kernel
    obtain rfl : v = 0.0 := Interpolated.number.inj (hv.symm.trans hzero)
    exact absurd hvalue (by decide +kernel)
  · intro h
    obtain ⟨v, hv, hvalue⟩ := h ⟨.number (-1e308) 1e308, 0.0, 1.0, .linear⟩ (-1e308) 1e308 (-1.0)
      rfl rfl (by decide +kernel) (by decide +kernel) (by decide +kernel) (by decide +kernel)
      (by decide +kernel) (by decide +kernel)
    have hnan : valueAt ⟨.number (-1e308) 1e308, 0.0, 1.0, .linear⟩ (-1.0) =
        .number (-1e308 + (1e308 - -1e308) * 0.0) :=
      valueAt_of_not_begun rfl rfl (by decide +kernel) (by decide +kernel)
    obtain rfl := Interpolated.number.inj (hv.symm.trans hnan)
    exact absurd hvalue (by decide +kernel)

end Interpolator

end KeyLight
