import KeyLight.Proofs.World.Plain
import KeyLight.World.Method
import Mathlib.Algebra.Order.Field.Rat
import Mathlib.Data.List.Forall2
import Mathlib.Tactic.Linarith

/-!
# Stacks of overlays

A channel under an overlay is computed in words of 32 bits. Nothing is lost on the way
(`toNat_weightedSum`, `toNat_blendChannel`), so the result is the weighted mean of the two channels,
rounded to the nearest integer. There are no ties, because 255 is odd (`abs_div_sub_lt_half`). The
result lies between the two channels (`le_blendChannel`, `blendChannel_le`). Under an opaque overlay
it is the channel above, and under a transparent one the channel below.

`Rgba.blendAll` puts overlays onto a colour, the lowest one first, and scripts do so by calling the
method of colours again and again (`World.blendCalls`). The main statement, `Rgba.overlaid`, says
what that does for every colour and every list of overlays.
-/

namespace KeyLight

/-- **To divide by an odd number is to round to the nearest integer**, without ties, if half of it
is added before. -/
theorem abs_div_sub_lt_half (n k : ℕ) :
    |(n : ℚ) / (2 * k + 1) - ((n + k) / (2 * k + 1) : ℕ)| < 1 / 2 := by
  have hpos : (0 : ℚ) < 2 * k + 1 := by positivity
  have hlow : (n + k) / (2 * k + 1) * (2 * k + 1) ≤ n + k := Nat.div_mul_le_self ..
  have hhigh : n + k < (n + k) / (2 * k + 1) * (2 * k + 1) + (2 * k + 1) :=
    Nat.lt_div_mul_add (Nat.succ_pos _)
  generalize (n + k) / (2 * k + 1) = q at hlow hhigh ⊢
  -- the quotient is at most `k` parts away, and half of all parts is more
  have hbelow : (q * (2 * k + 1) : ℚ) ≤ n + k := by exact_mod_cast hlow
  have habove : (n : ℚ) ≤ q * (2 * k + 1) + k := by
    exact_mod_cast (by omega : n ≤ q * (2 * k + 1) + k)
  rw [abs_lt, lt_sub_iff_add_lt, sub_lt_iff_lt_add, lt_div_iff₀ hpos, div_lt_iff₀ hpos]
  constructor <;> linarith

namespace Rgba

/-! ### One channel -/

section Channels

variable (alpha below above : UInt8)

/-- The weighted mean of two channels. -/
def weightedMean : ℚ := (below.toNat * (255 - alpha.toNat) + above.toNat * alpha.toNat) / 255

theorem toNat_le (c : UInt8) : c.toNat ≤ 255 := Nat.le_of_lt_succ c.toNat_lt

theorem toNat_toUInt32_le (c : UInt8) : c.toUInt32.toNat ≤ 255 := by
  rw [UInt8.toNat_toUInt32]
  exact toNat_le c

/-- The parts that the two channels have are 255 together. -/
theorem parts_eq : 255 - alpha.toNat + alpha.toNat = 255 := Nat.sub_add_cancel (toNat_le alpha)

/-- The rest of an opacity does not wrap around. -/
theorem toNat_rest : (255 - alpha.toUInt32).toNat = 255 - alpha.toNat := by
  have hle : alpha.toUInt32 ≤ 255 := UInt32.le_iff_toNat_le.mpr (toNat_toUInt32_le alpha)
  rw [UInt32.toNat_sub_of_le _ _ hle, UInt8.toNat_toUInt32]
  rfl

theorem toNat_mul_of_le {m n : UInt32} (hm : m.toNat ≤ 255) (hn : n.toNat ≤ 255) :
    (m * n).toNat = m.toNat * n.toNat := by
  have hle : m.toNat * n.toNat ≤ 255 * 255 := Nat.mul_le_mul hm hn
  rw [UInt32.toNat_mul, Nat.mod_eq_of_lt (by omega)]

theorem toNat_share_below :
    (below.toUInt32 * (255 - alpha.toUInt32)).toNat = below.toNat * (255 - alpha.toNat) := by
  have hrest : (255 - alpha.toUInt32).toNat ≤ 255 := by
    rw [toNat_rest]
    exact Nat.sub_le ..
  rw [toNat_mul_of_le (toNat_toUInt32_le below) hrest, toNat_rest, UInt8.toNat_toUInt32]

theorem toNat_share_above :
    (above.toUInt32 * alpha.toUInt32).toNat = above.toNat * alpha.toNat := by
  rw [toNat_mul_of_le (toNat_toUInt32_le above) (toNat_toUInt32_le alpha), UInt8.toNat_toUInt32,
    UInt8.toNat_toUInt32]

theorem sum_le_of_le {m n hi : ℕ} (hm : m ≤ hi) (hn : n ≤ hi) :
    m * (255 - alpha.toNat) + n * alpha.toNat ≤ hi * 255 := by
  calc m * (255 - alpha.toNat) + n * alpha.toNat
      ≤ hi * (255 - alpha.toNat) + hi * alpha.toNat := by gcongr
    _ = hi * 255 := by rw [← Nat.mul_add, parts_eq]

theorem le_sum_of_le {m n lo : ℕ} (hm : lo ≤ m) (hn : lo ≤ n) :
    lo * 255 ≤ m * (255 - alpha.toNat) + n * alpha.toNat := by
  calc lo * 255 = lo * (255 - alpha.toNat) + lo * alpha.toNat := by rw [← Nat.mul_add, parts_eq]
    _ ≤ m * (255 - alpha.toNat) + n * alpha.toNat := by gcongr

/-- Weighted channels never need more than sixteen bits. -/
theorem sum_le : below.toNat * (255 - alpha.toNat) + above.toNat * alpha.toNat ≤ 255 * 255 :=
  sum_le_of_le alpha (toNat_le below) (toNat_le above)

/-- **The weighted sum fits into a word.** -/
theorem toNat_weightedSum : (weightedSum alpha below above).toNat =
    below.toNat * (255 - alpha.toNat) + above.toNat * alpha.toNat := by
  have hle := sum_le alpha below above
  rw [weightedSum, UInt32.toNat_add, toNat_share_below, toNat_share_above,
    Nat.mod_eq_of_lt (by omega)]

/-- There is room for rounding. -/
theorem toNat_weightedSum_add :
    (weightedSum alpha below above + 127).toNat = (weightedSum alpha below above).toNat + 127 := by
  have hle := sum_le alpha below above
  rw [UInt32.toNat_add, toNat_weightedSum]
  exact Nat.mod_eq_of_lt (by change _ + 127 < _; omega)

theorem toNat_roundedMean : (roundedMean alpha below above).toNat =
    ((weightedSum alpha below above).toNat + 127) / 255 := by
  rw [roundedMean, UInt32.toNat_div, toNat_weightedSum_add]
  rfl

/-- **The rounded mean fits into a channel.** -/
theorem toNat_blendChannel :
    (blendChannel alpha below above).toNat = (roundedMean alpha below above).toNat := by
  have hle := sum_le alpha below above
  rw [blendChannel, UInt32.toNat_toUInt8, toNat_roundedMean, toNat_weightedSum]
  exact Nat.mod_eq_of_lt (by omega)

/-- **A channel under an overlay is the weighted mean**, rounded to the nearest integer. -/
theorem abs_weightedMean_sub_lt :
    |weightedMean alpha below above - (blendChannel alpha below above).toNat| < 1 / 2 := by
  have hmean : weightedMean alpha below above =
      ((below.toNat * (255 - alpha.toNat) + above.toNat * alpha.toNat : ℕ) : ℚ) / 255 := by
    rw [weightedMean]
    push_cast [Nat.cast_sub (toNat_le alpha)]
    rfl
  have hround := abs_div_sub_lt_half
    (below.toNat * (255 - alpha.toNat) + above.toNat * alpha.toNat) 127
  rw [toNat_blendChannel, toNat_roundedMean, toNat_weightedSum, hmean]
  norm_num at hround ⊢
  exact hround

variable {below above}

/-- It is not below both of the channels, -/
theorem le_blendChannel {lo : ℕ} (hbelow : lo ≤ below.toNat) (habove : lo ≤ above.toNat) :
    lo ≤ (blendChannel alpha below above).toNat := by
  have hle := le_sum_of_le alpha hbelow habove
  rw [toNat_blendChannel, toNat_roundedMean, toNat_weightedSum]
  omega

/-- and not above both. -/
theorem blendChannel_le {hi : ℕ} (hbelow : below.toNat ≤ hi) (habove : above.toNat ≤ hi) :
    (blendChannel alpha below above).toNat ≤ hi := by
  have hle := sum_le_of_le alpha hbelow habove
  rw [toNat_blendChannel, toNat_roundedMean, toNat_weightedSum]
  omega

variable (below above)

theorem blendChannel_fullAlpha : blendChannel fullAlpha below above = above := by
  apply UInt8.toNat_inj.mp
  rw [toNat_blendChannel, toNat_roundedMean, toNat_weightedSum,
    show fullAlpha.toNat = 255 from rfl]
  omega

theorem blendChannel_zero : blendChannel 0 below above = below := by
  apply UInt8.toNat_inj.mp
  rw [toNat_blendChannel, toNat_roundedMean, toNat_weightedSum, show (0 : UInt8).toNat = 0 from rfl]
  omega

end Channels

/-! ### One overlay -/

/-- The channels that are blended. -/
def shades : List (Rgba → UInt8) := [red, green, blue]

theorem shade_blend {shade : Rgba → UInt8} (h : shade ∈ shades) (below overlay : Rgba) :
    shade (below.blend overlay) = blendChannel overlay.alpha (shade below) (shade overlay) := by
  simp only [shades, List.mem_cons, List.not_mem_nil, or_false] at h
  obtain rfl | rfl | rfl := h <;> rfl

theorem alpha_blend (below overlay : Rgba) : (below.blend overlay).alpha = below.alpha := rfl

/-- An opaque overlay hides what is below. -/
theorem rgb_blend_of_fullAlpha {overlay : Rgba} (h : overlay.alpha = fullAlpha) (below : Rgba) :
    (below.blend overlay).rgb = overlay.rgb := by
  simp only [blend, rgb, h, blendChannel_fullAlpha]

/-- A transparent overlay shows it as it is. -/
theorem blend_of_transparent {overlay : Rgba} (h : overlay.alpha = 0) (below : Rgba) :
    below.blend overlay = below := by
  simp only [blend, h, blendChannel_zero]

/-- The opacity of the colour below is not looked at. -/
theorem rgb_blend_congr {below below' : Rgba} (h : below.rgb = below'.rgb) (overlay : Rgba) :
    (below.blend overlay).rgb = (below'.blend overlay).rgb := by
  obtain ⟨hred, hgreen, hblue⟩ := Rgb.mk.inj h
  simp only [blend, rgb, hred, hgreen, hblue]

/-! ### Lists of overlays -/

/-- A colour under overlays, the lowest one first. -/
def blendAll (base : Rgba) (overlays : List Rgba) : Rgba := overlays.foldl blend base

section Overlays

variable (base : Rgba) (before after overlays : List Rgba)

theorem blendAll_append :
    base.blendAll (before ++ after) = (base.blendAll before).blendAll after :=
  List.foldl_append

theorem blendAll_split (overlay : Rgba) : base.blendAll (before ++ overlay :: after) =
    ((base.blendAll before).blend overlay).blendAll after :=
  List.foldl_append

theorem alpha_blendAll : (base.blendAll overlays).alpha = base.alpha := by
  induction overlays generalizing base with
  | nil => rfl
  | cons overlay overlays ih => exact (ih (base.blend overlay)).trans (alpha_blend base overlay)

theorem rgb_blendAll_congr {base base' : Rgba} (h : base.rgb = base'.rgb) :
    (base.blendAll overlays).rgb = (base'.blendAll overlays).rgb := by
  induction overlays generalizing base base' with
  | nil => exact h
  | cons overlay overlays ih => exact ih (rgb_blend_congr h overlay)

/-- What holds of a channel of the colour and of the overlays, and is kept by blending, holds of the
channel of the result. -/
theorem shade_blendAll {shade : Rgba → UInt8} (hshade : shade ∈ shades) {p : UInt8 → Prop}
    (hblend : ∀ alpha below above, p below → p above → p (blendChannel alpha below above))
    (hall : ∀ c ∈ base :: overlays, p (shade c)) : p (shade (base.blendAll overlays)) := by
  induction overlays generalizing base with
  | nil => exact hall base List.mem_cons_self
  | cons overlay overlays ih =>
    obtain ⟨hbase, hoverlay, hrest⟩ := by simpa only [List.forall_mem_cons] using hall
    have hstep : p (shade (base.blend overlay)) := by
      rw [shade_blend hshade]
      exact hblend _ _ _ hbase hoverlay
    exact ih (base.blend overlay) (List.forall_mem_cons.mpr ⟨hstep, hrest⟩)

/-- Overlays that are transparent may be left out. -/
theorem blendAll_filter :
    base.blendAll (overlays.filter (·.alpha ≠ 0)) = base.blendAll overlays := by
  induction overlays generalizing base with
  | nil => rfl
  | cons overlay overlays ih =>
    by_cases halpha : overlay.alpha = 0
    · rw [List.filter_cons_of_neg (by simpa using halpha), ih]
      exact congrArg (blendAll · overlays) (blend_of_transparent halpha base).symm
    · rw [List.filter_cons_of_pos (by simpa using halpha)]
      exact ih (base.blend overlay)

end Overlays

end Rgba

/-! ### Scripts that blend -/

namespace World

variable {w : World} {v o : Value} {base overlay : Rgba}

/-- The calls of the method that blends overlays onto a colour, one after the other. -/
def blendCalls (w : World) (v : Value) : List Value → Except Fault Value × World
  | [] => (.ok v, w)
  | o :: os =>
    match w.callMethod .blend [v, o] with
    | (.ok v, w) => blendCalls w v os
    | (.error f, w) => (.error f, w)

/-- One call makes the object of the blended colour. -/
theorem callMethod_blend (hv : w.heap.object? v = some (.color base))
    (ho : w.heap.object? o = some (.color overlay)) :
    w.callMethod .blend [v, o] =
      (.ok (w.newObject (.color (base.blend overlay))).1,
        (w.newObject (.color (base.blend overlay))).2) := by
  have hreceiver : (w.receiver .blend [v, o] : Except Fault Rgba) = .ok base := by
    simp only [receiver, hv]
    rfl
  have hoverlay : (w.heap.check (some (argument [v, o] 2)) 2 : Except CallError Rgba) =
      .ok overlay := by
    unfold Heap.check
    rw [Option.bind_some, show argument [v, o] 2 = o from rfl, ho]
    rfl
  simp only [callMethod, readMethod, hreceiver, hoverlay]
  rfl

/-- **Calling the method again and again** makes the object of the colour under all overlays. -/
theorem exists_blendCalls (hv : w.heap.object? v = some (.color base)) {os : List Value}
    {overlays : List Rgba}
    (hos : List.Forall₂ (fun o overlay => w.heap.object? o = some (.color overlay)) os overlays) :
    ∃ v' w', w.blendCalls v os = (.ok v', w') ∧
      w'.heap.object? v' = some (.color (base.blendAll overlays)) := by
  induction os generalizing w v base overlays with
  | nil =>
    cases hos with
    | nil => exact ⟨v, w, rfl, hv⟩
  | cons o os ih =>
    cases hos with
    | @cons _ overlay _ overlays ho hos =>
      have hkeeps := Heap.keeps_addObject w.heap (.color (base.blend overlay))
      -- the overlays that are left are still the same after the call
      have hleft := hos.imp fun _ _ ho => hkeeps.object? ho
      obtain ⟨v', w', hcalls, hobject⟩ :=
        ih (w := (w.newObject _).2) (Heap.object?_addObject ..) hleft
      refine ⟨v', w', ?_, hobject⟩
      rw [blendCalls, callMethod_blend hv ho]
      exact hcalls

end World

/-! ### The result -/

namespace Rgba

/-- How one channel is computed. Each operation on words gives the number that it stands for. -/
structure BlendsExactly (alpha below above result : UInt8) : Prop where
  rest : (255 - alpha.toUInt32).toNat + alpha.toNat = 255
  shareBelow :
    (below.toUInt32 * (255 - alpha.toUInt32)).toNat = below.toNat * (255 - alpha.toNat)
  shareAbove : (above.toUInt32 * alpha.toUInt32).toNat = above.toNat * alpha.toNat
  sum : (weightedSum alpha below above).toNat =
    below.toNat * (255 - alpha.toNat) + above.toNat * alpha.toNat
  raised : (weightedSum alpha below above + 127).toNat = (weightedSum alpha below above).toNat + 127
  quotient :
    (roundedMean alpha below above).toNat = ((weightedSum alpha below above).toNat + 127) / 255
  /-- The cast to eight bits cuts nothing off. -/
  cast : result.toNat = (roundedMean alpha below above).toNat
  /-- No other integer is as near to the weighted mean. -/
  nearest : |weightedMean alpha below above - result.toNat| < 1 / 2

theorem blendsExactly (alpha below above : UInt8) :
    BlendsExactly alpha below above (blendChannel alpha below above) where
  rest := by rw [toNat_rest, parts_eq]
  shareBelow := toNat_share_below alpha below
  shareAbove := toNat_share_above alpha above
  sum := toNat_weightedSum alpha below above
  raised := toNat_weightedSum_add alpha below above
  quotient := toNat_roundedMean alpha below above
  cast := toNat_blendChannel alpha below above
  nearest := abs_weightedMean_sub_lt alpha below above

/-- A channel of a colour and of its overlays. -/
def channels (base : Rgba) (overlays : List Rgba) (shade : Rgba → UInt8) : List ℕ :=
  (base :: overlays).map fun c => (shade c).toNat

theorem channels_ne_nil (base : Rgba) (overlays : List Rgba) (shade : Rgba → UInt8) :
    base.channels overlays shade ≠ [] :=
  List.cons_ne_nil _ _

/-- What is true of a colour under overlays. -/
structure Overlaid (base : Rgba) (overlays : List Rgba) : Prop where
  /-- Every overlay is blended exactly onto what the ones before it made. -/
  stepwise : ∀ before overlay after, overlays = before ++ overlay :: after → ∀ shade ∈ shades,
    BlendsExactly overlay.alpha (shade (base.blendAll before)) (shade overlay)
      (shade (base.blendAll (before ++ [overlay])))
  /-- No channel leaves the range of that channel. -/
  bounded : ∀ shade ∈ shades,
    (base.channels overlays shade).min (base.channels_ne_nil overlays shade) ≤
        (shade (base.blendAll overlays)).toNat ∧
      (shade (base.blendAll overlays)).toNat ≤
        (base.channels overlays shade).max (base.channels_ne_nil overlays shade)
  /-- What is under an opaque overlay does not count. -/
  covered : ∀ before overlay after, overlays = before ++ overlay :: after →
    overlay.alpha = fullAlpha → (base.blendAll overlays).rgb = (overlay.blendAll after).rgb
  /-- A transparent overlay can be removed, -/
  removable : ∀ before overlay after, overlays = before ++ overlay :: after → overlay.alpha = 0 →
    base.blendAll (before ++ after) = base.blendAll overlays
  /-- and so can all of them. -/
  filtered : base.blendAll (overlays.filter (·.alpha ≠ 0)) = base.blendAll overlays
  alpha : (base.blendAll overlays).alpha = base.alpha
  /-- Scripts that blend the overlays one after the other have the same colour in the end. -/
  scripted : ∀ (w : World) (v : Value) (os : List Value),
    w.heap.object? v = some (.color base) →
    List.Forall₂ (fun o overlay => w.heap.object? o = some (.color overlay)) os overlays →
    ∃ v' w', w.blendCalls v os = (.ok v', w') ∧
      w'.heap.object? v' = some (.color (base.blendAll overlays))

/-- **A stack of overlays is a bounded mix**, exact and rounded to the nearest integer at each
step. -/
theorem overlaid (base : Rgba) (overlays : List Rgba) : Overlaid base overlays where
  stepwise := by
    rintro before overlay after - shade hshade
    rw [blendAll_append]
    change BlendsExactly _ _ _ (shade ((base.blendAll before).blend overlay))
    rw [shade_blend hshade]
    exact blendsExactly ..
  bounded := by
    intro shade hshade
    have hmem : ∀ c ∈ base :: overlays, (shade c).toNat ∈ base.channels overlays shade :=
      fun _ => List.mem_map_of_mem
    constructor
    · exact shade_blendAll base overlays hshade (p := (_ ≤ UInt8.toNat ·))
        (fun alpha _ _ => le_blendChannel alpha) fun c hc => List.min_le_of_mem (hmem c hc)
    · exact shade_blendAll base overlays hshade (p := (UInt8.toNat · ≤ _))
        (fun alpha _ _ => blendChannel_le alpha) fun c hc => List.le_max_of_mem (hmem c hc)
  covered := by
    rintro before overlay after rfl halpha
    rw [blendAll_split]
    exact rgb_blendAll_congr after (rgb_blend_of_fullAlpha halpha _)
  removable := by
    rintro before overlay after rfl halpha
    rw [blendAll_split, blend_of_transparent halpha, blendAll_append]
  filtered := blendAll_filter base overlays
  alpha := alpha_blendAll base overlays
  scripted _ _ _ hv hos := World.exists_blendCalls hv hos

example :
    blendAll ⟨0, 0, 0, 255⟩ [⟨255, 0, 0, 0⟩, ⟨200, 100, 0, 128⟩] = ⟨100, 50, 0, 255⟩ := by
  decide

end Rgba

end KeyLight
