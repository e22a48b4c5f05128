import KeyLight.Color.Rgb

/-!
# Render targets

A render target holds one colour for each key. Scripts write it and the renderer reads it.
-/

namespace KeyLight

/-- One colour per key. -/
structure RenderTarget where
  colors : List Rgba
  deriving Repr, DecidableEq

namespace RenderTarget

/-- A target on which nothing is shown. -/
def blank (size : Nat) : RenderTarget := ⟨List.replicate size Rgba.clear⟩

/-- The number of slots. -/
def size (t : RenderTarget) : Nat := t.colors.length

def isEmpty (t : RenderTarget) : Bool := t.colors.isEmpty

/-- The colour of a slot. -/
def get? (t : RenderTarget) (slot : Nat) : Option Rgba := t.colors[slot]?

/-- The target with a new colour in a slot, if there is such a slot. -/
def set? (t : RenderTarget) (slot : Nat) (c : Rgba) : Option RenderTarget :=
  if slot < t.size then some ⟨t.colors.set slot c⟩ else none

/-- The target with one colour everywhere. -/
def fill (t : RenderTarget) (c : Rgba) : RenderTarget := ⟨t.colors.map fun _ => c⟩

/-- Two targets agree when they have as many slots and the colours agree slot by slot. -/
def agrees (a b : RenderTarget) : Bool :=
  a.size == b.size && (a.colors.zip b.colors).all fun (x, y) => x.agrees y

@[simp] theorem size_fill (t : RenderTarget) (c : Rgba) : (t.fill c).size = t.size := by
  simp [fill, size]

theorem size_of_set? {t u : RenderTarget} {slot : Nat} {c : Rgba} (h : t.set? slot c = some u) :
    u.size = t.size := by
  unfold set? at h
  split at h
  · cases h; simp [size]
  · contradiction

/-- Writing a slot changes this slot alone. -/
theorem get?_of_set? {t u : RenderTarget} {slot : Nat} {c : Rgba} (h : t.set? slot c = some u)
    (i : Nat) : u.get? i = if i = slot then some c else t.get? i := by
  unfold set? at h
  split at h
  · next hs =>
    cases h
    have hs : slot < t.colors.length := hs
    by_cases hi : i = slot
    · simp [get?, hi, hs]
    · simp [get?, hi, Ne.symm hi]
  · contradiction

/-- Exactly the slots below the size can be written. -/
theorem set?_eq_none {t : RenderTarget} {slot : Nat} {c : Rgba} :
    t.set? slot c = none ↔ t.size ≤ slot := by
  unfold set?
  split <;> simp <;> omega

end RenderTarget

end KeyLight
