import KeyLight.Text.Blank
import KeyLight.Text.Quoted
import KeyLight.Text.Slice
import KeyLight.Number.Numeral

/-!
# Colours

A colour has three channels of eight bits, and on the script side a fourth one, its opacity. The
text of a colour is a number sign and two upper-case hexadecimal digits for each channel. A literal
is read more freely: blank characters around it and the number sign are optional, letters may be in
either case, one digit may stand for a channel of two equal ones, and the opacity may be missing.

Two colours with an opacity *match* when they agree on red, green and blue.
-/

namespace KeyLight

/-- A colour of a key. -/
structure Rgb where
  red : UInt8
  green : UInt8
  blue : UInt8
  deriving Repr, DecidableEq

/-- A colour with an opacity, from transparent to opaque. -/
structure Rgba where
  red : UInt8
  green : UInt8
  blue : UInt8
  alpha : UInt8
  deriving Repr, DecidableEq

/-- A text that is no colour literal. -/
structure InvalidColor where
  text : String
  deriving Repr, DecidableEq

def InvalidColor.message (e : InvalidColor) : String :=
  "invalid color literal: " ++ Text.quote e.text

/-- Two upper-case hexadecimal digits. -/
def hexByte (n : UInt8) : List Char :=
  let digit (d : Nat) : Char := Char.ofNat (if d < 10 then 48 + d else 55 + d)
  [digit (n.toNat / 16), digit (n.toNat % 16)]

namespace ColorLiteral

/-- Drops one number sign in front. -/
def dropSign : List Char → List Char
  | '#' :: cs => cs
  | cs => cs

/-- The digits of a literal: what is left without blank characters and the number sign. -/
def body (text : String) : List Char := dropSign (Text.trim text.toList)

/-- Whether all bytes of a text are hexadecimal digits. -/
def isHex (h : List Char) : Bool :=
  (h.flatMap String.utf8EncodeChar).all fun b => isDigitIn 16 (Char.ofNat b.toNat)

/-- The number in a piece of a text. There is no answer if the text cannot be cut there, and none in
the answer if the piece is no number. -/
def pieceAt (h : List Char) (start width : Nat) : OptionT Option UInt8 :=
  .mk ((Text.slice? h start (start + width)).map (readByte? 16))

/-- The channel that one digit writes. -/
def nibbleAt (h : List Char) (start : Nat) : OptionT Option UInt8 := do
  return (← pieceAt h start 1) * 17

/-- The channel that two digits write. -/
def byteAt (h : List Char) (start : Nat) : OptionT Option UInt8 := pieceAt h start 2

/-- Cuts the digits of a literal into the channels, according to their length in bytes. The fourth
channel may be missing. -/
def channels (h : List Char) : OptionT Option (Rgb × Option UInt8) :=
  if isHex h then
    match Text.byteLength h with
    | 3 => do return (⟨← nibbleAt h 0, ← nibbleAt h 1, ← nibbleAt h 2⟩, none)
    | 6 => do return (⟨← byteAt h 0, ← byteAt h 2, ← byteAt h 4⟩, none)
    | 8 => do return (⟨← byteAt h 0, ← byteAt h 2, ← byteAt h 4⟩, some (← byteAt h 6))
    | _ => failure
  else failure

/-! ### Digits can be cut anywhere -/

theorem all_utf8EncodeChar (c : Char) :
    ((String.utf8EncodeChar c).all fun b => isDigitIn 16 (Char.ofNat b.toNat)) =
      isDigitIn 16 c := by
  by_cases hc : c.utf8Size = 1
  · rw [String.utf8EncodeChar_eq_singleton hc, List.all_cons, List.all_nil, Bool.and_true,
      Utf8.ofNat_toUInt8_of_ascii hc]
  · -- no byte of the character is a digit, and neither is the character
    have hbytes : ∀ b ∈ String.utf8EncodeChar c, ¬isDigitIn 16 (Char.ofNat b.toNat) := by
      intro b hb hdigit
      have hle := le_of_isDigitIn hdigit
      rw [Utf8.toNat_ofNat_toNat] at hle
      exact absurd (Nat.le_trans (Utf8.le_of_mem_utf8EncodeChar hc hb) hle) (by decide)
    have hchar : ¬isDigitIn 16 c := fun hdigit =>
      hc (Utf8.ascii_of_toNat_le (Nat.le_trans (le_of_isDigitIn hdigit) (by decide)))
    rw [Bool.eq_false_iff.mpr hchar, List.all_eq_false]
    obtain ⟨b, hb⟩ := List.exists_mem_of_length_pos
      (String.length_utf8EncodeChar c ▸ Char.utf8Size_pos c)
    exact ⟨b, hb, hbytes b hb⟩

/-- The bytes of a text are digits if its characters are. -/
theorem isHex_eq (h : List Char) : isHex h = h.all (isDigitIn 16) := by
  rw [isHex, List.all_flatMap]
  exact List.all_congr rfl all_utf8EncodeChar

theorem isAscii_of_isHex {h : List Char} (hex : isHex h = true) : Utf8.IsAscii h := fun c hc => by
  rw [isHex_eq] at hex
  have hle := le_of_isDigitIn (List.all_eq_true.mp hex c hc)
  exact Utf8.ascii_of_toNat_le (Nat.le_trans hle (by decide))

/-- A piece of a text of digits can be cut out. -/
theorem run_pieceAt {h : List Char} (hex : isHex h = true) {start width : Nat}
    (hlength : start + width ≤ h.length) :
    (pieceAt h start width).run = some (readByte? 16 ((h.drop start).take width)) := by
  rw [pieceAt, OptionT.run_mk, Text.slice?_of_ascii (isAscii_of_isHex hex) (Nat.le_add_right ..)
    hlength, Nat.add_sub_cancel_left]
  rfl

theorem isSome_run_bind {α β : Type} {x : OptionT Option α} {f : α → OptionT Option β}
    (hx : x.run.isSome) (hf : ∀ a, (f a).run.isSome) : (x >>= f).run.isSome := by
  rw [OptionT.run_bind]
  obtain ⟨a?, ha⟩ := Option.isSome_iff_exists.mp hx
  rw [ha]
  cases a? with
  | none => rfl
  | some a => exact hf a

theorem isSome_run_byteAt {h : List Char} (hex : isHex h = true) {start : Nat}
    (hlength : start + 2 ≤ h.length) : (byteAt h start).run.isSome := by
  rw [byteAt, run_pieceAt hex hlength]
  rfl

theorem isSome_run_nibbleAt {h : List Char} (hex : isHex h = true) {start : Nat}
    (hlength : start + 1 ≤ h.length) : (nibbleAt h start).run.isSome := by
  refine isSome_run_bind ?_ fun _ => rfl
  rw [run_pieceAt hex hlength]
  rfl

/-- **The text of a literal can always be cut.** It is cut only if it has nothing but digits. -/
theorem isSome_run_channels (h : List Char) : (channels h).run.isSome := by
  unfold channels
  split
  · rename_i hex
    have hbyte {i : Nat} : i + 2 ≤ h.length → (byteAt h i).run.isSome := isSome_run_byteAt hex
    have hnibble {i : Nat} : i + 1 ≤ h.length → (nibbleAt h i).run.isSome :=
      isSome_run_nibbleAt hex
    rw [Text.byteLength_of_ascii (isAscii_of_isHex hex)]
    split
    · rename_i hlength
      exact isSome_run_bind (hnibble (by omega)) fun _ =>
        isSome_run_bind (hnibble (by omega)) fun _ =>
          isSome_run_bind (hnibble (by omega)) fun _ => rfl
    · rename_i hlength
      exact isSome_run_bind (hbyte (by omega)) fun _ =>
        isSome_run_bind (hbyte (by omega)) fun _ =>
          isSome_run_bind (hbyte (by omega)) fun _ => rfl
    · rename_i hlength
      exact isSome_run_bind (hbyte (by omega)) fun _ =>
        isSome_run_bind (hbyte (by omega)) fun _ =>
          isSome_run_bind (hbyte (by omega)) fun _ =>
            isSome_run_bind (hbyte (by omega)) fun _ => rfl
    · rfl
  · rfl

/-- Reads a literal. -/
def read? (text : String) : Option (Rgb × Option UInt8) :=
  (channels (body text)).run.get (isSome_run_channels (body text))

end ColorLiteral

namespace Rgb

def black : Rgb := ⟨0, 0, 0⟩

/-- The text of a colour. -/
def text (c : Rgb) : String :=
  String.ofList ('#' :: hexByte c.red ++ hexByte c.green ++ hexByte c.blue)

/-- The colour of a literal without opacity. -/
def parse? (text : String) : Option Rgb :=
  match ColorLiteral.read? text with
  | some (c, none) => some c
  | _ => none

/-- The colour of a literal and whether there is one; black stands in for a missing one. -/
def parse (text : String) : Rgb × Bool :=
  match parse? text with
  | some c => (c, true)
  | none => (black, false)

/-- The colour of a literal, or what is wrong with it. -/
def ofText (text : String) : Except InvalidColor Rgb :=
  match parse text with
  | (c, true) => .ok c
  | (_, false) => .error ⟨text⟩

end Rgb

namespace Rgba

/-- The greatest opacity. -/
def fullAlpha : UInt8 := 255

/-- A colour with the given opacity. -/
def ofRgb (c : Rgb) (alpha : UInt8) : Rgba := ⟨c.red, c.green, c.blue, alpha⟩

/-- An opaque colour. -/
def solid (c : Rgb) : Rgba := ofRgb c fullAlpha

/-- Nothing shown. -/
def clear : Rgba := ⟨0, 0, 0, 0⟩

/-- The colour without its opacity. -/
def rgb (c : Rgba) : Rgb := ⟨c.red, c.green, c.blue⟩

/-- Two colours agree when they differ at most in opacity. -/
def agrees (a b : Rgba) : Bool := a.rgb == b.rgb

/-- The text of a colour. -/
def text (c : Rgba) : String :=
  String.ofList
    ('#' :: hexByte c.red ++ hexByte c.green ++ hexByte c.blue ++ hexByte c.alpha)

/-- The colour of a literal. One without opacity is opaque. -/
def parse? (text : String) : Option Rgba :=
  (ColorLiteral.read? text).map fun (c, alpha) => ofRgb c (alpha.getD fullAlpha)

/-- The colour of a literal and whether there is one; opaque black stands in for a missing one. -/
def parse (text : String) : Rgba × Bool :=
  match parse? text with
  | some c => (c, true)
  | none => (solid Rgb.black, false)

/-- The colour of a literal, or what is wrong with it. -/
def ofText (text : String) : Except InvalidColor Rgba :=
  match parse text with
  | (c, true) => .ok c
  | (_, false) => .error ⟨text⟩

/-- Two channels, the one above weighted by its opacity and the one below by the rest, in parts of
255. -/
def weightedSum (alpha below above : UInt8) : UInt32 :=
  below.toUInt32 * (255 - alpha.toUInt32) + above.toUInt32 * alpha.toUInt32

/-- The weighted mean of two channels, rounded to the nearest integer. -/
def roundedMean (alpha below above : UInt8) : UInt32 := (weightedSum alpha below above + 127) / 255

/-- One channel of a colour under an overlay of opacity `alpha`. -/
def blendChannel (alpha below above : UInt8) : UInt8 := (roundedMean alpha below above).toUInt8

/-- A colour under an overlay, which counts by its opacity. The opacity of the result is that of the
colour below. -/
def blend (below overlay : Rgba) : Rgba :=
  ⟨blendChannel overlay.alpha below.red overlay.red,
    blendChannel overlay.alpha below.green overlay.green,
    blendChannel overlay.alpha below.blue overlay.blue, below.alpha⟩

end Rgba

end KeyLight
