import KeyLight.Proofs.Color.Palette
import Mathlib.Data.List.Forall2
import Mathlib.Data.List.Nodup

/-!
# Looking texts up

What a palette gives for a text depends on the text only up to the blank characters around it and
the case of its letters, on the way through the names (`Text.lookupForm`) as on the way through the
literals (`Rgba.parse?_congr`). The names of the palettes that are built by extending the standard
one (`Palette.Built`) are distinct, and those of the standard one are no literals.
-/

namespace KeyLight

/-! ### Digits in either case -/

/-- A digit in the other case is the same digit. -/
theorem digitValue?_foldChar (base : Nat) (c : Char) :
    digitValue? base (Text.foldChar c) = digitValue? base c := by
  by_cases hletter : 'A' ≤ c ∧ c ≤ 'Z'
  · have hlower : (Text.foldChar c).toNat = c.toNat + 32 := by
      rw [Text.toNat_foldChar, if_pos hletter]
    have hleft : 65 ≤ c.toNat := hletter.1
    have hright : c.toNat ≤ 90 := hletter.2
    have hupper : ¬(48 ≤ c.toNat ∧ c.toNat ≤ 57) ∧ ¬(97 ≤ c.toNat ∧ c.toNat ≤ 102) := by omega
    have hmoved : ¬(48 ≤ c.toNat + 32 ∧ c.toNat + 32 ≤ 57) ∧
        ¬(65 ≤ c.toNat + 32 ∧ c.toNat + 32 ≤ 70) := by omega
    have hrange : 97 ≤ c.toNat + 32 ∧ c.toNat + 32 ≤ 102 ↔ 65 ≤ c.toNat ∧ c.toNat ≤ 70 := by omega
    have hvalue : c.toNat + 32 - 87 = c.toNat - 55 := by omega
    simp only [digitValue?, hlower, hupper, hmoved, hrange, hvalue, if_false]
  · rw [show Text.foldChar c = c from if_neg hletter]

theorem hexDigit_foldChar {c : Char} {d : Nat} : HexDigit (Text.foldChar c) d ↔ HexDigit c d := by
  have hvalue {c : Char} : HexDigit c d ↔ digitValue? 16 c = some d :=
    ⟨HexDigit.digitValue?, hexDigit_of_digitValue?⟩
  rw [hvalue, hvalue, digitValue?_foldChar]

namespace ColorLiteral

variable {h h' : List Char} {c : Rgb} {alpha : Option UInt8} {text text' : String}

/-- All the values that a character has as a digit are values of another one. -/
def Digitwise (a b : Char) : Prop := ∀ x, HexDigit a x → HexDigit b x

theorem WritesNibble.digitwise {a b : Char} {n : UInt8} (hab : Digitwise a b)
    (hn : WritesNibble a n) : WritesNibble b n :=
  hn.imp fun x hx => ⟨hab x hx.1, hx.2⟩

theorem WritesByte.digitwise {a₁ a₀ b₁ b₀ : Char} {n : UInt8} (h₁ : Digitwise a₁ b₁)
    (h₀ : Digitwise a₀ b₀) (hn : WritesByte a₁ a₀ n) : WritesByte b₁ b₀ n := by
  obtain ⟨x, y, hx, hy, hvalue⟩ := hn
  exact ⟨x, y, h₁ x hx, h₀ y hy, hvalue⟩

/-- What digits write depends on their values only. -/
theorem Writes.digitwise (hsame : List.Forall₂ Digitwise h h') (hw : Writes h c alpha) :
    Writes h' c alpha := by
  cases hw with
  | short hr hg hb =>
    simp only [List.forall₂_cons_left_iff, List.forall₂_nil_left_iff] at hsame
    obtain ⟨r, _, sr, ⟨g, _, sg, ⟨b, _, sb, rfl, rfl⟩, rfl⟩, rfl⟩ := hsame
    exact .short (hr.digitwise sr) (hg.digitwise sg) (hb.digitwise sb)
  | long hr hg hb =>
    simp only [List.forall₂_cons_left_iff, List.forall₂_nil_left_iff] at hsame
    obtain ⟨r₁, _, sr₁, ⟨r₀, _, sr₀, ⟨g₁, _, sg₁, ⟨g₀, _, sg₀, ⟨b₁, _, sb₁, ⟨b₀, _, sb₀, rfl, rfl⟩,
      rfl⟩, rfl⟩, rfl⟩, rfl⟩, rfl⟩ := hsame
    exact .long (hr.digitwise sr₁ sr₀) (hg.digitwise sg₁ sg₀) (hb.digitwise sb₁ sb₀)
  | withAlpha hr hg hb ha =>
    simp only [List.forall₂_cons_left_iff, List.forall₂_nil_left_iff] at hsame
    obtain ⟨r₁, _, sr₁, ⟨r₀, _, sr₀, ⟨g₁, _, sg₁, ⟨g₀, _, sg₀, ⟨b₁, _, sb₁, ⟨b₀, _, sb₀, ⟨a₁, _, sa₁,
      ⟨a₀, _, sa₀, rfl, rfl⟩, rfl⟩, rfl⟩, rfl⟩, rfl⟩, rfl⟩, rfl⟩, rfl⟩ := hsame
    exact .withAlpha (hr.digitwise sr₁ sr₀) (hg.digitwise sg₁ sg₀) (hb.digitwise sb₁ sb₀)
      (ha.digitwise sa₁ sa₀)

/-- Digits write the same in either case. -/
theorem writes_fold : Writes (Text.fold h) c alpha ↔ Writes h c alpha := by
  constructor
  · refine Writes.digitwise (List.forall₂_map_left_iff.mpr (List.forall₂_same.mpr fun a _ x => ?_))
    exact hexDigit_foldChar.mp
  · refine Writes.digitwise (List.forall₂_map_right_iff.mpr (List.forall₂_same.mpr fun a _ x => ?_))
    exact hexDigit_foldChar.mpr

theorem fold_dropSign (cs : List Char) : Text.fold (dropSign cs) = dropSign (Text.fold cs) := by
  cases cs with
  | nil => rfl
  | cons c cs =>
    by_cases hsign : c = '#'
    · rw [hsign]
      rfl
    · have hfold : Text.foldChar c ≠ '#' := fun heq => by
        have hn := Text.toNat_foldChar c
        rw [heq] at hn
        split at hn
        · rename_i hletter
          have hleft : 65 ≤ c.toNat := hletter.1
          exact absurd (show (35 : Nat) = c.toNat + 32 from hn) (by omega)
        · exact hsign (Char.ext (UInt32.toNat_inj.mp hn.symm))
      have hkeep {d : Char} {ds : List Char} (hd : d ≠ '#') : dropSign (d :: ds) = d :: ds := by
        unfold dropSign
        split
        · rename_i heq
          exact absurd (List.cons.inj heq).1 hd
        · rfl
      rw [hkeep hsign]
      exact (hkeep hfold).symm

/-- The folded digits of a literal are those of its folded form. -/
theorem fold_body (text : String) :
    Text.fold (body text) = dropSign (Text.lookupForm text).toList := by
  rw [body, fold_dropSign, Text.lookupForm, String.toList_ofList]

end ColorLiteral

open ColorLiteral

/-- Literals are read without regard to the blank characters around them and to case. -/
theorem Rgba.parse?_congr {text text' : String}
    (hsame : Text.lookupForm text = Text.lookupForm text') : parse? text = parse? text' := by
  have hbody : Text.fold (body text) = Text.fold (body text') := by
    rw [fold_body, hsame, fold_body]
  refine Option.ext fun c => ?_
  rw [parse?_eq_some_iff, parse?_eq_some_iff]
  refine exists_congr fun alpha => and_congr_left fun _ => ?_
  rw [← writes_fold, hbody, writes_fold]

namespace Palette

variable {p : Palette} {text text' : String} {c : Rgb}

/-! ### The names of a palette -/

/-- The palettes that are built from the standard one by adding entries. -/
inductive Built : Palette → Prop
  | standard : Built standard
  | extend {p : Palette} (entries : List (String × String)) (hp : Built p) : Built (p.extend entries)

/-- Names stay distinct when an entry is put in place of the one of its name, or added. -/
theorem nodup_fst_put {α : Type} {entries : List (String × α)}
    (hentries : (entries.map Prod.fst).Nodup) (e : String × α) :
    ((if entries.any (·.1 == e.1) then entries.map fun d => if d.1 == e.1 then e else d
      else entries ++ [e]).map Prod.fst).Nodup := by
  split
  · have hnames : (entries.map fun d => if d.1 == e.1 then e else d).map Prod.fst =
        entries.map Prod.fst := by
      rw [List.map_map]
      refine List.map_congr_left fun d _ => ?_
      by_cases heq : d.1 = e.1
      · simp [heq]
      · simp [heq]
    rwa [hnames]
  · rename_i hnew
    have habsent : e.1 ∉ entries.map Prod.fst := fun hmem => by
      obtain ⟨d, hd, hname⟩ := List.mem_map.mp hmem
      exact hnew (List.any_eq_true.mpr ⟨d, hd, beq_iff_eq.mpr hname⟩)
    rw [List.map_append]
    exact List.nodup_append'.mpr ⟨hentries, List.nodup_singleton e.1, by simpa using habsent⟩

/-- The names of a palette are distinct. -/
def Distinct (p : Palette) : Prop := (p.entries.map Prod.fst).Nodup

theorem Distinct.put (hp : p.Distinct) (name : String) (c : Rgb) : (p.put name c).Distinct := by
  have hentries : (p.put name c).entries = if p.entries.any (·.1 == name)
      then p.entries.map fun e => if e.1 == name then (name, c) else e
      else p.entries ++ [(name, c)] := by
    unfold Palette.put
    split <;> rfl
  rw [Distinct, hentries]
  exact nodup_fst_put hp (name, c)

theorem Distinct.extend (hp : p.Distinct) (entries : List (String × String)) :
    (p.extend entries).Distinct := by
  rw [extend_eq]
  exact List.foldlRecOn _ _ hp fun _ hq e _ => hq.put e.1 e.2

theorem Built.distinct (hp : p.Built) : p.Distinct := by
  induction hp with
  | standard => exact show (Palette.standard.entries.map Prod.fst).Nodup by decide
  | extend entries _ ih => exact ih.extend entries

/-- The colour under a name that is in a palette of distinct names. -/
theorem Distinct.find? (hp : p.Distinct) {name : String} (he : (name, c) ∈ p.entries) :
    p.find? name = some c := by
  obtain ⟨before, after, hsplit⟩ := List.append_of_mem he
  refine List.lookup_eq_some_iff.mpr ⟨before, after, hsplit, fun e hbefore => ?_⟩
  rw [Distinct, hsplit, List.map_append, List.map_cons] at hp
  have hne : e.1 ≠ name := fun heq =>
    List.disjoint_of_nodup_append hp (List.mem_map_of_mem hbefore) (heq ▸ List.mem_cons_self)
  exact bne_iff_ne.mpr hne.symm

/-! ### Names and literals -/

/-- A text that is no name is read as a literal. -/
theorem parse?_of_find?_none (hfind : p.find? (Text.lookupForm text) = none) :
    p.parse? text = Rgba.parse? text := by
  rw [parse?, hfind]

/-- No standard name is a literal: each has a letter that is no digit. -/
theorem find?_standard_of_parse {c : Rgba} (h : Rgba.parse text = (c, true)) :
    standard.find? (Text.lookupForm text) = none := by
  obtain ⟨alpha, hw, -⟩ := Rgba.parse_eq_iff.mp h
  have hdigits : (dropSign (Text.lookupForm text).toList).all (isDigitIn 16) = true := by
    rw [← fold_body, ← isHex_eq]
    exact (writes_fold.mpr hw).isHex
  have hnames : ∀ e ∈ standard.entries,
      (dropSign e.1.toList).all (isDigitIn 16) = false := by decide
  exact find?_eq_none_iff.mpr fun e he heq =>
    absurd hdigits (by rw [← heq, hnames e he]; exact Bool.false_ne_true)

/-- **Palettes look texts up without regard to blank characters around them and to case**, and names
come before literals. Of two texts that are equal when both are trimmed and folded, a palette that
was built from the standard one gives the same in all four channels. It gives the opaque colour of
the name that is equal to the trimmed and folded text, if it has such a name, and otherwise exactly
what is read of the text as a literal. No standard name keeps a literal from being read. -/
theorem lookup_ignores_blanks_and_case (hp : p.Built) :
    (∀ text text', Text.fold (Text.trim text.toList) = Text.fold (Text.trim text'.toList) →
      p.parse? text = p.parse? text') ∧
    (∀ text name c, (name, c) ∈ p.entries → name.toList = Text.fold (Text.trim text.toList) →
      p.parse? text = some ⟨c.red, c.green, c.blue, 255⟩) ∧
    (∀ text, (∀ e ∈ p.entries, e.1.toList ≠ Text.fold (Text.trim text.toList)) →
      p.parse? text = if (Rgba.parse text).2 then some (Rgba.parse text).1 else none) ∧
    ∀ text c, Rgba.parse text = (c, true) → standard.parse? text = some c := by
  refine ⟨fun text text' hsame => ?_, fun text name c he hname => ?_, fun text hnone => ?_,
    fun text c hparse => ?_⟩
  · have hform : Text.lookupForm text = Text.lookupForm text' := congrArg String.ofList hsame
    rw [parse?, parse?, hform, Rgba.parse?_congr hform]
  · have hform : Text.lookupForm text = name := by
      rw [Text.lookupForm, ← hname, String.ofList_toList]
    exact parse?_of_find? (hform ▸ hp.distinct.find? he)
  · have hfind : p.find? (Text.lookupForm text) = none :=
      find?_eq_none_iff.mpr fun e he heq => hnone e he <| by
        rw [heq, Text.lookupForm, String.toList_ofList]
    rw [parse?_of_find?_none hfind, Rgba.parse_eq_flag]
    cases Rgba.parse? text with
    | some c => rfl
    | none => rfl
  · rw [parse?_of_find?_none (find?_standard_of_parse hparse)]
    exact Rgba.parse?_eq_some_iff.mpr (Rgba.parse_eq_iff.mp hparse)

/-- A palette with one more name. -/
def accented : Palette := standard.extend [("Accent", "#123456")]

/-- A name is found between blank characters in any case, and so is a literal. -/
theorem lookup_ignores_blanks_and_case_accented :
    accented.parse? "\u2003ACCENT\n" = some ⟨0x12, 0x34, 0x56, 255⟩ ∧
    accented.parse? " #0aF " = accented.parse? "#0Af\u00A0" ∧
    accented.parse? "#0a" = none ∧ standard.parse? "0000ff80" = some ⟨0, 0, 0xFF, 0x80⟩ := by
  have hbuilt : accented.Built := .extend _ .standard
  obtain ⟨hsame, hname, hliteral, hstandard⟩ := lookup_ignores_blanks_and_case hbuilt
  exact ⟨hname _ "accent" ⟨0x12, 0x34, 0x56⟩ (by decide) (by decide), hsame _ _ (by decide),
    hliteral "#0a" (by decide), hstandard _ _ (by decide)⟩

end Palette

end KeyLight
