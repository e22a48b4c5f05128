import KeyLight.Proofs.Text.Utf8
import Mathlib.Data.List.Infix

/-!
# Reading byte strings one by one and joined

Reading two byte strings leniently, one after the other, is reading the string that they make
together, unless a character is cut between them (`Tears`): a part of its bytes ends the first
string and a byte of it starts the second. Then the joined reading is shorter, for the strings apart
have U+FFFD for the part before the cut and for every byte after it.

* `tears_cons_of_opens`, `tears_cons_of_not_opens`: what a cut is, from the front of the first
  string to its end.
* `chars_append`, `length_chars_append_lt`: two strings without and with a cut between them.
* `chars_flatten_eq_iff`, `join_map_decodeLossy_eq_iff`: any number of strings.
* `not_torn_encode`: there is no cut after a text.
-/

namespace KeyLight.Utf8

variable {b m : UInt8} {before after rest tail : Bytes} {ranges : List (Nat × Nat)}

/-- A character is cut between two strings: the end of the first one and the byte that starts the
second one stand together at the front of the bytes of a character. -/
def Tears (before after : Bytes) : Prop :=
  ∃ part m c, part ≠ [] ∧ part <:+ before ∧ after.head? = some m ∧
    part ++ [m] <+: String.utf8EncodeChar c

/-- A character is cut between two of the strings. -/
def Torn (pieces : List Bytes) : Prop :=
  ∃ before after, pieces = before ++ after ∧ Tears before.flatten after.flatten

/-! ### The bytes at the front of a character -/

/-- The ranges that a byte sets hold bytes that start no character. -/
theorem range_of_tails? : ∀ {range}, tails? b = some ranges → range ∈ ranges →
    128 ≤ range.1 ∧ range.1 ≤ range.2 ∧ range.2 ≤ 191 := by
  have hall : ∀ n < 256, ∀ range ∈ (tails? (UInt8.ofNat n)).getD [],
      128 ≤ range.1 ∧ range.1 ≤ range.2 ∧ range.2 ≤ 191 := by
    decide +kernel
  intro range hranges hrange
  have hb := hall b.toNat b.toNat_lt
  rw [UInt8.ofNat_toNat, hranges, Option.getD_some] at hb
  exact hb range hrange

theorem range_of_followers {range : Nat × Nat} (hrange : range ∈ followers b) :
    128 ≤ range.1 ∧ range.1 ≤ range.2 ∧ range.2 ≤ 191 := by
  cases hranges : tails? b with
  | none => rw [followers_eq_nil hranges] at hrange; cases hrange
  | some ranges => exact range_of_tails? hranges (followers_eq hranges ▸ hrange)

/-- A byte that continues a character starts none. -/
theorem tails?_of_inRange {range : Nat × Nat} (hrange : range ∈ followers b)
    (hm : InRange range m) : tails? m = none := by
  obtain ⟨hleast, -, hgreatest⟩ := range_of_followers hrange
  have hm₁ := hm.1
  have hm₂ := hm.2
  unfold tails?
  simp only
  rw [if_neg (by omega), if_pos (by omega)]

/-- What is read together with the first byte starts no character. -/
theorem tails?_of_mem_take (hm : m ∈ rest.take (fitting ranges rest))
    (hranges : ∀ range ∈ ranges, range ∈ followers b) : tails? m = none := by
  induction ranges generalizing rest with
  | nil => rw [fitting_nil_left] at hm; cases hm
  | cons range ranges ih =>
    cases rest with
    | nil => cases hm
    | cons x rest =>
      rw [fitting] at hm
      split at hm
      · rename_i hx
        rw [List.take_succ_cons, List.mem_cons] at hm
        obtain rfl | hm := hm
        · exact tails?_of_inRange (hranges range List.mem_cons_self) hx
        · exact ih hm fun r hr => hranges r (List.mem_cons_of_mem _ hr)
      · cases hm

/-- A string whose bytes are in the ranges as far as it goes can be continued to their end. -/
theorem exists_forall₂_append (h : fitting ranges tail = tail.length)
    (hranges : ∀ range ∈ ranges, range ∈ followers b) :
    ∃ fill, List.Forall₂ InRange ranges (tail ++ fill) := by
  induction ranges generalizing tail with
  | nil =>
    obtain rfl : tail = [] := List.eq_nil_of_length_eq_zero (h ▸ by cases tail <;> rfl)
    exact ⟨[], .nil⟩
  | cons range ranges ih =>
    have htail := fun r hr => hranges r (List.mem_cons_of_mem _ hr)
    cases tail with
    | nil =>
      have hempty : fitting ranges [] = ([] : Bytes).length := fitting_nil_right
      obtain ⟨fill, hfill⟩ := ih hempty htail
      obtain ⟨-, hle, hlt⟩ := range_of_followers (hranges range List.mem_cons_self)
      have hnumber : (UInt8.ofNat range.1).toNat = range.1 := by
        rw [UInt8.toNat_ofNat', Nat.mod_eq_of_lt (by omega)]
      exact ⟨.ofNat range.1 :: fill, .cons ⟨hnumber.ge, hnumber.le.trans hle⟩ hfill⟩
    | cons x tail =>
      rw [fitting] at h
      split at h
      · rename_i hx
        obtain ⟨fill, hfill⟩ := ih (Nat.succ.inj h) htail
        exact ⟨fill, .cons hx hfill⟩
      · cases h

theorem fitting_of_forall₂_append {fill : Bytes}
    (h : List.Forall₂ InRange ranges (tail ++ fill)) : fitting ranges tail = tail.length := by
  induction tail generalizing ranges with
  | nil => cases ranges <;> rfl
  | cons x tail ih =>
    rw [List.cons_append] at h
    cases h with
    | cons hx h => rw [fitting, if_pos hx, ih h, List.length_cons]

/-- The fronts of the bytes of characters: a byte that starts a character, and bytes in the ranges
that it sets. -/
theorem isPrefix_utf8EncodeChar_iff :
    (∃ c, b :: tail <+: String.utf8EncodeChar c) ↔
      (tails? b).isSome ∧ fitting (followers b) tail = tail.length := by
  constructor
  · rintro ⟨c, fill, hc⟩
    obtain ⟨ranges, hranges, hfit, -⟩ := inRange_of_utf8EncodeChar hc.symm
    rw [followers_eq hranges, hranges]
    exact ⟨rfl, fitting_of_forall₂_append hfit⟩
  · rintro ⟨hb, hfit⟩
    obtain ⟨ranges, hranges⟩ := Option.isSome_iff_exists.mp hb
    obtain rfl := followers_eq hranges
    obtain ⟨fill, hfill⟩ := exists_forall₂_append hfit fun _ hr => hr
    exact ⟨_, fill, (utf8EncodeChar_of_inRange hranges hfill).symm⟩

/-! ### Cuts, from the front of the first string to its end -/

/-- A byte string is the beginning of a character that goes on after it. -/
def Opens (b : UInt8) (rest : Bytes) : Prop :=
  fitting (followers b) rest = rest.length ∧ rest.length < (followers b).length

instance (b : UInt8) (rest : Bytes) : Decidable (Opens b rest) :=
  inferInstanceAs (Decidable (_ ∧ _))

/-- A byte continues the beginning of a character exactly if it is in the range that comes next. -/
theorem isPrefix_utf8EncodeChar_concat_iff :
    (∃ c, b :: (rest ++ [m]) <+: String.utf8EncodeChar c) ↔
      Opens b rest ∧ 0 < fitting ((followers b).drop rest.length) [m] := by
  rw [isPrefix_utf8EncodeChar_iff, fitting_append, List.length_append, List.length_singleton]
  have hone : fitting ((followers b).drop rest.length) [m] ≤ 1 := fitting_le_right
  have hrest : fitting (followers b) rest ≤ rest.length := fitting_le_right
  constructor
  · rintro ⟨-, hfit⟩
    split at hfit
    · refine ⟨⟨‹_›, ?_⟩, by omega⟩
      by_contra hle
      rw [List.drop_eq_nil_of_le (Nat.le_of_not_lt hle), fitting_nil_left] at hfit
      omega
    · omega
  · rintro ⟨⟨hfit, hlt⟩, hpos⟩
    refine ⟨?_, by rw [if_pos hfit]; omega⟩
    cases hranges : tails? b with
    | none => rw [followers_eq_nil hranges] at hlt; exact absurd hlt (Nat.not_lt_zero _)
    | some ranges => rfl

theorem fitting_singleton_pos_iff :
    0 < fitting ranges [m] ↔ 0 < fitting ranges (m :: rest) := by
  cases ranges with
  | nil => rfl
  | cons range ranges =>
    rw [fitting, fitting]
    split <;> simp

@[simp]
theorem not_tears_nil : ¬ Tears [] after := by
  rintro ⟨part, -, -, hne, hpart, -, -⟩
  exact hne (List.suffix_nil.mp hpart)

@[simp]
theorem not_tears_nil_right : ¬ Tears before [] := by
  rintro ⟨part, m, c, hne, hpart, hm, hc⟩
  cases hm

/-- The front of a character is the whole of a string, or comes after what is read first. -/
theorem eq_or_isSuffix_of_isPrefix {part : Bytes} {c : Char} (hne : part ≠ [])
    (hpart : part <:+ b :: rest) (hc : part <+: String.utf8EncodeChar c) :
    part = b :: rest ∨ part <:+ rest.drop (extra b rest) := by
  obtain rfl | hrest := List.suffix_cons_iff.mp hpart
  · exact .inl rfl
  have hdrop : rest.drop (extra b rest) <:+ rest := List.drop_suffix _ _
  obtain hin | ⟨lead, rfl⟩ := List.suffix_or_suffix_of_suffix hrest hdrop
  · exact .inr hin
  cases lead with
  | nil => exact .inr (List.suffix_refl _)
  | cons x lead =>
    -- A byte that is read together with the first one would have to start a character.
    have hx : x ∈ rest.take (extra b rest) := by
      obtain ⟨front, hfront⟩ := hrest
      rw [← List.append_assoc] at hfront
      have htake := List.append_cancel_right
        (hfront.trans (List.take_append_drop (extra b rest) rest).symm)
      exact htake ▸ List.mem_append_right _ List.mem_cons_self
    have hstart := (isPrefix_utf8EncodeChar_iff.mp ⟨c, hc⟩).1
    rw [tails?_of_mem_take hx fun _ hr => hr] at hstart
    cases hstart

/-- Where a string is the beginning of a character, the byte after it decides. -/
theorem tears_cons_of_opens (hopens : Opens b rest) :
    Tears (b :: rest) after ↔ 0 < fitting ((followers b).drop rest.length) after := by
  constructor
  · rintro ⟨part, m, c, hne, hpart, hm, hc⟩
    obtain ⟨after, rfl⟩ := List.head?_eq_some_iff.mp hm
    obtain rfl | hin := eq_or_isSuffix_of_isPrefix hne hpart
      ((List.prefix_append part [m]).trans hc)
    · exact fitting_singleton_pos_iff.mp (isPrefix_utf8EncodeChar_concat_iff.mp ⟨c, hc⟩).2
    · rw [extra, hopens.1, List.drop_length] at hin
      exact absurd (List.suffix_nil.mp hin) hne
  · intro hpos
    cases after with
    | nil => rw [fitting_nil_right] at hpos; cases hpos
    | cons m after =>
      obtain ⟨c, hc⟩ := isPrefix_utf8EncodeChar_concat_iff.mpr
        ⟨hopens, fitting_singleton_pos_iff.mpr hpos⟩
      exact ⟨b :: rest, m, c, List.cons_ne_nil _ _, List.suffix_refl _, rfl, hc⟩

/-- Elsewhere a cut is in what follows the bytes that are read first. -/
theorem tears_cons_of_not_opens (hopens : ¬ Opens b rest) :
    Tears (b :: rest) after ↔ Tears (rest.drop (extra b rest)) after := by
  constructor
  · rintro ⟨part, m, c, hne, hpart, hm, hc⟩
    refine ⟨part, m, c, hne, ?_, hm, hc⟩
    obtain rfl | hin := eq_or_isSuffix_of_isPrefix hne hpart
      ((List.prefix_append part [m]).trans hc)
    · exact absurd (isPrefix_utf8EncodeChar_concat_iff.mp ⟨c, hc⟩).1 hopens
    · exact hin
  · rintro ⟨part, m, c, hne, hpart, hm, hc⟩
    exact ⟨part, m, c, hne,
      hpart.trans ((List.drop_suffix _ _).trans (List.suffix_cons _ _)), hm, hc⟩

/-! ### Two strings -/

/-- A string is read the same in front of other bytes, as far as it is not the beginning of a
character at its end. -/
theorem extra_append_of_not_opens (hopens : ¬ Opens b rest) :
    extra b (rest ++ after) = extra b rest := by
  rw [extra, extra, fitting_append]
  split
  · rename_i hfit
    have hle : (followers b).length ≤ rest.length := Nat.le_of_not_lt fun hlt => hopens ⟨hfit, hlt⟩
    rw [List.drop_eq_nil_of_le hle, hfit, fitting_nil_left, Nat.add_zero]
  · rfl

theorem firstChar_append_of_not_opens (hopens : ¬ Opens b rest) :
    firstChar b (rest ++ after) = firstChar b rest := by
  rw [firstChar_eq, firstChar_eq, extra_append_of_not_opens hopens]
  split
  · rename_i hwhole
    rw [List.take_append_of_le_length (hwhole.2 ▸ extra_le)]
  · rfl

/-- The beginning of a character is read as U+FFFD, also in front of bytes that do not end it. -/
theorem firstChar_of_opens (hopens : Opens b rest)
    (hnone : fitting ((followers b).drop rest.length) after = 0) :
    firstChar b (rest ++ after) = replacement := by
  rw [firstChar_eq, if_neg]
  rintro ⟨-, hwhole⟩
  rw [extra, fitting_append, if_pos hopens.1, hnone] at hwhole
  exact hopens.2.ne hwhole

theorem extra_append_of_opens (hopens : Opens b rest) : extra b (rest ++ after) =
    rest.length + fitting ((followers b).drop rest.length) after := by
  rw [extra, fitting_append, if_pos hopens.1]

/-- Bytes that start no character are read as one U+FFFD each. -/
theorem length_chars_of_tails? {n : Nat} (hn : n ≤ rest.length)
    (hnone : ∀ m ∈ rest.take n, tails? m = none) :
    (chars rest).length = n + (chars (rest.drop n)).length := by
  induction n generalizing rest with
  | zero => rw [List.drop_zero, Nat.zero_add]
  | succ n ih =>
    cases rest with
    | nil => cases hn
    | cons m rest =>
      rw [List.take_succ_cons, List.forall_mem_cons] at hnone
      have hextra : extra m rest = 0 := by
        rw [extra, followers_eq_nil hnone.1, fitting_nil_left]
      rw [chars_cons, hextra, List.drop_zero, List.length_cons, List.drop_succ_cons,
        ih (Nat.le_of_succ_le_succ hn) hnone.2, Nat.add_right_comm]

/-- Two strings between which no character is cut are read apart as they are read together. -/
theorem chars_append (h : ¬ Tears before after) :
    chars (before ++ after) = chars before ++ chars after := by
  induction hlength : before.length using Nat.strongRecOn generalizing before with
  | ind n ih =>
    cases before with
    | nil => rfl
    | cons b rest =>
      rw [List.cons_append, chars_cons, chars_cons b rest, List.cons_append]
      by_cases hopens : Opens b rest
      · rw [tears_cons_of_opens hopens, Nat.pos_iff_ne_zero, not_not] at h
        rw [firstChar_of_opens hopens h, extra_append_of_opens hopens, h, Nat.add_zero,
          List.drop_left, extra, hopens.1, List.drop_length, chars_nil, List.nil_append]
        have hself : firstChar b (rest ++ []) = replacement :=
          firstChar_of_opens hopens fitting_nil_right
        rw [← hself, List.append_nil]
      · rw [tears_cons_of_not_opens hopens] at h
        rw [firstChar_append_of_not_opens hopens, extra_append_of_not_opens hopens,
          List.drop_append_of_le_length extra_le,
          ih _ (by rw [← hlength, List.length_cons, List.length_drop]; omega) h rfl]

/-- Two strings between which a character is cut are read together as fewer characters. -/
theorem length_chars_append_lt (h : Tears before after) :
    (chars (before ++ after)).length < (chars before).length + (chars after).length := by
  induction hlength : before.length using Nat.strongRecOn generalizing before with
  | ind n ih =>
    cases before with
    | nil => exact absurd h not_tears_nil
    | cons b rest =>
      rw [List.cons_append, chars_cons, chars_cons b rest, List.length_cons, List.length_cons]
      by_cases hopens : Opens b rest
      · rw [tears_cons_of_opens hopens] at h
        have hnone : ∀ m ∈ after.take (fitting ((followers b).drop rest.length) after),
            tails? m = none :=
          fun m hm => tails?_of_mem_take hm fun _ hr => List.mem_of_mem_drop hr
        have hafter := length_chars_of_tails? fitting_le_right hnone
        rw [extra_append_of_opens hopens, List.drop_length_add_append, extra, hopens.1,
          List.drop_length, chars_nil, List.length_nil]
        omega
      · rw [tears_cons_of_not_opens hopens] at h
        rw [extra_append_of_not_opens hopens, List.drop_append_of_le_length extra_le]
        have hrest := ih _ (by rw [← hlength, List.length_cons, List.length_drop]; omega) h rfl
        omega

/-- A text is not cut off from what comes after it. -/
theorem not_tears_encode (text : String) : ¬ Tears (encode text) after := by
  intro h
  have hlt := length_chars_append_lt h
  rw [chars_encode_append, chars_encode, List.length_append] at hlt
  exact Nat.lt_irrefl _ hlt

/-! ### Any number of strings -/

@[simp]
theorem not_torn_nil : ¬ Torn [] := by
  rintro ⟨before, after, hsplit, htears⟩
  obtain ⟨rfl, rfl⟩ := List.append_eq_nil_iff.mp hsplit.symm
  exact not_tears_nil htears

/-- Between the first of several strings and the others, or between the others. -/
theorem torn_cons {piece : Bytes} {pieces : List Bytes} :
    Torn (piece :: pieces) ↔ Tears piece pieces.flatten ∨ Torn pieces := by
  constructor
  · rintro ⟨before, after, hsplit, htears⟩
    cases before with
    | nil => exact absurd htears not_tears_nil
    | cons first before =>
      rw [List.cons_append, List.cons.injEq] at hsplit
      obtain ⟨rfl, rfl⟩ := hsplit
      obtain ⟨part, m, c, hne, hpart, hm, hc⟩ := htears
      rw [List.flatten_cons] at hpart
      obtain hin | ⟨front, rfl⟩ :=
        List.suffix_or_suffix_of_suffix hpart (List.suffix_append piece before.flatten)
      · exact .inr ⟨before, after, rfl, part, m, c, hne, hin, hm, hc⟩
      obtain ⟨lead, hlead⟩ := hpart
      rw [← List.append_assoc] at hlead
      have hfront : front <:+ piece := ⟨lead, List.append_cancel_right hlead⟩
      cases hrest : before.flatten with
      | nil =>
        rw [hrest, List.append_nil] at hne hc
        exact .inl ⟨front, m, c, hne, hfront, by rwa [List.flatten_append, hrest], hc⟩
      | cons x rest =>
        rw [hrest] at hc
        by_cases hempty : front = []
        · subst hempty
          exact .inr ⟨before, after, rfl, x :: rest, m, c, List.cons_ne_nil _ _,
            hrest ▸ List.suffix_refl _, hm, hc⟩
        · refine .inl ⟨front, x, c, hempty, hfront, ?_, List.IsPrefix.trans ?_ hc⟩
          · rw [List.flatten_append, hrest]
            rfl
          · exact ⟨rest ++ [m], by simp⟩
  · rintro (htears | ⟨before, after, rfl, htears⟩)
    · exact ⟨[piece], pieces, rfl, by rwa [List.flatten_singleton]⟩
    · obtain ⟨part, m, c, hne, hpart, hm, hc⟩ := htears
      exact ⟨piece :: before, after, rfl, part, m, c, hne,
        hpart.trans (List.suffix_append _ _), hm, hc⟩

theorem length_chars_append_le (before after : Bytes) :
    (chars (before ++ after)).length ≤ (chars before).length + (chars after).length := by
  by_cases h : Tears before after
  · exact (length_chars_append_lt h).le
  · rw [chars_append h, List.length_append]

theorem length_chars_flatten_le (pieces : List Bytes) :
    (chars pieces.flatten).length ≤ (pieces.flatMap chars).length := by
  induction pieces with
  | nil => exact Nat.le_refl 0
  | cons piece pieces ih =>
    rw [List.flatten_cons, List.flatMap_cons, List.length_append]
    exact (length_chars_append_le _ _).trans (Nat.add_le_add_left ih _)

theorem length_chars_flatten_lt {pieces : List Bytes} (h : Torn pieces) :
    (chars pieces.flatten).length < (pieces.flatMap chars).length := by
  induction pieces with
  | nil => exact absurd h not_torn_nil
  | cons piece pieces ih =>
    rw [List.flatten_cons, List.flatMap_cons, List.length_append]
    obtain htears | htorn := torn_cons.mp h
    · exact (length_chars_append_lt htears).trans_le
        (Nat.add_le_add_left (length_chars_flatten_le pieces) _)
    · exact (length_chars_append_le _ _).trans_lt (Nat.add_lt_add_left (ih htorn) _)

theorem chars_flatten {pieces : List Bytes} (h : ¬ Torn pieces) :
    chars pieces.flatten = pieces.flatMap chars := by
  induction pieces with
  | nil => rfl
  | cons piece pieces ih =>
    rw [torn_cons, not_or] at h
    rw [List.flatten_cons, List.flatMap_cons, chars_append h.1, ih h.2]

/-- Strings read one by one come to the characters of the string that they make together exactly
if no character is cut between them. -/
theorem chars_flatten_eq_iff (pieces : List Bytes) :
    chars pieces.flatten = pieces.flatMap chars ↔ ¬ Torn pieces := by
  constructor
  · intro h htorn
    have hlt := length_chars_flatten_lt htorn
    rw [h] at hlt
    exact Nat.lt_irrefl _ hlt
  · exact chars_flatten

/-- The texts that strings are read as, one after the other. -/
theorem join_map_decodeLossy (pieces : List Bytes) :
    String.join (pieces.map decodeLossy) = String.ofList (pieces.flatMap chars) := by
  induction pieces with
  | nil => rfl
  | cons piece pieces ih =>
    rw [List.map_cons, String.join_cons, ih, decodeLossy_eq, ← String.ofList_append,
      List.flatMap_cons]

/-- **Strings are read apart as they are read together** exactly if no character is cut between
them. -/
theorem join_map_decodeLossy_eq_iff (pieces : List Bytes) :
    String.join (pieces.map decodeLossy) = decodeLossy pieces.flatten ↔ ¬Torn pieces := by
  rw [join_map_decodeLossy, decodeLossy_eq, String.ofList_inj, eq_comm, chars_flatten_eq_iff]

/-- Texts are not cut, whatever comes after the last of them. -/
theorem not_torn_encode (texts : List String) (last : Bytes) :
    ¬ Torn (texts.map encode ++ [last]) := by
  induction texts with
  | nil =>
    rw [List.map_nil, List.nil_append, torn_cons, not_or]
    exact ⟨not_tears_nil_right, not_torn_nil⟩
  | cons text texts ih =>
    rw [List.map_cons, List.cons_append, torn_cons, not_or]
    exact ⟨not_tears_encode text, ih⟩

end KeyLight.Utf8
