import KeyLight.Text.Utf8
import Mathlib.Data.List.Forall2

/-!
# Characters and their bytes

The first byte of a character sets a range for each of the bytes after it (`tails?`), and these
ranges are all there is to UTF-8: the bytes of characters are exactly the bytes in them
(`inRange_of_utf8EncodeChar`, `utf8EncodeChar_of_inRange`). What a byte string starts with is told
by how many bytes are in the ranges that the first one sets (`head_eq`), so a reader finds a
character at the front exactly if the bytes of the character are there (`head_of_utf8EncodeChar`,
`utf8EncodeChar_of_head`).

* `decode?_eq_some_iff`: the strict reading gives a text exactly on the bytes of the text.
* `chars_cons`, `chars_encode_append`: the lenient reading, character by character.
* `decodeLossy_encode`: it reads every text as it was written.
-/

namespace KeyLight.Utf8

/-! ### The bytes of a character -/

/-- The ranges of the bytes after the first one of a character that starts with `b`; `none` if no
character starts with `b`. -/
def tails? (b : UInt8) : Option (List (Nat × Nat)) :=
  let n := b.toNat
  if n < 128 then some []
  else if n < 194 then none
  else if n < 224 then some [(128, 191)]
  else if n < 240 then
    some [(if n = 224 then 160 else 128, if n = 237 then 159 else 191), (128, 191)]
  else if n < 245 then
    some [(if n = 240 then 144 else 128, if n = 244 then 143 else 191), (128, 191), (128, 191)]
  else none

/-- A byte is in a range. -/
def InRange (range : Nat × Nat) (b : UInt8) : Prop := range.1 ≤ b.toNat ∧ b.toNat ≤ range.2

instance (range : Nat × Nat) (b : UInt8) : Decidable (InRange range b) :=
  inferInstanceAs (Decidable (_ ∧ _))

/-- How many bytes of a string are in the ranges, one after the other. -/
def fitting : List (Nat × Nat) → Bytes → Nat
  | range :: ranges, b :: rest => if InRange range b then fitting ranges rest + 1 else 0
  | _, _ => 0

/-- The number of the character that a first byte and the bytes after it are put together to. -/
def assembled (b : UInt8) (tail : Bytes) : Nat :=
  let first :=
    match tail.length with
    | 0 => b.toNat
    | 1 => b.toNat % 32
    | 2 => b.toNat % 16
    | _ => b.toNat % 8
  tail.foldl (fun n b => n * 64 + tailBits b) first

variable {b : UInt8} {c : Char} {tail rest : Bytes} {ranges : List (Nat × Nat)}

/-- The characters that a byte starts, checked byte by byte. -/
theorem tails?_eq_lead? (b : UInt8) : tails? b =
    (lead? b).map fun (more, least, greatest) =>
      match more with
      | 0 => []
      | more + 1 => (least.toNat, greatest.toNat) :: List.replicate more (128, 191) := by
  have hall : ∀ n < 256, tails? (UInt8.ofNat n) =
      (lead? (UInt8.ofNat n)).map fun (more, least, greatest) =>
        match more with
        | 0 => []
        | more + 1 => (least.toNat, greatest.toNat) :: List.replicate more (128, 191) := by
    decide +kernel
  have hb := hall b.toNat b.toNat_lt
  rwa [UInt8.ofNat_toNat] at hb

/-- A byte continues a character if it is in the range of the bytes after the second one. -/
theorem isTail_eq (b : UInt8) : isTail b = decide (InRange (128, 191) b) := by
  rw [Bool.eq_iff_iff, decide_eq_true_eq, isTail, Bool.and_eq_true, decide_eq_true_eq,
    decide_eq_true_eq, UInt8.le_iff_toNat_le, UInt8.le_iff_toNat_le]
  rfl

theorem tails?_one (h : b.toNat < 128) : tails? b = some [] := if_pos h

theorem tails?_two (h : 194 ≤ b.toNat) (h' : b.toNat < 224) :
    tails? b = some [(128, 191)] := by
  unfold tails?
  simp only
  rw [if_neg (by omega), if_neg (by omega), if_pos h']

theorem tails?_three (h : 224 ≤ b.toNat) (h' : b.toNat < 240) : tails? b = some
    [(if b.toNat = 224 then 160 else 128, if b.toNat = 237 then 159 else 191), (128, 191)] := by
  unfold tails?
  simp only
  rw [if_neg (by omega), if_neg (by omega), if_neg (by omega), if_pos h']

theorem tails?_four (h : 240 ≤ b.toNat) (h' : b.toNat < 245) : tails? b = some
    [(if b.toNat = 240 then 144 else 128, if b.toNat = 244 then 143 else 191), (128, 191),
      (128, 191)] := by
  unfold tails?
  simp only
  rw [if_neg (by omega), if_neg (by omega), if_neg (by omega), if_neg (by omega), if_pos h']

theorem toNat_ofNat {n : Nat} (hn : n.isValidChar) : (Char.ofNat n).toNat = n := by
  rw [Char.ofNat, dif_pos hn]
  rfl

theorem ofNat_eq_iff {n : Nat} (hn : n < 256) : UInt8.ofNat n = b ↔ b.toNat = n := by
  rw [← UInt8.toNat_inj, UInt8.toNat_ofNat', Nat.mod_eq_of_lt hn, eq_comm]

/-- The bytes of a character, by the number of the character alone. -/
theorem utf8EncodeChar_eq (c : Char) : String.utf8EncodeChar c =
    if c.toNat < 128 then [.ofNat c.toNat]
    else if c.toNat < 2048 then [.ofNat (c.toNat / 64 + 192), .ofNat (c.toNat % 64 + 128)]
    else if c.toNat < 65536 then [.ofNat (c.toNat / 4096 + 224), .ofNat (c.toNat / 64 % 64 + 128),
      .ofNat (c.toNat % 64 + 128)]
    else [.ofNat (c.toNat / 262144 + 240), .ofNat (c.toNat / 4096 % 64 + 128),
      .ofNat (c.toNat / 64 % 64 + 128), .ofNat (c.toNat % 64 + 128)] := by
  have hn : c.toNat < 0xD800 ∨ 0xDFFF < c.toNat ∧ c.toNat < 0x110000 := c.valid
  have hval : c.val.toNat = c.toNat := rfl
  simp only [String.utf8EncodeChar, hval, Nat.le_iff_lt_add_one]
  split
  · rfl
  split
  · rw [Nat.mod_eq_of_lt (by omega : c.toNat / 64 < 32)]
  split
  · rw [Nat.mod_eq_of_lt (by omega : c.toNat / 4096 < 16)]
  · rw [Nat.mod_eq_of_lt (by omega : c.toNat / 262144 < 8)]

/-- The bytes of a character are in the ranges that its first byte sets, and the number of the
character is put together of them. -/
theorem inRange_of_utf8EncodeChar (h : String.utf8EncodeChar c = b :: tail) :
    ∃ ranges, tails? b = some ranges ∧ List.Forall₂ InRange ranges tail ∧
      c.toNat = assembled b tail := by
  have hn : c.toNat < 0xD800 ∨ 0xDFFF < c.toNat ∧ c.toNat < 0x110000 := c.valid
  rw [utf8EncodeChar_eq] at h
  split at h
  · simp only [List.cons.injEq] at h
    obtain ⟨hb, rfl⟩ := h
    rw [ofNat_eq_iff (by omega)] at hb
    exact ⟨[], tails?_one (by omega), .nil, hb.symm⟩
  split at h
  · simp only [List.cons.injEq] at h
    obtain ⟨hb, rfl⟩ := h
    rw [ofNat_eq_iff (by omega)] at hb
    refine ⟨_, tails?_two (by omega) (by omega), .cons ?_ .nil, ?_⟩
    · simp only [InRange, UInt8.toNat_ofNat']; omega
    · simp only [assembled, tailBits, List.length_cons, List.length_nil, List.foldl,
        UInt8.toNat_ofNat']
      omega
  split at h
  · simp only [List.cons.injEq] at h
    obtain ⟨hb, rfl⟩ := h
    rw [ofNat_eq_iff (by omega)] at hb
    refine ⟨_, tails?_three (by omega) (by omega), .cons ?_ (.cons ?_ .nil), ?_⟩
    · simp only [InRange, UInt8.toNat_ofNat']; split <;> split <;> omega
    · simp only [InRange, UInt8.toNat_ofNat']; omega
    · simp only [assembled, tailBits, List.length_cons, List.length_nil, List.foldl,
        UInt8.toNat_ofNat']
      omega
  · simp only [List.cons.injEq] at h
    obtain ⟨hb, rfl⟩ := h
    rw [ofNat_eq_iff (by omega)] at hb
    refine ⟨_, tails?_four (by omega) (by omega), .cons ?_ (.cons ?_ (.cons ?_ .nil)), ?_⟩
    · simp only [InRange, UInt8.toNat_ofNat']; split <;> split <;> omega
    · simp only [InRange, UInt8.toNat_ofNat']; omega
    · simp only [InRange, UInt8.toNat_ofNat']; omega
    · simp only [assembled, tailBits, List.length_cons, List.length_nil, List.foldl,
        UInt8.toNat_ofNat']
      omega

/-- A bound from below that is higher at one number. -/
theorem least_of_ite_le {n k high low m : Nat} (hle : low ≤ high)
    (h : (if n = k then high else low) ≤ m) : low ≤ m ∧ (n = k → high ≤ m) := by
  split at h
  · exact ⟨Nat.le_trans hle h, fun _ => h⟩
  · exact ⟨h, fun hn => absurd hn ‹_›⟩

/-- A bound from above that is lower at one number. -/
theorem greatest_of_le_ite {n k high low m : Nat} (hle : low ≤ high)
    (h : m ≤ (if n = k then low else high)) : m ≤ high ∧ (n = k → m ≤ low) := by
  split at h
  · exact ⟨Nat.le_trans h hle, fun _ => h⟩
  · exact ⟨h, fun hn => absurd hn ‹_›⟩

theorem utf8EncodeChar_assembled_one (hb : b.toNat < 128) :
    String.utf8EncodeChar (Char.ofNat (assembled b [])) = [b] := by
  simp only [assembled, List.foldl, List.length_nil]
  have hn : b.toNat.isValidChar := by simp only [Nat.isValidChar]; omega
  rw [utf8EncodeChar_eq, toNat_ofNat hn, if_pos hb, UInt8.ofNat_toNat]

theorem utf8EncodeChar_assembled_two {b₁ : UInt8} (hb : 194 ≤ b.toNat) (hb' : b.toNat < 224)
    (h₁ : InRange (128, 191) b₁) :
    String.utf8EncodeChar (Char.ofNat (assembled b [b₁])) = [b, b₁] := by
  simp only [InRange] at h₁
  simp only [assembled, List.foldl, List.length_nil, List.length_cons, tailBits]
  have hn : (b.toNat % 32 * 64 + b₁.toNat % 64).isValidChar := by
    simp only [Nat.isValidChar]; omega
  rw [utf8EncodeChar_eq, toNat_ofNat hn, if_neg (by omega), if_pos (by omega)]
  simp only [List.cons.injEq, and_true]
  exact ⟨(ofNat_eq_iff (by omega)).mpr (by omega), (ofNat_eq_iff (by omega)).mpr (by omega)⟩

/-- The ranges leave out the characters that fewer bytes would do for, and the surrogates. -/
theorem utf8EncodeChar_assembled_three {b₁ b₂ : UInt8} (hb : 224 ≤ b.toNat) (hb' : b.toNat < 240)
    (h₁ : InRange (128, 191) b₁) (hshort : b.toNat = 224 → 160 ≤ b₁.toNat)
    (hsurrogate : b.toNat = 237 → b₁.toNat ≤ 159) (h₂ : InRange (128, 191) b₂) :
    String.utf8EncodeChar (Char.ofNat (assembled b [b₁, b₂])) = [b, b₁, b₂] := by
  simp only [InRange] at h₁ h₂
  simp only [assembled, List.foldl, List.length_nil, List.length_cons, tailBits]
  have hn : ((b.toNat % 16 * 64 + b₁.toNat % 64) * 64 + b₂.toNat % 64).isValidChar := by
    simp only [Nat.isValidChar]; omega
  rw [utf8EncodeChar_eq, toNat_ofNat hn, if_neg (by omega), if_neg (by omega), if_pos (by omega)]
  simp only [List.cons.injEq, and_true]
  exact ⟨(ofNat_eq_iff (by omega)).mpr (by omega), (ofNat_eq_iff (by omega)).mpr (by omega),
    (ofNat_eq_iff (by omega)).mpr (by omega)⟩

/-- The ranges leave out the characters that fewer bytes would do for, and what is beyond the last
character. -/
theorem utf8EncodeChar_assembled_four {b₁ b₂ b₃ : UInt8} (hb : 240 ≤ b.toNat)
    (hb' : b.toNat < 245) (h₁ : InRange (128, 191) b₁) (hshort : b.toNat = 240 → 144 ≤ b₁.toNat)
    (hbeyond : b.toNat = 244 → b₁.toNat ≤ 143) (h₂ : InRange (128, 191) b₂)
    (h₃ : InRange (128, 191) b₃) :
    String.utf8EncodeChar (Char.ofNat (assembled b [b₁, b₂, b₃])) = [b, b₁, b₂, b₃] := by
  simp only [InRange] at h₁ h₂ h₃
  simp only [assembled, List.foldl, List.length_nil, List.length_cons, tailBits]
  have hn : (((b.toNat % 8 * 64 + b₁.toNat % 64) * 64 + b₂.toNat % 64) * 64 +
      b₃.toNat % 64).isValidChar := by
    simp only [Nat.isValidChar]; omega
  rw [utf8EncodeChar_eq, toNat_ofNat hn, if_neg (by omega), if_neg (by omega), if_neg (by omega)]
  simp only [List.cons.injEq, and_true]
  exact ⟨(ofNat_eq_iff (by omega)).mpr (by omega), (ofNat_eq_iff (by omega)).mpr (by omega),
    (ofNat_eq_iff (by omega)).mpr (by omega), (ofNat_eq_iff (by omega)).mpr (by omega)⟩

/-- Bytes in the ranges are the bytes of the character that they are put together to. -/
theorem utf8EncodeChar_of_inRange (hranges : tails? b = some ranges)
    (htail : List.Forall₂ InRange ranges tail) :
    String.utf8EncodeChar (Char.ofNat (assembled b tail)) = b :: tail := by
  unfold tails? at hranges
  simp only at hranges
  split at hranges
  · obtain rfl := Option.some.inj hranges
    cases htail
    exact utf8EncodeChar_assembled_one ‹_›
  split at hranges
  · cases hranges
  split at hranges
  · obtain rfl := Option.some.inj hranges
    obtain _ | ⟨h₁, _ | _⟩ := htail
    exact utf8EncodeChar_assembled_two (by omega) ‹_› h₁
  split at hranges
  · obtain rfl := Option.some.inj hranges
    obtain _ | ⟨⟨h₁, h₁'⟩, _ | ⟨h₂, _ | _⟩⟩ := htail
    obtain ⟨hleast, hshort⟩ := least_of_ite_le (by decide) h₁
    obtain ⟨hgreatest, hsurrogate⟩ := greatest_of_le_ite (by decide) h₁'
    exact utf8EncodeChar_assembled_three (by omega) ‹_› ⟨hleast, hgreatest⟩ hshort hsurrogate h₂
  split at hranges
  · obtain rfl := Option.some.inj hranges
    obtain _ | ⟨⟨h₁, h₁'⟩, _ | ⟨h₂, _ | ⟨h₃, _ | _⟩⟩⟩ := htail
    obtain ⟨hleast, hshort⟩ := least_of_ite_le (by decide) h₁
    obtain ⟨hgreatest, hbeyond⟩ := greatest_of_le_ite (by decide) h₁'
    exact utf8EncodeChar_assembled_four (by omega) ‹_› ⟨hleast, hgreatest⟩ hshort hbeyond h₂ h₃
  · cases hranges

/-! ### The front of a byte string -/

@[simp]
theorem fitting_nil_left : fitting [] rest = 0 := by rw [fitting]; simp

@[simp]
theorem fitting_nil_right : fitting ranges [] = 0 := by rw [fitting]; simp

theorem fitting_le_right : fitting ranges rest ≤ rest.length := by
  induction ranges generalizing rest with
  | nil => exact Nat.zero_le _
  | cons range ranges ih =>
    cases rest with
    | nil => exact Nat.zero_le _
    | cons b rest =>
      rw [fitting]
      split
      · exact Nat.succ_le_succ ih
      · exact Nat.zero_le _

/-- What is at the front of a byte string depends on how many of the bytes after the first one are
in the ranges that the first one sets. -/
theorem head_eq (b : UInt8) (rest : Bytes) : head b rest =
    match tails? b with
    | none => .invalid 1
    | some ranges =>
      if fitting ranges rest = ranges.length then
        .char (Char.ofNat (assembled b (rest.take ranges.length))) (ranges.length + 1)
      else if fitting ranges rest = rest.length then .truncated
      else .invalid (fitting ranges rest + 1) := by
  have hmore : ∀ {more least greatest}, lead? b = some (more, least, greatest) → more ≤ 3 := by
    intro more least greatest h
    unfold lead? at h
    grind
  have htail : isTail = fun b => decide (InRange (128, 191) b) := funext isTail_eq
  have hfirst : ∀ least greatest b : UInt8, (decide (b < least) || decide (greatest < b)) =
      !decide (InRange (least.toNat, greatest.toNat) b) := by
    intro least greatest b
    simp [InRange, UInt8.lt_iff_toNat_lt]
    grind
  rw [tails?_eq_lead?, head]
  cases hlead : lead? b with
  | none => rfl
  | some lead =>
    obtain ⟨more, least, greatest⟩ := lead
    have hle := hmore hlead
    -- how many bytes the first one sets ranges for, by how many are there
    rcases more with _ | _ | _ | _ | more
    all_goals
      rcases rest with _ | ⟨b₁, _ | ⟨b₂, _ | ⟨b₃, rest⟩⟩⟩ <;>
        simp [fitting, assembled, hfirst, htail, List.replicate] <;> grind

/-- The ranges go through the first of two strings before they come to the second. -/
theorem fitting_append (before after : Bytes) : fitting ranges (before ++ after) =
    if fitting ranges before = before.length then
      before.length + fitting (ranges.drop before.length) after
    else fitting ranges before := by
  induction ranges generalizing before with
  | nil => cases before <;> simp [fitting]
  | cons range ranges ih =>
    cases before with
    | nil => simp [fitting]
    | cons b before =>
      simp only [List.cons_append, fitting, ih, List.length_cons, List.drop_succ_cons]
      split <;> grind

theorem fitting_of_forall₂ (h : List.Forall₂ InRange ranges tail) :
    fitting ranges (tail ++ rest) = ranges.length := by
  induction h with
  | nil => cases rest <;> rfl
  | cons hb _ ih => rw [List.cons_append, fitting, if_pos hb, ih, List.length_cons]

theorem forall₂_of_fitting (h : fitting ranges rest = ranges.length) :
    List.Forall₂ InRange ranges (rest.take ranges.length) := by
  induction ranges generalizing rest with
  | nil => exact .nil
  | cons range ranges ih =>
    cases rest with
    | nil => cases h
    | cons b rest =>
      rw [fitting] at h
      split at h
      · exact .cons ‹_› (ih (Nat.succ.inj h))
      · cases h

/-- A character is found at the front of a string that starts with its bytes. -/
theorem head_of_utf8EncodeChar (h : String.utf8EncodeChar c = b :: tail) (rest : Bytes) :
    head b (tail ++ rest) = .char c (tail.length + 1) := by
  obtain ⟨ranges, hranges, hfit, hnumber⟩ := inRange_of_utf8EncodeChar h
  rw [head_eq, hranges]
  simp only
  rw [if_pos (fitting_of_forall₂ hfit), hfit.length_eq, List.take_left, ← hnumber,
    Char.ofNat_toNat]

/-- A string starts with the bytes of the character found at its front. -/
theorem utf8EncodeChar_of_head {size : Nat} (h : head b rest = .char c size) :
    String.utf8EncodeChar c = b :: rest.take (size - 1) ∧ 0 < size ∧ size - 1 ≤ rest.length := by
  rw [head_eq] at h
  cases hranges : tails? b with
  | none => rw [hranges] at h; cases h
  | some ranges =>
    rw [hranges] at h
    simp only at h
    split at h
    · rename_i hfit
      obtain ⟨rfl, rfl⟩ := Head.char.inj h
      exact ⟨utf8EncodeChar_of_inRange hranges (forall₂_of_fitting hfit), Nat.succ_pos _,
        hfit ▸ fitting_le_right⟩
    · split at h <;> cases h

/-! ### Texts -/

theorem exists_utf8EncodeChar_eq_cons (c : Char) :
    ∃ b tail, String.utf8EncodeChar c = b :: tail := by
  cases h : String.utf8EncodeChar c with
  | nil => exact absurd h String.utf8EncodeChar_ne_nil
  | cons b tail => exact ⟨b, tail, rfl⟩

/-- The strict reading finds the characters whose bytes it is given. -/
theorem decodeFrom_flatMap {fuel index : Nat} {cs : List Char}
    (hfuel : (cs.flatMap String.utf8EncodeChar).length ≤ fuel) :
    decodeFrom fuel index (cs.flatMap String.utf8EncodeChar) = .ok cs := by
  induction cs generalizing fuel index with
  | nil => cases fuel <;> rfl
  | cons c cs ih =>
    obtain ⟨b, tail, hc⟩ := exists_utf8EncodeChar_eq_cons c
    rw [List.flatMap_cons, hc, List.cons_append] at hfuel ⊢
    cases fuel with
    | zero => cases hfuel
    | succ fuel =>
      simp only [List.length_cons, List.length_append] at hfuel
      rw [decodeFrom, head_of_utf8EncodeChar hc]
      simp only [Nat.add_sub_cancel, List.drop_left]
      rw [ih (by omega)]

/-- What the strict reading finds is what the bytes are the bytes of. -/
theorem flatMap_of_decodeFrom {fuel index : Nat} {bytes : Bytes} {cs : List Char}
    (hfuel : bytes.length ≤ fuel) (h : decodeFrom fuel index bytes = .ok cs) :
    bytes = cs.flatMap String.utf8EncodeChar := by
  induction fuel generalizing index bytes cs with
  | zero =>
    obtain rfl := List.eq_nil_of_length_eq_zero (Nat.le_zero.mp hfuel)
    cases h
    rfl
  | succ fuel ih =>
    cases bytes with
    | nil => cases h; rfl
    | cons b rest =>
      rw [decodeFrom] at h
      split at h
      · rename_i c size hhead
        split at h
        · rename_i cs' hrest
          cases h
          obtain ⟨hc, -, hsize⟩ := utf8EncodeChar_of_head hhead
          rw [List.length_cons] at hfuel
          have htail := ih (by rw [List.length_drop]; omega) hrest
          rw [List.flatMap_cons, hc, ← htail, List.cons_append, List.take_append_drop]
        · cases h
      · cases h
      · cases h

/-- The strict reading gives a text exactly on the bytes of the text. -/
theorem decode?_eq_some_iff {bytes : Bytes} {text : String} :
    decode? bytes = some text ↔ bytes = encode text := by
  rw [decode?, decode]
  constructor
  · intro h
    cases hread : decodeFrom bytes.length 0 bytes with
    | error e => rw [hread] at h; cases h
    | ok cs =>
      rw [hread] at h
      obtain rfl : String.ofList cs = text := Option.some.inj h
      rw [encode, String.toList_ofList]
      exact flatMap_of_decodeFrom (Nat.le_refl _) hread
  · rintro rfl
    rw [encode, decodeFrom_flatMap (Nat.le_refl _)]
    exact congrArg some String.ofList_toList

/-! ### The lenient reading -/

/-- The characters that a byte string is read as. -/
def chars (bytes : Bytes) : List Char := decodeLossyFrom bytes.length bytes

/-- The ranges that a byte sets for those after it. -/
def followers (b : UInt8) : List (Nat × Nat) := (tails? b).getD []

/-- How many bytes after the first one are read together with it. -/
def extra (b : UInt8) (rest : Bytes) : Nat := fitting (followers b) rest

/-- The character that the front of a byte string is read as. -/
def firstChar (b : UInt8) (rest : Bytes) : Char :=
  match head b rest with
  | .char c _ => c
  | _ => replacement

theorem followers_eq (hranges : tails? b = some ranges) : followers b = ranges := by
  rw [followers, hranges, Option.getD_some]

theorem followers_eq_nil (hnone : tails? b = none) : followers b = [] := by
  rw [followers, hnone, Option.getD_none]

theorem extra_le : extra b rest ≤ rest.length := fitting_le_right

theorem firstChar_eq (b : UInt8) (rest : Bytes) : firstChar b rest =
    if (tails? b).isSome ∧ extra b rest = (followers b).length then
      Char.ofNat (assembled b (rest.take (followers b).length))
    else replacement := by
  rw [firstChar, extra, head_eq]
  cases hranges : tails? b with
  | none => simp
  | some ranges =>
    rw [followers_eq hranges]
    simp only [Option.isSome_some, true_and]
    by_cases hwhole : fitting ranges rest = ranges.length
    · simp only [if_pos hwhole]
    by_cases hopen : fitting ranges rest = rest.length
    · simp only [if_neg hwhole, if_pos hopen]
    · simp only [if_neg hwhole, if_neg hopen]

/-- One character is put for the front of a string, whatever is there. -/
theorem decodeLossyFrom_cons (fuel : Nat) (b : UInt8) (rest : Bytes) :
    decodeLossyFrom (fuel + 1) (b :: rest) =
      firstChar b rest :: decodeLossyFrom fuel (rest.drop (extra b rest)) := by
  rw [decodeLossyFrom, firstChar, extra, head_eq]
  cases hranges : tails? b with
  | none => rw [followers_eq_nil hranges]; cases rest <;> rfl
  | some ranges =>
    rw [followers_eq hranges]
    by_cases hwhole : fitting ranges rest = ranges.length
    · simp only [hwhole, if_true, Nat.add_sub_cancel]
    by_cases hopen : fitting ranges rest = rest.length
    · simp only [if_neg hwhole, if_pos hopen]
      rw [hopen, List.drop_length]
      cases fuel <;> rfl
    · simp only [if_neg hwhole, if_neg hopen, Nat.add_sub_cancel]

theorem decodeLossyFrom_of_le {fuel : Nat} {bytes : Bytes} (hfuel : bytes.length ≤ fuel) :
    decodeLossyFrom fuel bytes = chars bytes := by
  induction fuel using Nat.strongRecOn generalizing bytes with
  | ind fuel ih =>
    cases bytes with
    | nil => cases fuel <;> rfl
    | cons b rest =>
      rw [List.length_cons] at hfuel
      have hdrop : (rest.drop (extra b rest)).length ≤ rest.length := by
        rw [List.length_drop]
        exact Nat.sub_le _ _
      cases fuel with
      | zero => exact absurd hfuel (Nat.not_succ_le_zero _)
      | succ fuel =>
        rw [chars, List.length_cons, decodeLossyFrom_cons, decodeLossyFrom_cons,
          ih fuel (Nat.lt_succ_self _) (by omega), ih rest.length (by omega) hdrop]

@[simp]
theorem chars_nil : chars [] = [] := rfl

theorem chars_cons (b : UInt8) (rest : Bytes) :
    chars (b :: rest) = firstChar b rest :: chars (rest.drop (extra b rest)) := by
  rw [chars, List.length_cons, decodeLossyFrom_cons, decodeLossyFrom_of_le]
  rw [List.length_drop]
  exact Nat.sub_le _ _

theorem decodeLossy_eq (bytes : Bytes) : decodeLossy bytes = String.ofList (chars bytes) := rfl

theorem chars_utf8EncodeChar_append (c : Char) (rest : Bytes) :
    chars (String.utf8EncodeChar c ++ rest) = c :: chars rest := by
  obtain ⟨b, tail, hc⟩ := exists_utf8EncodeChar_eq_cons c
  obtain ⟨ranges, hranges, hfit, -⟩ := inRange_of_utf8EncodeChar hc
  have hextra : extra b (tail ++ rest) = tail.length := by
    rw [extra, followers_eq hranges, fitting_of_forall₂ hfit, hfit.length_eq]
  rw [hc, List.cons_append, chars_cons, firstChar, head_of_utf8EncodeChar hc, hextra,
    List.drop_left]

/-- A text in front of other bytes is read as it was written. -/
theorem chars_encode_append (text : String) (rest : Bytes) :
    chars (encode text ++ rest) = text.toList ++ chars rest := by
  rw [encode]
  induction text.toList with
  | nil => rfl
  | cons c cs ih =>
    rw [List.flatMap_cons, List.append_assoc, chars_utf8EncodeChar_append, ih, List.cons_append]

theorem chars_encode (text : String) : chars (encode text) = text.toList := by
  simpa using chars_encode_append text []

/-- Every text is read as it was written. -/
theorem decodeLossy_encode (text : String) : decodeLossy (encode text) = text := by
  rw [decodeLossy_eq, chars_encode, String.ofList_toList]

/-- Different texts have different bytes. -/
theorem encode_injective {a b : String} (h : encode a = encode b) : a = b := by
  rw [← decodeLossy_encode a, h, decodeLossy_encode]

end KeyLight.Utf8
