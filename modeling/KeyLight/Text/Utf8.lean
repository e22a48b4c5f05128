/-!
# Byte strings and the text they hold

Scripts handle byte strings; hosts handle text. A byte string is read as UTF-8 in two ways. The
strict reading `decode` succeeds exactly on well-formed sequences and otherwise says where the first
ill-formed one starts and how long it is. The lenient reading `decodeLossy` never fails: it puts
U+FFFD for every ill-formed sequence, where a sequence is as long as it could still have become a
character.
-/

namespace KeyLight

/-- A byte string. -/
abbrev Bytes := List UInt8

namespace Utf8

/-- What a nonempty byte string starts with. -/
inductive Head
  /-- A character, written with `size` bytes. -/
  | char (c : Char) (size : Nat)
  /-- `size` bytes that no character starts with. -/
  | invalid (size : Nat)
  /-- The beginning of a character whose end is missing, to the end of the string. -/
  | truncated
  deriving Repr, DecidableEq

/-- Whether a byte continues a character. -/
def isTail (b : UInt8) : Bool := 0x80 ≤ b && b ≤ 0xBF

/-- The number of bytes after the first one of a character that starts with `b`, with the least and
the greatest second byte; `none` if no character starts with `b`. -/
def lead? (b : UInt8) : Option (Nat × UInt8 × UInt8) :=
  if b < 0x80 then some (0, 0, 0)
  else if b < 0xC2 then none
  else if b < 0xE0 then some (1, 0x80, 0xBF)
  else if b = 0xE0 then some (2, 0xA0, 0xBF)
  else if b = 0xED then some (2, 0x80, 0x9F)
  else if b < 0xF0 then some (2, 0x80, 0xBF)
  else if b = 0xF0 then some (3, 0x90, 0xBF)
  else if b < 0xF4 then some (3, 0x80, 0xBF)
  else if b = 0xF4 then some (3, 0x80, 0x8F)
  else none

/-- The six low bits that a continuing byte adds. -/
def tailBits (b : UInt8) : Nat := b.toNat % 64

/-- The character at the front of the bytes `b :: rest`. -/
def head (b : UInt8) (rest : Bytes) : Head :=
  match lead? b with
  | none => .invalid 1
  | some (0, _, _) => .char (Char.ofNat b.toNat) 1
  | some (more, least, greatest) =>
    match rest with
    | [] => .truncated
    | b₁ :: rest =>
      if b₁ < least || greatest < b₁ then .invalid 1
      else if more = 1 then .char (Char.ofNat (b.toNat % 32 * 64 + tailBits b₁)) 2
      else
        match rest with
        | [] => .truncated
        | b₂ :: rest =>
          if !isTail b₂ then .invalid 2
          else if more = 2 then
            .char (Char.ofNat ((b.toNat % 16 * 64 + tailBits b₁) * 64 + tailBits b₂)) 3
          else
            match rest with
            | [] => .truncated
            | b₃ :: _ =>
              if !isTail b₃ then .invalid 3
              else .char (Char.ofNat
                (((b.toNat % 8 * 64 + tailBits b₁) * 64 + tailBits b₂) * 64 + tailBits b₃)) 4

/-- The character put for a sequence that is none. -/
def replacement : Char := Char.ofNat 0xFFFD

/-- The lenient reading of at most `fuel` characters. -/
def decodeLossyFrom : Nat → Bytes → List Char
  | 0, _ => []
  | _, [] => []
  | fuel + 1, b :: rest =>
    match head b rest with
    | .char c size => c :: decodeLossyFrom fuel (rest.drop (size - 1))
    | .invalid size => replacement :: decodeLossyFrom fuel (rest.drop (size - 1))
    | .truncated => [replacement]

/-- The text of a byte string, with U+FFFD for every sequence that is no character. -/
def decodeLossy (bytes : Bytes) : String := String.ofList (decodeLossyFrom bytes.length bytes)

/-- Where a byte string stops being UTF-8. -/
structure Malformed where
  /-- The bytes before it are well formed. -/
  index : Nat
  /-- The length of the ill-formed sequence; `none` if the string ends inside a character. -/
  size : Option Nat
  deriving Repr, DecidableEq

/-- The strict reading of at most `fuel` characters, the first of them at `index`. -/
def decodeFrom : Nat → Nat → Bytes → Except Malformed (List Char)
  | 0, _, _ => .ok []
  | _, _, [] => .ok []
  | fuel + 1, index, b :: rest =>
    match head b rest with
    | .char c size =>
      match decodeFrom fuel (index + size) (rest.drop (size - 1)) with
      | .ok cs => .ok (c :: cs)
      | .error e => .error e
    | .invalid size => .error ⟨index, some size⟩
    | .truncated => .error ⟨index, none⟩

/-- The text of a byte string that is UTF-8. -/
def decode (bytes : Bytes) : Except Malformed String :=
  match decodeFrom bytes.length 0 bytes with
  | .ok cs => .ok (String.ofList cs)
  | .error e => .error e

/-- The text of a byte string, if it is UTF-8. -/
def decode? (bytes : Bytes) : Option String := (decode bytes).toOption

/-- The bytes of a text. -/
def encode (text : String) : Bytes := text.toList.flatMap String.utf8EncodeChar

/-- What is said of a byte string that is not UTF-8. -/
def Malformed.message (e : Malformed) : String :=
  match e.size with
  | some size =>
    "invalid utf-8 sequence of " ++ toString size ++ " bytes from index " ++ toString e.index
  | none => "incomplete utf-8 byte sequence from index " ++ toString e.index

/-! ### Characters of one byte -/

/-- All characters are one byte long. -/
def IsAscii (cs : List Char) : Prop := ∀ c ∈ cs, c.utf8Size = 1

theorem toNat_le_of_ascii {c : Char} (hc : c.utf8Size = 1) : c.toNat ≤ 127 :=
  UInt32.le_iff_toNat_le.mp (Char.utf8Size_eq_one_iff.mp hc)

theorem ascii_of_toNat_le {c : Char} (hc : c.toNat ≤ 127) : c.utf8Size = 1 :=
  Char.utf8Size_eq_one_iff.mpr (UInt32.le_iff_toNat_le.mpr hc)

/-- The byte of a character stands for it. -/
theorem ofNat_toUInt8_of_ascii {c : Char} (hc : c.utf8Size = 1) :
    Char.ofNat c.val.toUInt8.toNat = c := by
  have hbyte : c.val.toUInt8.toNat = c.toNat := by
    rw [UInt32.toNat_toUInt8]
    exact Nat.mod_eq_of_lt (Nat.lt_of_le_of_lt (toNat_le_of_ascii hc) (by decide))
  rw [hbyte, Char.ofNat_toNat]

/-- A byte is the number of the character that it stands for. -/
theorem toNat_ofNat_toNat (b : UInt8) : (Char.ofNat b.toNat).toNat = b.toNat := by
  have hlt := b.toNat_lt
  rw [Char.ofNat, dif_pos (.inl (by omega))]
  rfl

/-- All bytes of a character that is longer than one are outside ASCII. -/
theorem le_of_mem_utf8EncodeChar {c : Char} (hc : c.utf8Size ≠ 1) {b : UInt8}
    (hb : b ∈ String.utf8EncodeChar c) : 128 ≤ b.toNat := by
  have hlt : ¬ c.val.toNat ≤ 127 := fun hle => hc (ascii_of_toNat_le hle)
  unfold String.utf8EncodeChar at hb
  simp only [if_neg hlt] at hb
  split at hb
  · simp only [List.mem_cons, List.not_mem_nil, or_false] at hb
    rcases hb with rfl | rfl <;> rw [UInt8.toNat_ofNat'] <;> omega
  split at hb
  · simp only [List.mem_cons, List.not_mem_nil, or_false] at hb
    rcases hb with rfl | rfl | rfl <;> rw [UInt8.toNat_ofNat'] <;> omega
  · simp only [List.mem_cons, List.not_mem_nil, or_false] at hb
    rcases hb with rfl | rfl | rfl | rfl <;> rw [UInt8.toNat_ofNat'] <;> omega

end Utf8

end KeyLight
