import KeyLight.Color.Rgb

/-!
# The grammar of colour literals

`ColorLiteral.Writes` is the grammar: three, six or eight hexadecimal digits and the channels that
they write, in numbers and not in bytes. The main statement says that the two ways to read a literal
accept just what the grammar allows, once the text is stripped of the blank characters around it and
of one number sign (`Strips`), and that they give the channels it writes.
-/

namespace KeyLight

/-! ### Hexadecimal digits -/

/-- A hexadecimal digit, in either case, and its value. -/
inductive HexDigit : Char → Nat → Prop
  | decimal {d : Nat} (h : d < 10) : HexDigit (Char.ofNat ('0'.toNat + d)) d
  | lower {d : Nat} (h : d < 6) : HexDigit (Char.ofNat ('a'.toNat + d)) (10 + d)
  | upper {d : Nat} (h : d < 6) : HexDigit (Char.ofNat ('A'.toNat + d)) (10 + d)

theorem HexDigit.lt {c : Char} {d : Nat} (h : HexDigit c d) : d < 16 := by
  cases h <;> omega

theorem HexDigit.digitValue? {c : Char} {d : Nat} (h : HexDigit c d) :
    digitValue? 16 c = some d := by
  have decimals : ∀ d < 10, KeyLight.digitValue? 16 (Char.ofNat ('0'.toNat + d)) = some d := by
    decide
  have lowers : ∀ d < 6, KeyLight.digitValue? 16 (Char.ofNat ('a'.toNat + d)) = some (10 + d) := by
    decide
  have uppers : ∀ d < 6, KeyLight.digitValue? 16 (Char.ofNat ('A'.toNat + d)) = some (10 + d) := by
    decide
  cases h with
  | decimal h => exact decimals _ h
  | lower h => exact lowers _ h
  | upper h => exact uppers _ h

theorem hexDigit_of_digitValue? {c : Char} {d : Nat} (h : digitValue? 16 c = some d) :
    HexDigit c d := by
  obtain ⟨hsome, -⟩ := Option.filter_eq_some_iff.mp h
  have hchar {n : Nat} (hn : c.toNat = n) : c = Char.ofNat n := by rw [← hn, Char.ofNat_toNat]
  split at hsome
  · have hvalue := Option.some.inj hsome
    rw [hchar (n := '0'.toNat + d) (by change _ = 48 + d; omega)]
    exact .decimal (by omega)
  split at hsome
  · have hvalue := Option.some.inj hsome
    obtain ⟨d, rfl⟩ : ∃ e, d = 10 + e := ⟨d - 10, by omega⟩
    rw [hchar (n := 'a'.toNat + d) (by change _ = 97 + d; omega)]
    exact .lower (by omega)
  split at hsome
  · have hvalue := Option.some.inj hsome
    obtain ⟨d, rfl⟩ : ∃ e, d = 10 + e := ⟨d - 10, by omega⟩
    rw [hchar (n := 'A'.toNat + d) (by change _ = 65 + d; omega)]
    exact .upper (by omega)
  · cases hsome

theorem isDigitIn_iff {c : Char} : isDigitIn 16 c = true ↔ ∃ d, HexDigit c d := by
  rw [isDigitIn, Option.isSome_iff_exists]
  exact exists_congr fun d => ⟨hexDigit_of_digitValue?, HexDigit.digitValue?⟩

/-! ### Numbers of one or two digits -/

/-- Digits are read as the number that they write, if it is small enough. -/
theorem readByte?_of_digits {cs : List Char} (hne : cs ≠ [])
    (hdigits : ∀ c ∈ cs, ∃ d, HexDigit c d) (hlt : ofDigits 16 cs < 256) :
    readByte? 16 cs = some (UInt8.ofNat (ofDigits 16 cs)) := by
  have hall : cs.all (isDigitIn 16) = true :=
    List.all_eq_true.mpr fun c hc => isDigitIn_iff.mpr (hdigits c hc)
  have hsame : dropPlus cs = cs := by
    unfold dropPlus
    split
    · -- a plus sign is no digit
      obtain ⟨d, hd⟩ := hdigits '+' List.mem_cons_self
      cases hd.digitValue?
    · rfl
  unfold readByte?
  rw [hsame]
  exact if_pos ⟨hne, hall, hlt⟩

theorem readByte?_single {c : Char} {x : Nat} (hc : HexDigit c x) :
    readByte? 16 [c] = some (UInt8.ofNat x) := by
  have hvalue : ofDigits 16 [c] = x := by
    simp [ofDigits, hc.digitValue?]
  have hlt := hc.lt
  have hdigits : ∀ d ∈ [c], ∃ x, HexDigit d x := List.forall_mem_singleton.mpr ⟨x, hc⟩
  rw [readByte?_of_digits (List.cons_ne_nil _ _) hdigits (by omega), hvalue]

theorem readByte?_pair {a b : Char} {x y : Nat} (ha : HexDigit a x) (hb : HexDigit b y) :
    readByte? 16 [a, b] = some (UInt8.ofNat (16 * x + y)) := by
  have hvalue : ofDigits 16 [a, b] = 16 * x + y := by
    simp [ofDigits, ha.digitValue?, hb.digitValue?, Nat.mul_comm]
  have hx := ha.lt
  have hy := hb.lt
  have hdigits : ∀ d ∈ [a, b], ∃ x, HexDigit d x :=
    List.forall_mem_cons.mpr ⟨⟨x, ha⟩, List.forall_mem_singleton.mpr ⟨y, hb⟩⟩
  rw [readByte?_of_digits (List.cons_ne_nil _ _) hdigits (by omega), hvalue]

namespace ColorLiteral

/-! ### The grammar -/

/-- One digit writes a channel of two equal digits. -/
def WritesNibble (c : Char) (n : UInt8) : Prop := ∃ x, HexDigit c x ∧ n.toNat = 17 * x

/-- Two digits write a channel. -/
def WritesByte (high low : Char) (n : UInt8) : Prop :=
  ∃ x y, HexDigit high x ∧ HexDigit low y ∧ n.toNat = 16 * x + y

/-- The digits of a literal write the channels of a colour, and perhaps an opacity. -/
inductive Writes : List Char → Rgb → Option UInt8 → Prop
  | short {r g b : Char} {c : Rgb} (hr : WritesNibble r c.red) (hg : WritesNibble g c.green)
      (hb : WritesNibble b c.blue) : Writes [r, g, b] c none
  | long {r₁ r₀ g₁ g₀ b₁ b₀ : Char} {c : Rgb} (hr : WritesByte r₁ r₀ c.red)
      (hg : WritesByte g₁ g₀ c.green) (hb : WritesByte b₁ b₀ c.blue) :
      Writes [r₁, r₀, g₁, g₀, b₁, b₀] c none
  | withAlpha {r₁ r₀ g₁ g₀ b₁ b₀ a₁ a₀ : Char} {c : Rgb} {alpha : UInt8}
      (hr : WritesByte r₁ r₀ c.red) (hg : WritesByte g₁ g₀ c.green)
      (hb : WritesByte b₁ b₀ c.blue) (ha : WritesByte a₁ a₀ alpha) :
      Writes [r₁, r₀, g₁, g₀, b₁, b₀, a₁, a₀] c (some alpha)

variable {h : List Char} {c : Rgb} {alpha : Option UInt8} {n : UInt8}

theorem isHex_iff : isHex h = true ↔ ∀ d ∈ h, ∃ x, HexDigit d x := by
  rw [isHex_eq, List.all_eq_true]
  exact forall₂_congr fun _ _ => isDigitIn_iff

theorem WritesNibble.digit {d : Char} (hn : WritesNibble d n) : ∃ x, HexDigit d x :=
  hn.imp fun _ hx => hx.1

theorem WritesByte.digits {d₁ d₀ : Char} (hn : WritesByte d₁ d₀ n) :
    (∃ x, HexDigit d₁ x) ∧ ∃ y, HexDigit d₀ y := by
  obtain ⟨x, y, hx, hy, -⟩ := hn
  exact ⟨⟨x, hx⟩, y, hy⟩

/-- What the grammar allows has nothing but digits. -/
theorem Writes.isHex (hw : Writes h c alpha) : isHex h = true := by
  refine isHex_iff.mpr ?_
  cases hw with
  | short hr hg hb => simp [hr.digit, hg.digit, hb.digit]
  | long hr hg hb => simp [hr.digits, hg.digits, hb.digits]
  | withAlpha hr hg hb ha => simp [hr.digits, hg.digits, hb.digits, ha.digits]

/-! ### Reading what the grammar allows -/

theorem WritesNibble.run {d : Char} (hn : WritesNibble d n) (hex : ColorLiteral.isHex h = true)
    {start : Nat} (hlength : start + 1 ≤ h.length) (hpiece : (h.drop start).take 1 = [d]) :
    (nibbleAt h start).run = some (some n) := by
  obtain ⟨x, hx, hvalue⟩ := hn
  have hlt := hx.lt
  have heq : UInt8.ofNat x * 17 = n := by
    rw [← UInt8.toNat_inj, UInt8.toNat_mul, UInt8.toNat_ofNat', hvalue]
    change x % 256 * 17 % 256 = _
    omega
  rw [nibbleAt, OptionT.run_bind, run_pieceAt hex hlength, hpiece, readByte?_single hx, ← heq]
  rfl

theorem WritesByte.run {d₁ d₀ : Char} (hn : WritesByte d₁ d₀ n)
    (hex : ColorLiteral.isHex h = true) {start : Nat} (hlength : start + 2 ≤ h.length)
    (hpiece : (h.drop start).take 2 = [d₁, d₀]) : (byteAt h start).run = some (some n) := by
  obtain ⟨x, y, hx, hy, hvalue⟩ := hn
  rw [byteAt, run_pieceAt hex hlength, hpiece, readByte?_pair hx hy, ← hvalue, UInt8.ofNat_toNat]

/-- What is read first is handed on. -/
theorem run_bind_of_run {α β : Type} {x : OptionT Option α} {a : α} (hx : x.run = some (some a))
    (f : α → OptionT Option β) : (x >>= f).run = (f a).run := by
  rw [OptionT.run_bind, hx]
  rfl

/-- Digits are read as the channels that they write. -/
theorem Writes.run_channels (hw : Writes h c alpha) :
    (channels h).run = some (some (c, alpha)) := by
  have hex := hw.isHex
  unfold channels
  rw [if_pos hex, Text.byteLength_of_ascii (isAscii_of_isHex hex)]
  cases hw with
  | short hr hg hb =>
    exact (run_bind_of_run (hr.run hex (by simp) rfl) _).trans <|
      (run_bind_of_run (hg.run hex (by simp) rfl) _).trans <|
        run_bind_of_run (hb.run hex (by simp) rfl) _
  | long hr hg hb =>
    exact (run_bind_of_run (hr.run hex (by simp) rfl) _).trans <|
      (run_bind_of_run (hg.run hex (by simp) rfl) _).trans <|
        run_bind_of_run (hb.run hex (by simp) rfl) _
  | withAlpha hr hg hb ha =>
    exact (run_bind_of_run (hr.run hex (by simp) rfl) _).trans <|
      (run_bind_of_run (hg.run hex (by simp) rfl) _).trans <|
        (run_bind_of_run (hb.run hex (by simp) rfl) _).trans <|
          run_bind_of_run (ha.run hex (by simp) rfl) _

/-! ### Reading anything else -/

theorem exists_writesNibble {d : Char} (hd : ∃ x, HexDigit d x) : ∃ n, WritesNibble d n := by
  obtain ⟨x, hx⟩ := hd
  have hlt := hx.lt
  refine ⟨UInt8.ofNat (17 * x), x, hx, ?_⟩
  rw [UInt8.toNat_ofNat']
  omega

theorem exists_writesByte {d₁ d₀ : Char} (h₁ : ∃ x, HexDigit d₁ x) (h₀ : ∃ y, HexDigit d₀ y) :
    ∃ n, WritesByte d₁ d₀ n := by
  obtain ⟨x, hx⟩ := h₁
  obtain ⟨y, hy⟩ := h₀
  have hltx := hx.lt
  have hlty := hy.lt
  refine ⟨UInt8.ofNat (16 * x + y), x, y, hx, hy, ?_⟩
  rw [UInt8.toNat_ofNat']
  omega

/-- Three or six digits write a colour. -/
theorem exists_writes_none_iff :
    (∃ c, Writes h c none) ↔
      (h.length = 3 ∨ h.length = 6) ∧ ∀ d ∈ h, ∃ x, HexDigit d x := by
  constructor
  · rintro ⟨c, hw⟩
    refine ⟨?_, isHex_iff.mp hw.isHex⟩
    cases hw with
    | short => exact .inl rfl
    | long => exact .inr rfl
  · rintro ⟨hlength, hdigits⟩
    match h, hlength with
    | [r, g, b], _ =>
      simp only [List.forall_mem_cons] at hdigits
      obtain ⟨hr, hg, hb, -⟩ := hdigits
      obtain ⟨red, hr⟩ := exists_writesNibble hr
      obtain ⟨green, hg⟩ := exists_writesNibble hg
      obtain ⟨blue, hb⟩ := exists_writesNibble hb
      exact ⟨⟨red, green, blue⟩, .short hr hg hb⟩
    | [r₁, r₀, g₁, g₀, b₁, b₀], _ =>
      simp only [List.forall_mem_cons] at hdigits
      obtain ⟨hr₁, hr₀, hg₁, hg₀, hb₁, hb₀, -⟩ := hdigits
      obtain ⟨red, hr⟩ := exists_writesByte hr₁ hr₀
      obtain ⟨green, hg⟩ := exists_writesByte hg₁ hg₀
      obtain ⟨blue, hb⟩ := exists_writesByte hb₁ hb₀
      exact ⟨⟨red, green, blue⟩, .long hr hg hb⟩

/-- Eight digits write a colour and an opacity. -/
theorem exists_writes_some_iff :
    (∃ c alpha, Writes h c (some alpha)) ↔ h.length = 8 ∧ ∀ d ∈ h, ∃ x, HexDigit d x := by
  constructor
  · rintro ⟨c, alpha, hw⟩
    refine ⟨?_, isHex_iff.mp hw.isHex⟩
    cases hw with
    | withAlpha => rfl
  · rintro ⟨hlength, hdigits⟩
    match h, hlength with
    | [r₁, r₀, g₁, g₀, b₁, b₀, a₁, a₀], _ =>
      simp only [List.forall_mem_cons] at hdigits
      obtain ⟨hr₁, hr₀, hg₁, hg₀, hb₁, hb₀, ha₁, ha₀, -⟩ := hdigits
      obtain ⟨red, hr⟩ := exists_writesByte hr₁ hr₀
      obtain ⟨green, hg⟩ := exists_writesByte hg₁ hg₀
      obtain ⟨blue, hb⟩ := exists_writesByte hb₁ hb₀
      obtain ⟨alpha, ha⟩ := exists_writesByte ha₁ ha₀
      exact ⟨⟨red, green, blue⟩, alpha, .withAlpha hr hg hb ha⟩

/-- What the grammar does not allow is refused. -/
theorem run_channels_of_not_writes (hnot : ∀ c alpha, ¬Writes h c alpha) :
    (channels h).run = some none := by
  unfold channels
  split
  · rename_i hex
    have hdigits := isHex_iff.mp hex
    rw [Text.byteLength_of_ascii (isAscii_of_isHex hex)]
    split
    · rename_i hlength
      obtain ⟨c, hw⟩ := exists_writes_none_iff.mpr ⟨.inl hlength, hdigits⟩
      exact absurd hw (hnot c none)
    · rename_i hlength
      obtain ⟨c, hw⟩ := exists_writes_none_iff.mpr ⟨.inr hlength, hdigits⟩
      exact absurd hw (hnot c none)
    · rename_i hlength
      obtain ⟨c, alpha, hw⟩ := exists_writes_some_iff.mpr ⟨hlength, hdigits⟩
      exact absurd hw (hnot c (some alpha))
    · rfl
  · rfl

/-- **A literal is read just if the grammar allows it**, as the channels that it writes. -/
theorem read?_eq_some_iff {text : String} :
    read? text = some (c, alpha) ↔ Writes (body text) c alpha := by
  have hread {result : Option (Rgb × Option UInt8)}
      (hrun : (channels (body text)).run = some result) : read? text = result :=
    Option.get_of_eq_some _ hrun
  constructor
  · intro hsome
    by_cases hw : ∃ c alpha, Writes (body text) c alpha
    · obtain ⟨c', alpha', hw⟩ := hw
      obtain ⟨rfl, rfl⟩ := Prod.mk.inj (Option.some.inj ((hread hw.run_channels).symm.trans hsome))
      exact hw
    · have hnone := hread (run_channels_of_not_writes fun c alpha hw' => hw ⟨c, alpha, hw'⟩)
      rw [hnone] at hsome
      cases hsome
  · exact fun hw => hread hw.run_channels

/-- The digits are what is left of a text without the blank characters at both ends and without one
number sign in front, if there is one. -/
def Strips (text : String) (h : List Char) : Prop :=
  ∃ core, Text.Trims text.toList core ∧ (core = '#' :: h ∨ core = h ∧ core.head? ≠ some '#')

theorem strips_iff {text : String} : Strips text h ↔ body text = h := by
  simp only [Strips, ← Text.trim_eq_iff, exists_eq_left', body]
  generalize Text.trim text.toList = core
  unfold dropSign
  split
  · simp
  · rename_i hsign
    have hne : core.head? ≠ some '#' := fun hhead => by
      obtain ⟨cs, rfl⟩ := List.head?_eq_some_iff.mp hhead
      exact hsign cs rfl
    simp only [hne, ne_eq, not_false_eq_true, and_true]
    exact or_iff_right fun hcore => hne (hcore ▸ rfl)

end ColorLiteral

open ColorLiteral

/-! ### The two readers -/

section flag

variable {α : Type} {standIn c : α} {read : Option α}

/-- What was read and whether there is anything, with something that stands in for it if not. -/
def flag (standIn : α) : Option α → α × Bool
  | some c => (c, true)
  | none => (standIn, false)

theorem flag_eq_iff : flag standIn read = (c, true) ↔ read = some c := by
  cases read with
  | some d => simp [flag]
  | none => simp [flag]

theorem fst_flag (h : (flag standIn read).2 = false) : (flag standIn read).1 = standIn := by
  cases read with
  | some d => cases h
  | none => rfl

end flag

namespace Rgb

variable {text : String} {c : Rgb}

theorem parse?_eq_some_iff : parse? text = some c ↔ Writes (body text) c none := by
  rw [← read?_eq_some_iff]
  unfold parse?
  split
  · rename_i c' hread
    simp [hread]
  · rename_i hother
    exact iff_of_false (fun h => nomatch h) fun hread => hother c hread

theorem parse_eq_flag (text : String) : parse text = flag black (parse? text) := by
  unfold parse
  cases parse? text with
  | some c => rfl
  | none => rfl

theorem parse_eq_iff : parse text = (c, true) ↔ Writes (body text) c none := by
  rw [parse_eq_flag, flag_eq_iff, parse?_eq_some_iff]

/-- The colours that are accepted are of three or six digits. -/
theorem accepts_iff : (parse text).2 = true ↔
    ((body text).length = 3 ∨ (body text).length = 6) ∧ ∀ d ∈ body text, ∃ x, HexDigit d x := by
  rw [← exists_writes_none_iff, ← exists_congr fun c => parse_eq_iff (c := c)]
  constructor
  · exact fun hflag => ⟨(parse text).1, Prod.ext rfl hflag⟩
  · rintro ⟨c, hparse⟩
    rw [hparse]

theorem ofText_eq (text : String) :
    ofText text = if (parse text).2 then .ok (parse text).1 else .error ⟨text⟩ := by
  unfold ofText
  obtain ⟨c, accepted⟩ := parse text
  cases accepted with
  | true => rfl
  | false => rfl

end Rgb

namespace Rgba

variable {text : String} {c : Rgba}

theorem parse?_eq_some_iff :
    parse? text = some c ↔
      ∃ alpha, Writes (body text) c.rgb alpha ∧ c.alpha = alpha.getD fullAlpha := by
  rw [parse?, Option.map_eq_some_iff]
  constructor
  · rintro ⟨⟨c', alpha⟩, hread, rfl⟩
    exact ⟨alpha, read?_eq_some_iff.mp hread, rfl⟩
  · rintro ⟨alpha, hw, halpha⟩
    refine ⟨(c.rgb, alpha), read?_eq_some_iff.mpr hw, ?_⟩
    change ofRgb c.rgb (alpha.getD fullAlpha) = c
    rw [← halpha]
    rfl

theorem parse_eq_flag (text : String) : parse text = flag (solid Rgb.black) (parse? text) := by
  unfold parse
  cases parse? text with
  | some c => rfl
  | none => rfl

theorem parse_eq_iff :
    parse text = (c, true) ↔
      ∃ alpha, Writes (body text) c.rgb alpha ∧ c.alpha = alpha.getD fullAlpha := by
  rw [parse_eq_flag, flag_eq_iff, parse?_eq_some_iff]

/-- The colours that are accepted are of three, six or eight digits. -/
theorem accepts_iff : (parse text).2 = true ↔
    ((body text).length = 3 ∨ (body text).length = 6 ∨ (body text).length = 8) ∧
      ∀ d ∈ body text, ∃ x, HexDigit d x := by
  rw [← or_assoc, or_and_right, ← exists_writes_none_iff, ← exists_writes_some_iff]
  constructor
  · intro hflag
    obtain ⟨alpha, hw, -⟩ := parse_eq_iff.mp (Prod.ext (y := ((parse text).1, true)) rfl hflag)
    cases alpha with
    | none => exact .inl ⟨_, hw⟩
    | some alpha => exact .inr ⟨_, alpha, hw⟩
  · rintro (⟨c, hw⟩ | ⟨c, alpha, hw⟩)
    · rw [parse_eq_iff (c := ofRgb c fullAlpha).mpr ⟨none, hw, rfl⟩]
    · rw [parse_eq_iff (c := ofRgb c alpha).mpr ⟨some alpha, hw, rfl⟩]

theorem ofText_eq (text : String) :
    ofText text = if (parse text).2 then .ok (parse text).1 else .error ⟨text⟩ := by
  unfold ofText
  obtain ⟨c, accepted⟩ := parse text
  cases accepted with
  | true => rfl
  | false => rfl

end Rgba

/-- **The readers of colours accept just their grammar.** Of every text, one thing only is left
without the blank characters at both ends and one number sign. It is cut without fail, and the
readers accept it if it is three, six or, for the second one, eight hexadecimal digits. They give the
channels that the digits write, and full opacity if the digits write none, so that they agree. Of a
text that they refuse they give black, and the strict readers an error, which tells the text. -/
theorem literals_are_read_by_grammar (text : String) :
    ∃ h, (∀ h', Strips text h' ↔ h' = h) ∧
      (∃ result, (channels h).run = some result) ∧
      ((Rgb.parse text).2 = true ↔
        (h.length = 3 ∨ h.length = 6) ∧ ∀ d ∈ h, ∃ x, HexDigit d x) ∧
      ((Rgba.parse text).2 = true ↔
        (h.length = 3 ∨ h.length = 6 ∨ h.length = 8) ∧ ∀ d ∈ h, ∃ x, HexDigit d x) ∧
      (∀ c, Rgb.parse text = (c, true) ↔ Writes h c none) ∧
      (∀ c, Rgba.parse text = (c, true) ↔
        ∃ alpha, Writes h c.rgb alpha ∧ c.alpha = alpha.getD 255) ∧
      (∀ c, Rgb.parse text = (c, true) → Rgba.parse text = (Rgba.ofRgb c 255, true)) ∧
      ((Rgb.parse text).2 = false → (Rgb.parse text).1 = ⟨0, 0, 0⟩) ∧
      ((Rgba.parse text).2 = false → (Rgba.parse text).1 = ⟨0, 0, 0, 255⟩) ∧
      (Rgb.ofText text =
        if (Rgb.parse text).2 then .ok (Rgb.parse text).1 else .error ⟨text⟩) ∧
      Rgba.ofText text =
        if (Rgba.parse text).2 then .ok (Rgba.parse text).1 else .error ⟨text⟩ := by
  refine ⟨body text, fun h' => strips_iff.trans eq_comm,
    Option.isSome_iff_exists.mp (isSome_run_channels _), Rgb.accepts_iff, Rgba.accepts_iff,
    fun c => Rgb.parse_eq_iff, fun c => Rgba.parse_eq_iff, fun c hparse => ?_, fun hflag => ?_,
    fun hflag => ?_, Rgb.ofText_eq text, Rgba.ofText_eq text⟩
  · exact Rgba.parse_eq_iff.mpr ⟨none, Rgb.parse_eq_iff.mp hparse, rfl⟩
  · rw [Rgb.parse_eq_flag] at hflag ⊢
    exact fst_flag hflag
  · rw [Rgba.parse_eq_flag] at hflag ⊢
    exact fst_flag hflag

end KeyLight
