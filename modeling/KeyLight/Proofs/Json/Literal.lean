import KeyLight.Json.Parser
import KeyLight.Json.Printer

/-!
# Numbers and strings in JSON

What is written for an integer or for a string is read as just that, whatever comes after it in the
text (`Json.readNumber?_integer`, `Json.readText?_renderText`). A string is written character by
character, and the code point that an escape stands for is that of the character
(`Json.readUnits?_escapeChar`).
-/

namespace KeyLight

/-! ### Digits -/

theorem digitValue?_digitChar : ∀ d < 10, digitValue? 10 (Nat.digitChar d) = some d := by decide

theorem ofDigits_append (base : Nat) (cs : List Char) (c : Char) :
    ofDigits base (cs ++ [c]) = ofDigits base cs * base + (digitValue? base c).getD 0 := by
  simp only [ofDigits, List.foldl_append, List.foldl_cons, List.foldl_nil]

/-- The digits of a number write the number. -/
theorem ofDigits_toDigits (n : Nat) : ofDigits 10 (Nat.toDigits 10 n) = n := by
  induction n using Nat.strongRecOn with
  | ind n ih =>
    by_cases hn : n < 10
    · rw [Nat.toDigits_of_lt_base hn]
      simp [ofDigits, digitValue?_digitChar n hn]
    · have hlast : n % 10 < 10 := Nat.mod_lt n (by decide)
      rw [Nat.toDigits_of_base_le (by decide) (Nat.le_of_not_lt hn), ofDigits_append,
        ih (n / 10) (by omega), digitValue?_digitChar _ hlast, Option.getD_some]
      omega

theorem isDigitIn_of_mem_toDigits (n : Nat) :
    ∀ c ∈ Nat.toDigits 10 n, isDigitIn 10 c = true := by
  induction n using Nat.strongRecOn with
  | ind n ih =>
    intro c hc
    by_cases hn : n < 10
    · rw [Nat.toDigits_of_lt_base hn, List.mem_singleton] at hc
      rw [hc, isDigitIn, digitValue?_digitChar n hn]
      rfl
    · rw [Nat.toDigits_of_base_le (by decide) (Nat.le_of_not_lt hn), List.mem_append,
        List.mem_singleton] at hc
      obtain hc | rfl := hc
      · exact ih (n / 10) (by omega) c hc
      · rw [isDigitIn, digitValue?_digitChar _ (Nat.mod_lt n (by decide))]
        rfl

/-- The first digit of a number other than zero is not zero. -/
theorem exists_toDigits_eq_cons {n : Nat} (hn : n ≠ 0) :
    ∃ c cs, Nat.toDigits 10 n = c :: cs ∧ c ≠ '0' := by
  induction n using Nat.strongRecOn with
  | ind n ih =>
    by_cases hlt : n < 10
    · have hfirst : ∀ d < 10, d ≠ 0 → Nat.digitChar d ≠ '0' := by decide
      exact ⟨_, [], Nat.toDigits_of_lt_base hlt, hfirst n hlt hn⟩
    · obtain ⟨c, cs, heq, hc⟩ := ih (n / 10) (by omega) (by omega)
      refine ⟨c, cs ++ [Nat.digitChar (n % 10)], ?_, hc⟩
      rw [Nat.toDigits_of_base_le (by decide) (Nat.le_of_not_lt hlt), heq]
      rfl

namespace Json

/-! ### Numbers -/

/-- What can come after a value in a text without blank characters. -/
inductive Ends : List Char → Prop
  | text : Ends []
  | item (cs : List Char) : Ends (',' :: cs)
  | array (cs : List Char) : Ends (']' :: cs)
  | object (cs : List Char) : Ends ('}' :: cs)

variable {rest : List Char}

/-- A value has no more digits after its end. -/
theorem Ends.takeWhile_isDigitIn (h : Ends rest) : rest.takeWhile (isDigitIn 10) = [] := by
  cases h <;> rfl

theorem Ends.dropWhile_isDigitIn (h : Ends rest) : rest.dropWhile (isDigitIn 10) = rest := by
  cases h <;> rfl

theorem readWhole?_toDigits (h : Ends rest) (n : Nat) :
    readWhole? (Nat.toDigits 10 n ++ rest) = some (Nat.toDigits 10 n, rest) := by
  by_cases hn : n = 0
  · subst hn
    cases h <;> rfl
  · obtain ⟨c, cs, heq, hc⟩ := exists_toDigits_eq_cons hn
    have hdigits := isDigitIn_of_mem_toDigits n
    have htake : (c :: cs ++ rest).takeWhile (isDigitIn 10) = c :: cs := by
      rw [List.takeWhile_append_of_pos (heq ▸ hdigits), h.takeWhile_isDigitIn, List.append_nil]
    have hdrop : (c :: cs ++ rest).dropWhile (isDigitIn 10) = rest := by
      rw [List.dropWhile_append_of_pos (heq ▸ hdigits), h.dropWhile_isDigitIn]
    rw [heq]
    unfold readWhole?
    split
    · rename_i heq'
      exact absurd (List.cons.inj heq').1 hc
    · simp only [htake, hdrop, List.isEmpty_cons, Bool.false_eq_true, if_false]

/-- The digits of a number have no sign in front. -/
theorem exists_digit_cons (n : Nat) :
    ∃ c cs, Nat.toDigits 10 n = c :: cs ∧ isDigitIn 10 c = true := by
  cases hdigits : Nat.toDigits 10 n with
  | nil => exact absurd hdigits Nat.toDigits_ne_nil
  | cons c cs =>
    refine ⟨c, cs, rfl, isDigitIn_of_mem_toDigits n c ?_⟩
    rw [hdigits]
    exact List.mem_cons_self

/-- **An integer that is written is read.** -/
theorem readNumber?_integer (h : Ends rest) (n : Int) :
    readNumber? (renderChars (.integer n) ++ rest) = some (.integer n, rest) := by
  have hfraction : readFraction? rest = some ([], rest) := by cases h <;> rfl
  have hexponent : readExponent? rest = some ([], rest) := by cases h <;> rfl
  have hwhole := readWhole?_toDigits h n.natAbs
  have hvalue := ofDigits_toDigits n.natAbs
  by_cases hneg : n < 0
  · have hzero : Nat.toDigits 10 n.natAbs ≠ ['0'] := fun hzero => by
      rw [hzero] at hvalue
      have hnone : ofDigits 10 ['0'] = 0 := rfl
      omega
    have hsigned : -(n.natAbs : Int) = n := by omega
    simp only [renderChars, if_pos hneg, List.cons_append, List.nil_append, readNumber?, bind,
      Option.bind, hwhole, hfraction, hexponent, hvalue]
    have hshown : (Nat.toDigits 10 n.natAbs != ['0']) = true := bne_iff_ne.mpr hzero
    simp only [List.isEmpty_nil, List.isEmpty_cons, Bool.and_self, Bool.false_or,
      hshown, if_true, Bool.false_eq_true, if_false, hsigned]
  · obtain ⟨c, cs, heq, hc⟩ := exists_digit_cons n.natAbs
    have hsigned : (n.natAbs : Int) = n := by omega
    simp only [renderChars, if_neg hneg, List.nil_append]
    rw [heq] at hwhole hvalue ⊢
    unfold readNumber?
    split
    rename_i sign cs' hsplit
    split at hsplit
    · rename_i hminus
      obtain ⟨rfl, -⟩ := List.cons.inj hminus
      cases hc
    · obtain ⟨rfl, rfl⟩ := Prod.mk.inj hsplit
      simp only [bind, Option.bind, hwhole, hfraction, hexponent, hvalue]
      simp only [List.isEmpty_nil, Bool.and_self, Bool.true_or, if_true, hsigned]

/-! ### Strings -/

/-- A control character is written by the digits of its code point. -/
theorem hexUnit?_hexDigit :
    ∀ n < 32, hexUnit? '0' '0' (hexDigit (n / 16)) (hexDigit (n % 16)) = some n := by decide

/-- **What is written for a character is read as its code point.** -/
theorem readUnits?_escapeChar (c : Char) (cs : List Char) :
    readUnits? (escapeChar c ++ cs) =
      (readUnits? cs).map fun (units, rest) => (c.toNat :: units, rest) := by
  unfold escapeChar
  split
  · cases hcs : readUnits? cs <;> simp [readUnits?, hcs, escaped?]
  · cases hcs : readUnits? cs <;> simp [readUnits?, hcs, escaped?]
  · cases hcs : readUnits? cs <;> simp [readUnits?, hcs, escaped?]
  · cases hcs : readUnits? cs <;> simp [readUnits?, hcs, escaped?]
  · cases hcs : readUnits? cs <;> simp [readUnits?, hcs, escaped?]
  · rename_i hquote hslash hline hreturn htab
    split
    · rename_i hback
      cases hcs : readUnits? cs <;> simp [readUnits?, hcs, escaped?, hback]
    split
    · rename_i hfeed
      cases hcs : readUnits? cs <;> simp [readUnits?, hcs, escaped?, hfeed]
    split
    · rename_i hcontrol
      have hunit := hexUnit?_hexDigit c.toNat hcontrol
      cases hcs : readUnits? cs <;> simp [readUnits?, hcs, hunit]
    · rename_i hcontrol
      have hplain : ¬(c.toNat < 0x20 ∨ c = '\\') := not_or.mpr ⟨hcontrol, hslash⟩
      rw [List.singleton_append, readUnits?, if_neg hplain]
      · cases readUnits? cs <;> rfl
      · exact hquote
      · exact fun _ _ _ _ _ heq _ => hslash heq
      · exact fun _ _ heq _ => hslash heq

theorem readUnits?_flatMap (cs rest : List Char) :
    readUnits? (cs.flatMap escapeChar ++ '"' :: rest) = some (cs.map Char.toNat, rest) := by
  induction cs with
  | nil => rfl
  | cons c cs ih =>
    rw [List.flatMap_cons, List.append_assoc, readUnits?_escapeChar, ih]
    rfl

/-- The code points of a text have no surrogates among them. -/
theorem joinUnits?_map_toNat (cs : List Char) : joinUnits? (cs.map Char.toNat) = some cs := by
  have hplain (c : Char) : isHighSurrogate c.toNat = false ∧ isLowSurrogate c.toNat = false := by
    have hvalid : c.toNat < 0xD800 ∨ 0xDFFF < c.toNat ∧ c.toNat < 0x110000 := c.valid
    simp only [isHighSurrogate, isLowSurrogate, Bool.and_eq_false_iff, decide_eq_false_iff_not]
    omega
  induction cs with
  | nil => rfl
  | cons c cs ih =>
    obtain ⟨hhigh, hlow⟩ := hplain c
    cases cs with
    | nil => simp [joinUnits?, hhigh, hlow]
    | cons d cs =>
      rw [List.map_cons] at ih
      simp [joinUnits?, hhigh, hlow, ih]

/-- **A string that is written is read.** -/
theorem readText?_renderText (text : String) (rest : List Char) :
    ∃ cs, renderText text ++ rest = '"' :: cs ∧ readText? cs = some (some text, rest) := by
  refine ⟨text.toList.flatMap escapeChar ++ '"' :: rest, ?_, ?_⟩
  · simp only [renderText, List.cons_append, List.append_assoc, List.nil_append]
  · simp only [readText?, readUnits?_flatMap, bind, Option.bind, joinUnits?_map_toNat,
      Option.map_some, String.ofList_toList]

/-- Nor does a string with an unpaired surrogate come back as anything else. -/
theorem readText?_renderName (name : Option String) (rest : List Char) :
    ∃ cs, renderName name ++ rest = '"' :: cs ∧ readText? cs = some (name, rest) := by
  cases name with
  | some text => exact readText?_renderText text rest
  | none => exact ⟨_, rfl, rfl⟩

end Json

end KeyLight
