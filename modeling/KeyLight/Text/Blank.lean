/-!
# Blank characters and letter case

Names and colour literals are compared after the blank characters around them are dropped and
their letters A to Z are folded to a to z. `trim` drops the characters with the Unicode property
White_Space from both ends and `fold` folds the case; `sameName` is equality after folding.

The main statements say that `trim` and `fold` may be applied in either order (`fold_trim`), that
trimming twice is trimming once (`trim_trim`), and what `trim` leaves of a text (`trim_eq_iff`).
-/

namespace KeyLight.Text

/-- The characters with the Unicode property White_Space. -/
def isBlank (c : Char) : Bool :=
  let n := c.toNat
  (0x9 ≤ n && n ≤ 0xD) || n == 0x20 || n == 0x85 || n == 0xA0 || n == 0x1680 ||
    (0x2000 ≤ n && n ≤ 0x200A) || n == 0x2028 || n == 0x2029 || n == 0x202F || n == 0x205F ||
    n == 0x3000

/-- Drops the blank characters in front. -/
def trimLeft (cs : List Char) : List Char := cs.dropWhile isBlank

/-- Drops the blank characters at both ends. -/
def trim (cs : List Char) : List Char := (trimLeft (trimLeft cs).reverse).reverse

/-- The letter a to z for a letter A to Z; every other character stands for itself. -/
def foldChar (c : Char) : Char := if 'A' ≤ c ∧ c ≤ 'Z' then Char.ofNat (c.toNat + 32) else c

/-- Folds the letters A to Z. -/
def fold (cs : List Char) : List Char := cs.map foldChar

theorem toNat_foldChar (c : Char) :
    (foldChar c).toNat = if 'A' ≤ c ∧ c ≤ 'Z' then c.toNat + 32 else c.toNat := by
  unfold foldChar
  split
  · next h =>
    have h₁ : 65 ≤ c.toNat := h.1
    have h₂ : c.toNat ≤ 90 := h.2
    rw [Char.ofNat, dif_pos (by left; omega)]
    rfl
  · rfl

/-- Folding neither makes a blank character nor removes one. -/
@[simp] theorem isBlank_foldChar (c : Char) : isBlank (foldChar c) = isBlank c := by
  have h := toNat_foldChar c
  split at h
  · next hc =>
    have h₁ : 65 ≤ c.toNat := hc.1
    have h₂ : c.toNat ≤ 90 := hc.2
    simp only [isBlank, h]
    grind
  · simp [isBlank, h]

theorem trimLeft_trimLeft (cs : List Char) : trimLeft (trimLeft cs) = trimLeft cs := by
  induction cs with
  | nil => rfl
  | cons c cs ih => by_cases h : isBlank c <;> simp_all [trimLeft]

theorem fold_trimLeft (cs : List Char) : fold (trimLeft cs) = trimLeft (fold cs) := by
  induction cs with
  | nil => rfl
  | cons c cs ih => by_cases h : isBlank c <;> simp_all [trimLeft, fold]

theorem fold_trim (cs : List Char) : fold (trim cs) = trim (fold cs) := by
  have reverse (cs : List Char) : fold cs.reverse = (fold cs).reverse := List.map_reverse
  simp [trim, reverse, fold_trimLeft]

theorem trimLeft_of_isPrefix {xs cs : List Char} (h : xs <+: trimLeft cs) : trimLeft xs = xs := by
  obtain ⟨rest, h⟩ := h
  cases xs with
  | nil => rfl
  | cons c xs =>
    have hc : ¬ isBlank c := by
      have hd := List.head?_dropWhile_not isBlank cs
      rw [show cs.dropWhile isBlank = c :: (xs ++ rest) from h.symm] at hd
      simpa using hd
    simp [trimLeft, hc]

theorem trim_trim (cs : List Char) : trim (trim cs) = trim cs := by
  have h : trim cs <+: trimLeft cs := by
    rw [trim, ← List.reverse_suffix, List.reverse_reverse]
    exact List.dropWhile_suffix isBlank
  rw [trim, trimLeft_of_isPrefix h, trim, List.reverse_reverse, trimLeft_trimLeft]

/-- What is left of a text without the blank characters at both ends. -/
structure Trims (cs core : List Char) : Prop where
  around : ∃ before after, cs = before ++ core ++ after ∧ ∀ c ∈ before ++ after, isBlank c = true
  head : ∀ c, core.head? = some c → isBlank c = false
  last : ∀ c, core.getLast? = some c → isBlank c = false

theorem trimLeft_append {before : List Char} (h : ∀ c ∈ before, isBlank c = true)
    (cs : List Char) : trimLeft (before ++ cs) = trimLeft cs :=
  List.dropWhile_append_of_pos h

theorem trimLeft_of_head {cs : List Char} (h : ∀ c, cs.head? = some c → isBlank c = false) :
    trimLeft cs = cs := by
  cases cs with
  | nil => rfl
  | cons c cs => rw [trimLeft, List.dropWhile_cons, h c rfl]; rfl

theorem isBlank_of_head?_trimLeft {cs : List Char} {c : Char}
    (h : (trimLeft cs).head? = some c) : isBlank c = false := by
  have hnot := List.head?_dropWhile_not isBlank cs
  rw [show cs.dropWhile isBlank = trimLeft cs from rfl, h] at hnot
  simpa using hnot

/-- The blank characters behind are all that is still to be dropped when those in front are. -/
theorem trim_append (cs : List Char) :
    trim cs ++ ((trimLeft cs).reverse.takeWhile isBlank).reverse = trimLeft cs := by
  rw [trim, trimLeft, ← List.reverse_append, List.takeWhile_append_dropWhile, List.reverse_reverse]

theorem trims_trim (cs : List Char) : Trims cs (trim cs) where
  around := by
    refine ⟨cs.takeWhile isBlank, ((trimLeft cs).reverse.takeWhile isBlank).reverse, ?_, ?_⟩
    · rw [List.append_assoc, trim_append]
      exact List.takeWhile_append_dropWhile.symm
    · refine List.forall_mem_append.mpr ⟨fun c hc => ?_, fun c hc => ?_⟩
      · exact (List.all_eq_true.mp List.all_takeWhile) c hc
      · exact (List.all_eq_true.mp List.all_takeWhile) c (List.mem_reverse.mp hc)
  head := fun c hc => by
    have hfirst : (trimLeft cs).head? = some c := by
      rw [← trim_append, List.head?_append, hc]
      rfl
    exact isBlank_of_head?_trimLeft hfirst
  last := fun c hc => by
    rw [trim, List.getLast?_reverse] at hc
    exact isBlank_of_head?_trimLeft hc

theorem trim_sublist (cs : List Char) : (trim cs).Sublist cs := by
  obtain ⟨before, after, hcs, -⟩ := (trims_trim cs).around
  have hinner : (trim cs).Sublist (before ++ trim cs ++ after) :=
    (List.sublist_append_right before (trim cs)).trans (List.sublist_append_left _ after)
  rwa [← hcs] at hinner

/-- **What trimming leaves** of a text: the part between the blank characters at both ends. -/
theorem trim_eq_iff {cs core : List Char} : trim cs = core ↔ Trims cs core := by
  refine ⟨fun h => h ▸ trims_trim cs, fun ⟨⟨before, after, hcs, hblank⟩, hhead, hlast⟩ => ?_⟩
  obtain ⟨hbefore, hafter⟩ := List.forall_mem_append.mp hblank
  have hleft : trimLeft cs = trimLeft (core ++ after) := by
    rw [hcs, List.append_assoc, trimLeft_append hbefore]
  cases core with
  | nil =>
    have hnothing : trimLeft cs = [] := by
      rw [hleft, List.nil_append, ← List.append_nil after, trimLeft_append hafter]
      rfl
    rw [trim, hnothing]
    rfl
  | cons c core =>
    have hright : (c :: core ++ after).reverse = after.reverse ++ (c :: core).reverse :=
      List.reverse_append
    have hbehind : ∀ d ∈ after.reverse, isBlank d = true := fun d hd =>
      hafter d (List.mem_reverse.mp hd)
    have hlast' : ∀ d, (c :: core).reverse.head? = some d → isBlank d = false := fun d hd =>
      hlast d (List.head?_reverse ▸ hd)
    have hfront : trimLeft (c :: core ++ after) = c :: core ++ after :=
      trimLeft_of_head fun d hd => hhead d hd
    rw [trim, hleft, hfront, hright, trimLeft_append hbehind, trimLeft_of_head hlast',
      List.reverse_reverse]

/-- Two names are the same when they differ at most in the case of the letters A to Z. -/
def sameName (a b : String) : Bool := fold a.toList == fold b.toList

/-- What a name is looked up by: trimmed and folded. -/
def lookupForm (text : String) : String := String.ofList (fold (trim text.toList))

end KeyLight.Text
