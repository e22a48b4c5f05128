import KeyLight.Proofs.Color.RoundTrip

/-!
# Names of a palette

What is under a name after entries were added is what the last accepted entry of that name says, or
what was there before (`find?_extend`). A text is looked up without the blank characters around it,
whereas an entry is stored under its whole name. So a text asks for a name (`AsksFor`) only if there
are no blank characters around the name, and an entry whose name has some is never found.
-/

namespace KeyLight.Palette

variable {p : Palette} {name key text : String} {c : Rgb}

/-! ### Adding one entry -/

theorem any_name (p : Palette) (name : String) :
    p.entries.any (·.1 == name) = (p.find? name).isSome := by
  cases hfind : p.find? name with
  | none =>
    have habsent := find?_eq_none_iff.mp hfind
    exact List.any_eq_false.mpr fun e he => by simpa using habsent e he
  | some c =>
    obtain ⟨before, after, hentries, -⟩ := List.lookup_eq_some_iff.mp hfind
    exact List.any_eq_true.mpr ⟨(name, c), by simp [hentries], beq_self_eq_true name⟩

theorem lookup_replaced (entries : List (String × Rgb)) :
    (entries.map fun e => if e.1 == name then (name, c) else e).lookup key =
      if key = name then (entries.lookup name).map fun _ => c else entries.lookup key := by
  induction entries with
  | nil => simp
  | cons e entries ih =>
    obtain ⟨name', c'⟩ := e
    by_cases hname : name' = name
    · -- the entry is replaced, so what is found under its name is the new colour
      subst hname
      by_cases hkey : key = name'
      · simp [hkey]
      · have hne : (key == name') = false := beq_eq_false_iff_ne.mpr hkey
        simpa only [List.map_cons, beq_self_eq_true, if_true, List.lookup_cons, hne, hkey,
          if_false] using ih
    · -- the entry stays, and it is not the one that is looked up under the name put
      have hne : (name' == name) = false := beq_eq_false_iff_ne.mpr hname
      simp only [List.map_cons, hne, Bool.false_eq_true, if_false, List.lookup_cons, ih]
      by_cases hkey : key = name
      · have hne' : (name == name') = false := beq_eq_false_iff_ne.mpr (Ne.symm hname)
        simp only [hkey, hne', if_true]
      · simp only [hkey, if_false]

/-- What is put under a name is found there, and nothing else changes. -/
theorem find?_put (p : Palette) (name key : String) (c : Rgb) :
    (p.put name c).find? key = if key = name then some c else p.find? key := by
  unfold put
  rw [any_name]
  split
  · rename_i hold
    obtain ⟨d, hd⟩ := Option.isSome_iff_exists.mp hold
    rw [find?] at hd
    rw [find?, lookup_replaced, hd]
    rfl
  · rename_i hnew
    have hnone : p.entries.lookup name = none := Option.not_isSome_iff_eq_none.mp hnew
    rw [find?, List.lookup_append]
    by_cases hkey : key = name
    · simp [hkey, hnone]
    · have hne : (key == name) = false := beq_eq_false_iff_ne.mpr hkey
      simp [List.lookup_cons, hne, hkey, find?]

/-! ### Adding entries -/

/-- The names under which entries are stored, with their colours. Those whose literal is no colour
are passed over. -/
def additions (entries : List (String × String)) : List (String × Rgb) :=
  entries.filterMap fun e => (Rgb.parse? e.2).map (storedForm e.1, ·)

theorem addLiteral_eq (p : Palette) (e : String × String) :
    p.addLiteral e = (additions [e]).foldl (fun p e => p.put e.1 e.2) p := by
  unfold addLiteral additions
  cases hread : Rgb.parse? e.2 with
  | some c => simp [hread]
  | none => simp [hread]

theorem extend_eq (p : Palette) (entries : List (String × String)) :
    p.extend entries = (additions entries).foldl (fun p e => p.put e.1 e.2) p := by
  induction entries generalizing p with
  | nil => rfl
  | cons e entries ih =>
    have hsplit : additions (e :: entries) = additions [e] ++ additions entries :=
      List.filterMap_append (l := [e])
    rw [hsplit, List.foldl_append, ← addLiteral_eq]
    exact ih (p.addLiteral e)

theorem find?_foldl_put (p : Palette) (es : List (String × Rgb)) (key : String) :
    (es.foldl (fun p e => p.put e.1 e.2) p).find? key =
      (es.reverse.lookup key).or (p.find? key) := by
  induction es generalizing p with
  | nil => rfl
  | cons e es ih =>
    obtain ⟨name, c⟩ := e
    have hone : (p.put name c).find? key = ([(name, c)].lookup key).or (p.find? key) := by
      rw [find?_put]
      by_cases hkey : key = name
      · rw [hkey, List.lookup_cons_self, if_pos rfl]
        rfl
      · have hne : (key == name) = false := beq_eq_false_iff_ne.mpr hkey
        rw [List.lookup_cons, hne, if_neg hkey]
        rfl
    rw [List.foldl_cons, ih, hone, List.reverse_cons, List.lookup_append, Option.or_assoc]

/-- **The last accepted entry of a name counts**, and what was there before if there is none. -/
theorem find?_extend (p : Palette) (entries : List (String × String)) (key : String) :
    (p.extend entries).find? key =
      ((additions entries).reverse.lookup key).or (p.find? key) := by
  rw [extend_eq, find?_foldl_put]

theorem mem_additions {entries : List (String × String)} :
    (key, c) ∈ additions entries ↔
      ∃ e ∈ entries, Rgb.parse e.2 = (c, true) ∧ storedForm e.1 = key := by
  simp only [additions, List.mem_filterMap, Option.map_eq_some_iff, Prod.mk.injEq,
    Rgb.parse_eq_iff, ← Rgb.parse?_eq_some_iff]
  grind

theorem lookup_additions_eq_none {entries : List (String × String)}
    (h : ∀ e ∈ entries, (Rgb.parse e.2).2 = true → storedForm e.1 ≠ key) :
    (additions entries).reverse.lookup key = none := by
  refine List.lookup_eq_none_iff.mpr fun d hd => ?_
  obtain ⟨e, he, hparse, hname⟩ := mem_additions.mp (List.mem_reverse.mp hd)
  have hne : d.1 ≠ key := hname ▸ h e he (by rw [hparse])
  exact bne_iff_ne.mpr hne.symm

theorem additions_append (before after : List (String × String)) :
    additions (before ++ after) = additions before ++ additions after :=
  List.filterMap_append

/-- Adding only the entries that are accepted is the same. -/
theorem extend_filter (p : Palette) (entries : List (String × String)) :
    p.extend (entries.filter fun e => (Rgb.parse e.2).2) = p.extend entries := by
  have hsame : additions (entries.filter fun e => (Rgb.parse e.2).2) = additions entries := by
    rw [additions, List.filterMap_filter, additions]
    refine congrArg (List.filterMap · entries) (funext fun e => ?_)
    rw [Rgb.parse_eq_flag]
    cases Rgb.parse? e.2 with
    | some c => rfl
    | none => rfl
  rw [extend_eq, extend_eq, hsame]

/-! ### Texts that ask for a name -/

/-- A text asks for a name: without the blank characters around it, it is the name in any case. -/
def AsksFor (text name : String) : Prop :=
  Text.sameName (String.ofList (Text.trim text.toList)) name = true

theorem sameName_iff {text name : String} :
    Text.sameName text name = true ↔ storedForm text = storedForm name := by
  rw [Text.sameName, beq_iff_eq, storedForm, storedForm, String.ofList_inj]

theorem asksFor_iff : AsksFor text name ↔ Text.lookupForm text = storedForm name := by
  rw [AsksFor, sameName_iff, storedForm, String.toList_ofList]
  rfl

/-- A name without blank characters around it is asked for by the texts that are the name in any
case. -/
theorem asksFor_of_sameName (htrim : Text.trim name.toList = name.toList)
    (hsame : Text.sameName text name = true) : AsksFor text name := by
  rw [Text.sameName, beq_iff_eq] at hsame
  rw [AsksFor, Text.sameName, beq_iff_eq, String.toList_ofList]
  calc Text.fold (Text.trim text.toList) = Text.trim (Text.fold text.toList) := Text.fold_trim _
    _ = Text.trim (Text.fold name.toList) := by rw [hsame]
    _ = Text.fold (Text.trim name.toList) := (Text.fold_trim _).symm
    _ = Text.fold name.toList := by rw [htrim]

/-- No text asks for a name with blank characters around it. -/
theorem AsksFor.trimmed (h : AsksFor text name) : Text.trim name.toList = name.toList := by
  rw [AsksFor, Text.sameName, beq_iff_eq, String.toList_ofList] at h
  have hfold : Text.fold (Text.trim name.toList) = Text.fold name.toList := by
    rw [Text.fold_trim, ← h, ← Text.fold_trim, Text.trim_trim]
  -- trimming cannot drop anything from a name whose folded form it leaves as it is
  have hlength : (Text.trim name.toList).length = name.toList.length := by
    simpa only [Text.fold, List.length_map] using congrArg List.length hfold
  exact (Text.trim_sublist _).eq_of_length hlength

/-! ### Looking up what was added -/

theorem parse?_of_find? (hfind : p.find? (Text.lookupForm text) = some c) :
    p.parse? text = some (Rgba.solid c) := by
  rw [parse?, hfind]

/-- Palettes with the same colour under what a text is looked up by resolve it alike. -/
theorem parse?_congr {p' : Palette}
    (hfind : p.find? (Text.lookupForm text) = p'.find? (Text.lookupForm text)) :
    p.parse? text = p'.parse? text := by
  rw [parse?, parse?, hfind]

/-- An entry counts for the texts that ask for its name if no later one has that name. -/
theorem parse?_extend_of_asksFor {before after : List (String × String)} {literal : String}
    (hliteral : Rgb.parse literal = (c, true))
    (hlast : ∀ e ∈ after, (Rgb.parse e.2).2 = true → Text.sameName e.1 name = false)
    (hasks : AsksFor text name) :
    (p.extend (before ++ (name, literal) :: after)).parse? text = some (Rgba.solid c) := by
  refine parse?_of_find? ?_
  have hlater : (additions after).reverse.lookup (storedForm name) = none :=
    lookup_additions_eq_none fun e he haccepted hname =>
      absurd (sameName_iff.mpr hname) (by rw [hlast e he haccepted]; decide)
  have hone : additions [(name, literal)] = [(storedForm name, c)] := by
    have hread := Rgb.parse?_eq_some_iff.mpr (Rgb.parse_eq_iff.mp hliteral)
    simp [additions, hread]
  rw [asksFor_iff.mp hasks, find?_extend, List.append_cons, additions_append, additions_append,
    hone, List.reverse_append, List.lookup_append, hlater, List.reverse_append]
  simp

/-- A text that asks for none of the accepted names is resolved as before. -/
theorem parse?_extend_of_not_asksFor {entries : List (String × String)}
    (h : ∀ e ∈ entries, (Rgb.parse e.2).2 = true → ¬AsksFor text e.1) :
    (p.extend entries).parse? text = p.parse? text := by
  refine parse?_congr ?_
  have hnone : (additions entries).reverse.lookup (Text.lookupForm text) = none :=
    lookup_additions_eq_none fun e he haccepted hname =>
      h e he haccepted (asksFor_iff.mpr hname.symm)
  rw [find?_extend, hnone, Option.none_or]

/-- An entry is of no use for the texts that do not ask for its name. -/
theorem parse?_extend_append {before after : List (String × String)} {literal : String}
    (h : ¬AsksFor text name) :
    (p.extend (before ++ (name, literal) :: after)).parse? text =
      (p.extend (before ++ after)).parse? text := by
  refine parse?_congr ?_
  have hone : (additions [(name, literal)]).reverse.lookup (Text.lookupForm text) = none := by
    refine lookup_additions_eq_none fun e he _ hname => h (asksFor_iff.mpr ?_)
    rw [← hname, List.mem_singleton.mp he]
  rw [find?_extend, find?_extend, List.append_cons, additions_append, additions_append,
    additions_append, List.reverse_append, List.reverse_append, List.reverse_append,
    List.lookup_append, List.lookup_append, List.lookup_append, hone, Option.none_or]

/-- **Accepted entries are found** if there are no blank characters around their names, by the name
in any case, unless a later accepted entry has the same name. An accepted entry of any other name is
of no use. Entries that are not accepted change nothing, and texts that ask for none of the accepted
names are resolved as before. -/
theorem accepted_entries_are_found (p : Palette) (entries : List (String × String)) :
    (∀ before name literal after c, entries = before ++ (name, literal) :: after →
      Rgb.parse literal = (c, true) →
      (∀ e ∈ after, (Rgb.parse e.2).2 = true → Text.sameName e.1 name = false) →
      Text.trim name.toList = name.toList →
      ∀ text, Text.sameName text name = true →
        (p.extend entries).parse? text = some ⟨c.red, c.green, c.blue, 255⟩) ∧
      (∀ before name literal after, entries = before ++ (name, literal) :: after →
        Text.trim name.toList ≠ name.toList →
        ∀ text, (p.extend entries).parse? text = (p.extend (before ++ after)).parse? text) ∧
      p.extend (entries.filter fun e => (Rgb.parse e.2).2) = p.extend entries ∧
      ∀ text, (∀ e ∈ entries, (Rgb.parse e.2).2 = true → ¬AsksFor text e.1) →
        (p.extend entries).parse? text = p.parse? text := by
  refine ⟨?_, ?_, extend_filter p entries, fun text h => parse?_extend_of_not_asksFor h⟩
  · rintro before name literal after c rfl hliteral hlast htrim text hsame
    exact parse?_extend_of_asksFor hliteral hlast (asksFor_of_sameName htrim hsame)
  · rintro before name literal after rfl htrim text
    exact parse?_extend_append fun hasks => htrim hasks.trimmed

/-- A name in another case is found, and the entry that is no colour is passed over. -/
theorem accepted_entries_are_found_accent :
    (standard.extend [("Accent", "#123456"), ("accent", "#12")]).parse? "ACCENT" =
      some ⟨0x12, 0x34, 0x56, 255⟩ :=
  (accepted_entries_are_found standard [("Accent", "#123456"), ("accent", "#12")]).1 []
    "Accent" "#123456" [("accent", "#12")] ⟨0x12, 0x34, 0x56⟩ rfl rfl (by decide) rfl "ACCENT" rfl

/-- Not every accepted entry is found by its name: the blank characters around it are stored, but
not looked up. -/
theorem not_forall_accepted_entries_found :
    ¬∀ (p : Palette) (before : List (String × String)) (name literal : String)
      (after : List (String × String)) (c : Rgb), Rgb.parse literal = (c, true) →
      (∀ e ∈ after, (Rgb.parse e.2).2 = true → Text.sameName e.1 name = false) →
      ∀ text, Text.sameName text name = true →
        (p.extend (before ++ (name, literal) :: after)).parse? text =
          some ⟨c.red, c.green, c.blue, 255⟩ := by
  intro h
  have hfound := h standard [] " Accent " "#123456" [] ⟨0x12, 0x34, 0x56⟩ rfl
    (fun _ he => nomatch he) " Accent " rfl
  have hlost : (standard.extend [(" Accent ", "#123456")]).parse? " Accent " = none := by decide
  cases hlost.symm.trans hfound

end KeyLight.Palette
