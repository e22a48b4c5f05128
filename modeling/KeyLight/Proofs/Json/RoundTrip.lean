import KeyLight.Json.Record
import KeyLight.Proofs.Json.Literal

/-!
# Reading what is written in JSON

A value whose numbers are integers is read back from its text (`Json.parse?_render`), and a record
is read back from its fields, whatever they are called, as long as no two have one name
(`Json.components?_record`).
-/

namespace KeyLight.Json

/-- All numbers in a value are integers. -/
inductive IsWhole : Json → Prop
  | null : IsWhole .null
  | bool (b : Bool) : IsWhole (.bool b)
  | integer (n : Int) : IsWhole (.integer n)
  | string (text : String) : IsWhole (.string text)
  | unpaired : IsWhole .unpaired
  | array {items : List Json} (h : ∀ j ∈ items, IsWhole j) : IsWhole (.array items)
  | object {fields : List (Option String × Json)} (h : ∀ field ∈ fields, IsWhole field.2) :
      IsWhole (.object fields)

/-- A value is read back from what is written for it, before whatever can come after a value. -/
def ReadsBack (j : Json) : Prop :=
  ∀ fuel rest, (renderChars j).length ≤ fuel → Ends rest →
    readValue? fuel (renderChars j ++ rest) = some (j, rest)

variable {j : Json} {rest : List Char}

/-! ### Blank characters -/

theorem isBlank_of_isDigitIn {c : Char} (h : isDigitIn 10 c = true) : isBlank c = false := by
  rw [Bool.eq_false_iff]
  intro hblank
  simp only [isBlank, Bool.or_eq_true, beq_iff_eq] at hblank
  obtain ((rfl | rfl) | rfl) | rfl := hblank <;> cases h

/-- A text starts with a character that is not blank and closes neither an array nor an object. -/
def Leads (cs : List Char) : Prop :=
  ∃ c more, cs = c :: more ∧ isBlank c = false ∧ c ≠ ']' ∧ c ≠ '}'

theorem Leads.append {cs : List Char} (h : Leads cs) (more : List Char) : Leads (cs ++ more) := by
  obtain ⟨c, cs, rfl, hc⟩ := h
  exact ⟨c, cs ++ more, rfl, hc⟩

theorem Leads.skip {cs : List Char} (h : Leads cs) : Json.skip cs = cs := by
  obtain ⟨c, cs, rfl, hblank, -⟩ := h
  exact List.dropWhile_cons_of_neg (Bool.eq_false_iff.mp hblank)

theorem leads_renderName (name : Option String) : Leads (renderName name) := by
  cases name <;> exact ⟨'"', _, rfl, rfl, by decide, by decide⟩

theorem IsWhole.leads (h : j.IsWhole) : Leads (renderChars j) := by
  cases h with
  | bool b => cases b <;> exact ⟨_, _, by rw [renderChars], rfl, by decide, by decide⟩
  | integer n =>
    rw [renderChars]
    split
    · exact ⟨'-', _, rfl, rfl, by decide, by decide⟩
    · obtain ⟨c, cs, heq, hc⟩ := exists_digit_cons n.natAbs
      refine ⟨c, cs, heq, isBlank_of_isDigitIn hc, ?_, ?_⟩ <;>
      · rintro rfl
        cases hc
  | null => exact ⟨_, _, by rw [renderChars], rfl, by decide, by decide⟩
  | array | object => exact ⟨_, _, by rw [renderChars]; rfl, rfl, by decide, by decide⟩
  | string text =>
    rw [renderChars]
    exact leads_renderName (some text)
  | unpaired =>
    rw [renderChars]
    exact leads_renderName none

theorem leads_renderItems {item : Json} (h : item.IsWhole) (items : List Json) :
    Leads (renderItems (item :: items)) := by
  cases items with
  | nil =>
    rw [renderItems]
    exact h.leads
  | cons next items =>
    rw [renderItems]
    exact h.leads.append _

theorem leads_renderFields (field : Option String × Json) (fields : List (Option String × Json)) :
    Leads (renderFields (field :: fields)) := by
  cases fields with
  | nil =>
    rw [renderFields]
    exact (leads_renderName field.1).append _
  | cons next fields =>
    rw [renderFields]
    exact ((leads_renderName field.1).append _).append _

/-- Something is written for every value, so there is fuel for it. -/
theorem IsWhole.readsBack_of_succ (hj : j.IsWhole)
    (h : ∀ fuel rest, (renderChars j).length ≤ fuel + 1 → Ends rest →
      readValue? (fuel + 1) (renderChars j ++ rest) = some (j, rest)) : j.ReadsBack := by
  intro fuel rest hfuel hrest
  obtain ⟨c, cs, heq, -⟩ := hj.leads
  cases fuel with
  | zero =>
    rw [heq] at hfuel
    cases hfuel
  | succ fuel => exact h fuel rest hfuel hrest

/-! ### Numbers and strings -/

/-- A value that starts as a number does is one. -/
theorem readValue?_of_number {c : Char} (hc : c = '-' ∨ isDigitIn 10 c = true) (fuel : Nat)
    (cs : List Char) : readValue? (fuel + 1) (c :: cs) = readNumber? (c :: cs) := by
  -- the characters that begin something else are no digits
  have hnot (d : Char) (hd : d ≠ '-') (hdigit : isDigitIn 10 d = false) (ds : List Char) :
      c :: cs ≠ d :: ds := by
    intro heq
    obtain rfl := (List.cons.inj heq).1
    obtain hminus | hdigit' := hc
    · exact hd hminus
    · exact Bool.eq_false_iff.mp hdigit hdigit'
  unfold readValue?
  split
  · exact absurd ‹_› (hnot 'n' (by decide) rfl _)
  · exact absurd ‹_› (hnot 't' (by decide) rfl _)
  · exact absurd ‹_› (hnot 'f' (by decide) rfl _)
  · exact absurd ‹_› (hnot '"' (by decide) rfl _)
  · exact absurd ‹_› (hnot '[' (by decide) rfl _)
  · exact absurd ‹_› (hnot '{' (by decide) rfl _)
  · rfl

theorem readsBack_integer (n : Int) : ReadsBack (.integer n) := by
  refine IsWhole.readsBack_of_succ (.integer n) fun fuel rest _ hrest => ?_
  obtain ⟨c, cs, heq, hc⟩ : ∃ c cs, renderChars (.integer n) = c :: cs ∧
      (c = '-' ∨ isDigitIn 10 c = true) := by
    rw [renderChars]
    split
    · exact ⟨'-', _, rfl, .inl rfl⟩
    · obtain ⟨c, cs, heq, hc⟩ := exists_digit_cons n.natAbs
      exact ⟨c, cs, heq, .inr hc⟩
  have hread := readNumber?_integer hrest n
  rw [heq] at hread ⊢
  exact (readValue?_of_number hc fuel _).trans hread

/-- A string, or one with an unpaired surrogate. -/
theorem readValue?_renderName (name : Option String) (fuel : Nat) (rest : List Char) :
    readValue? (fuel + 1) (renderName name ++ rest) =
      some ((name.map Json.string).getD .unpaired, rest) := by
  obtain ⟨cs, heq, hread⟩ := readText?_renderName name rest
  rw [heq]
  simp only [readValue?, hread, Option.map_some]

/-! ### Arrays and objects -/

theorem skip_comma (cs : List Char) : skip (',' :: cs) = ',' :: cs := rfl

theorem skip_colon (cs : List Char) : skip (':' :: cs) = ':' :: cs := rfl

theorem skip_brace (cs : List Char) : skip ('}' :: cs) = '}' :: cs := rfl

/-- The items of an array. -/
theorem readItems?_renderItems {items : List Json} (hne : items ≠ [])
    (hitems : ∀ j ∈ items, j.IsWhole ∧ j.ReadsBack) {fuel : Nat}
    (hfuel : (renderItems items).length < fuel) (rest : List Char) :
    readItems? fuel (renderItems items ++ ']' :: rest) = some (items, rest) := by
  induction items generalizing fuel with
  | nil => exact absurd rfl hne
  | cons item items ih =>
    obtain ⟨fuel, rfl⟩ := Nat.exists_eq_add_one_of_ne_zero (Nat.ne_zero_of_lt hfuel)
    obtain ⟨⟨-, hread⟩, hitems⟩ := List.forall_mem_cons.mp hitems
    cases items with
    | nil =>
      rw [renderItems] at hfuel ⊢
      rw [readItems?, hread fuel _ (Nat.le_of_lt_succ hfuel) (.array rest)]
      rfl
    | cons next items =>
      rw [renderItems, List.length_append, List.length_cons] at hfuel
      -- the comma pays for the fuel that the other items are read with
      have hmore : readItems? fuel (renderItems (next :: items) ++ ']' :: rest) =
          some (next :: items, rest) := ih (List.cons_ne_nil next items) hitems (by omega)
      have hskip := ((leads_renderItems (hitems next List.mem_cons_self).1 items).append
        (']' :: rest)).skip
      rw [renderItems, List.append_assoc, List.cons_append, readItems?,
        hread fuel _ (by omega) (.item _)]
      simp only [bind, Option.bind, skip_comma, hskip, hmore]

/-- The fields of an object. -/
theorem readFields?_renderFields {fields : List (Option String × Json)} (hne : fields ≠ [])
    (hfields : ∀ field ∈ fields, field.2.IsWhole ∧ field.2.ReadsBack) {fuel : Nat}
    (hfuel : (renderFields fields).length < fuel) (rest : List Char) :
    readFields? fuel (renderFields fields ++ '}' :: rest) = some (fields, rest) := by
  induction fields generalizing fuel with
  | nil => exact absurd rfl hne
  | cons field fields ih =>
    obtain ⟨name, value⟩ := field
    obtain ⟨fuel, rfl⟩ := Nat.exists_eq_add_one_of_ne_zero (Nat.ne_zero_of_lt hfuel)
    obtain ⟨hfield, hfields⟩ := List.forall_mem_cons.mp hfields
    obtain ⟨hwhole, hread⟩ : value.IsWhole ∧ value.ReadsBack := hfield
    cases fields with
    | nil =>
      rw [renderFields, List.length_append, List.length_cons] at hfuel
      obtain ⟨cs, hname, htext⟩ := readText?_renderName name
        (':' :: (renderChars value ++ '}' :: rest))
      rw [renderFields, List.append_assoc, List.cons_append, hname, readFields?]
      simp only [htext, bind, Option.bind, skip_colon, (hwhole.leads.append _).skip,
        hread fuel _ (by omega) (.object rest), skip_brace]
    | cons next fields =>
      rw [renderFields, List.length_append, List.length_append, List.length_cons,
        List.length_cons] at hfuel
      have hmore : readFields? fuel (renderFields (next :: fields) ++ '}' :: rest) =
          some (next :: fields, rest) := ih (List.cons_ne_nil next fields) hfields (by omega)
      obtain ⟨cs, hname, htext⟩ := readText?_renderName name
        (':' :: (renderChars value ++ ',' :: (renderFields (next :: fields) ++ '}' :: rest)))
      rw [renderFields, List.append_assoc, List.append_assoc, List.cons_append, List.cons_append,
        hname, readFields?]
      simp only [htext, bind, Option.bind, skip_colon, (hwhole.leads.append _).skip,
        hread fuel _ (by omega) (.item _), skip_comma,
        ((leads_renderFields next fields).append _).skip, hmore]

/-! ### Values -/

theorem readValue?_array {fuel : Nat} {items : List Json}
    (h : ∀ j ∈ items, j.IsWhole ∧ j.ReadsBack) (hfuel : (renderItems items).length < fuel)
    (rest : List Char) : readValue? (fuel + 1) ('[' :: renderItems items ++ ']' :: rest) =
      some (.array items, rest) := by
  cases items with
  | nil => rfl
  | cons item items =>
    have hread := readItems?_renderItems (List.cons_ne_nil item items) h hfuel rest
    have hleads := (leads_renderItems (h item List.mem_cons_self).1 items).append (']' :: rest)
    have hskip := hleads.skip
    obtain ⟨c, cs, heq, -, hc, -⟩ := hleads
    rw [List.cons_append, readValue?, hskip, heq]
    split
    · rename_i hclose
      exact absurd (List.cons.inj hclose).1 hc
    · rw [← heq, hread]
      rfl

theorem readValue?_object {fuel : Nat} {fields : List (Option String × Json)}
    (h : ∀ field ∈ fields, field.2.IsWhole ∧ field.2.ReadsBack)
    (hfuel : (renderFields fields).length < fuel) (rest : List Char) :
    readValue? (fuel + 1) ('{' :: renderFields fields ++ '}' :: rest) =
      some (.object fields, rest) := by
  cases fields with
  | nil => rfl
  | cons field fields =>
    have hread := readFields?_renderFields (List.cons_ne_nil field fields) h hfuel rest
    have hleads := (leads_renderFields field fields).append ('}' :: rest)
    have hskip := hleads.skip
    obtain ⟨c, cs, heq, -, -, hc⟩ := hleads
    rw [List.cons_append, readValue?, hskip, heq]
    split
    · rename_i hclose
      exact absurd (List.cons.inj hclose).1 hc
    · rw [← heq, hread]
      rfl

/-- **A value whose numbers are integers is read back**, before whatever can come after it. -/
theorem IsWhole.readsBack (h : j.IsWhole) : j.ReadsBack := by
  induction h with
  | integer n => exact readsBack_integer n
  | null => exact IsWhole.null.readsBack_of_succ fun _ _ _ _ => rfl
  | bool b => exact (IsWhole.bool b).readsBack_of_succ fun _ _ _ _ => by cases b <;> rfl
  | string text =>
    refine (IsWhole.string text).readsBack_of_succ fun fuel rest _ _ => ?_
    rw [renderChars]
    exact readValue?_renderName (some text) fuel rest
  | unpaired =>
    refine IsWhole.unpaired.readsBack_of_succ fun fuel rest _ _ => ?_
    rw [renderChars]
    exact readValue?_renderName none fuel rest
  | array h ih =>
    refine (IsWhole.array h).readsBack_of_succ fun fuel rest hfuel _ => ?_
    rw [renderChars] at hfuel ⊢
    simp only [List.length_append, List.length_cons, List.length_nil] at hfuel
    rw [List.append_assoc, List.singleton_append]
    exact readValue?_array (fun j hj => ⟨h j hj, ih j hj⟩) (by omega) rest
  | object h ih =>
    refine (IsWhole.object h).readsBack_of_succ fun fuel rest hfuel _ => ?_
    rw [renderChars] at hfuel ⊢
    simp only [List.length_append, List.length_cons, List.length_nil] at hfuel
    rw [List.append_assoc, List.singleton_append]
    exact readValue?_object (fun field hfield => ⟨h field hfield, ih field hfield⟩) (by omega) rest

/-- **Writing a value whose numbers are integers and reading the text gives the value.** -/
theorem parse?_render (h : j.IsWhole) : parse? j.render = some j := by
  have hread := h.readsBack ((renderChars j).length + 1) [] (Nat.le_succ _) .text
  rw [List.append_nil] at hread
  simp only [parse?, render, String.toList_ofList, h.leads.skip, hread]
  rfl

/-! ### Lists and records -/

theorem mapM_map_eq_some {α β γ : Type} {read : β → Option γ} {write : α → β} {f : α → γ}
    {as : List α} (h : ∀ a ∈ as, read (write a) = some (f a)) :
    (as.map write).mapM read = some (as.map f) := by
  induction as with
  | nil => rfl
  | cons a as ih =>
    obtain ⟨ha, has⟩ := List.forall_mem_cons.mp h
    rw [List.map_cons, List.mapM_cons, ha, ih has]
    rfl

/-- A list is read back if its items are. -/
theorem listOf?_array {α : Type} {read : Json → Option α} {write : α → Json} {as : List α}
    (h : ∀ a ∈ as, read (write a) = some a) : listOf? read (.array (as.map write)) = some as := by
  have hread := mapM_map_eq_some (f := id) h
  rwa [List.map_id] at hread

theorem natBelow?_integer {n bound : Nat} (h : n < bound) :
    natBelow? bound (.integer n) = some n := by
  rw [natBelow?, if_pos ⟨Int.natCast_nonneg n, Int.ofNat_lt.mpr h⟩, Int.toNat_natCast]

theorem required_some {α : Type} {read : Json → Option α} {a : α} (h : read j = some a) :
    required read (some j) = some a := by
  rw [required, Option.bind_some, h]

theorem optional_some {α : Type} {read : Json → Option α} {a fallback : α}
    (h : read j = some a) : optional fallback read (some j) = some a := by
  rw [optional, h]

/-- A component is looked for by its name. -/
theorem filter_record {fields : List (String × Json)} {field : String × Json}
    (hnames : (fields.map Prod.fst).Nodup) (hfield : field ∈ fields) :
    (fields.map fun field => (some field.1, field.2)).filter (·.1 == some field.1) =
      [(some field.1, field.2)] := by
  induction fields with
  | nil => cases hfield
  | cons other fields ih =>
    obtain ⟨hother, hnames⟩ := List.nodup_cons.mp hnames
    obtain rfl | hfield := List.mem_cons.mp hfield
    · have hrest : (fields.map fun field => (some field.1, field.2)).filter
          (·.1 == some field.1) = [] := by
        simp only [List.filter_eq_nil_iff, List.forall_mem_map, beq_iff_eq, Option.some.injEq]
        exact fun f hf heq => hother (heq ▸ List.mem_map_of_mem hf)
      rw [List.map_cons, List.filter_cons, if_pos (beq_self_eq_true (some field.1)), hrest]
    · have hne : ¬(some other.1 == some field.1) = true := fun heq =>
        hother (Option.some.inj (eq_of_beq heq) ▸ List.mem_map_of_mem hfield)
      rw [List.map_cons, List.filter_cons, if_neg hne, ih hnames hfield]

/-- **A record is read back from its fields**, in the order of their names. -/
theorem components?_record {fields : List (String × Json)}
    (hnames : (fields.map Prod.fst).Nodup) :
    (record fields).components? (fields.map Prod.fst) =
      some (fields.map fun field => some field.2) := by
  have hall : (fields.map fun field => (some field.1, field.2)).all (·.1.isSome) = true := by
    simp
  rw [record, components?, if_pos hall]
  refine mapM_map_eq_some fun field hfield => ?_
  rw [component?, filter_record hnames hfield]

end KeyLight.Json
