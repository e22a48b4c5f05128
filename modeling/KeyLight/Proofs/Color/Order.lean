import KeyLight.Config
import KeyLight.Proofs.Color.Lookup

/-!
# The order of configured names

The names of a configuration are a map, whose entries have no order of their own, and a palette takes
them one after the other. The order shows just where two entries clash: both are accepted, their
names are the same in lower case, and their colours differ (`Palette.parse?_extend_perm_iff`). Then
the one that comes last counts, so what a text is resolved to is not determined by the map.
-/

namespace KeyLight

namespace Palette

variable {p : Palette} {entries es : List (String × String)} {text : String} {c : Rgb}

/-- An entry offers a colour for a text: it is accepted, and the text asks for its name. -/
def Offers (text : String) (e : String × String) (c : Rgb) : Prop :=
  Rgb.parse e.2 = (c, true) ∧ AsksFor text e.1

theorem exists_offers_iff :
    (∃ e ∈ entries, Offers text e c) ↔ (Text.lookupForm text, c) ∈ additions entries := by
  rw [mem_additions]
  exact exists_congr fun e => and_congr_right fun _ => and_congr_right fun _ =>
    asksFor_iff.trans eq_comm

/-- What is found under a name does not depend on the order if all entries of the name are alike. -/
theorem lookup_congr {α β : Type} [BEq α] [LawfulBEq α] {l l' : List (α × β)} {key : α}
    (hmem : ∀ b, (key, b) ∈ l ↔ (key, b) ∈ l')
    (hsame : ∀ b b', (key, b) ∈ l → (key, b') ∈ l → b = b') : l.lookup key = l'.lookup key := by
  have hfound {l : List (α × β)} {b : β} (h : l.lookup key = some b) : (key, b) ∈ l := by
    obtain ⟨before, after, rfl, -⟩ := List.lookup_eq_some_iff.mp h
    exact List.mem_append_right _ List.mem_cons_self
  have hlost {l : List (α × β)} (h : l.lookup key = none) (b : β) : (key, b) ∉ l := fun hb => by
    simpa using List.lookup_eq_none_iff.mp h (key, b) hb
  cases h : l.lookup key with
  | none =>
    cases h' : l'.lookup key with
    | none => rfl
    | some b' => exact absurd ((hmem b').mpr (hfound h')) (hlost h b')
  | some b =>
    cases h' : l'.lookup key with
    | none => exact absurd ((hmem b).mp (hfound h)) (hlost h' b)
    | some b' => exact congrArg some (hsame b b' (hfound h) ((hmem b').mpr (hfound h')))

/-- Every entry can be the last one. -/
theorem exists_perm_append {e : String × String} (he : e ∈ entries) :
    ∃ before, (before ++ [e]).Perm entries :=
  ⟨entries.erase e, (List.perm_append_singleton e _).trans (List.perm_cons_erase he).symm⟩

theorem parse?_extend_of_last {before : List (String × String)} {e : String × String}
    (he : Offers text e c) : (p.extend (before ++ [e])).parse? text = some (Rgba.solid c) :=
  parse?_extend_of_asksFor he.1 (fun _ hd => nomatch hd) he.2

/-- **The order of the entries counts for a text just if** two of them offer different colours for
it. -/
theorem parse?_extend_perm_iff (p : Palette) (entries : List (String × String)) (text : String) :
    (∀ es, es.Perm entries → (p.extend es).parse? text = (p.extend entries).parse? text) ↔
      ∀ e ∈ entries, ∀ e' ∈ entries, ∀ c c', Offers text e c → Offers text e' c' → c = c' := by
  constructor
  · intro hall e he e' he' c c' hoffer hoffer'
    obtain ⟨before, hperm⟩ := exists_perm_append he
    obtain ⟨before', hperm'⟩ := exists_perm_append he'
    have hsolid : some (Rgba.solid c) = some (Rgba.solid c') := by
      rw [← parse?_extend_of_last (p := p) hoffer, hall _ hperm, ← hall _ hperm',
        parse?_extend_of_last hoffer']
    exact congrArg Rgba.rgb (Option.some.inj hsolid)
  · intro halike es hperm
    refine parse?_congr ?_
    rw [find?_extend, find?_extend]
    refine congrArg (Option.or · _) (lookup_congr (fun b => ?_) fun b b' hb hb' => ?_)
    · rw [List.mem_reverse, List.mem_reverse]
      exact (hperm.filterMap _).mem_iff
    · obtain ⟨e, he, hoffer⟩ := exists_offers_iff.mpr (List.mem_reverse.mp hb)
      obtain ⟨e', he', hoffer'⟩ := exists_offers_iff.mpr (List.mem_reverse.mp hb')
      exact halike e (hperm.mem_iff.mp he) e' (hperm.mem_iff.mp he') b b' hoffer hoffer'

end Palette

namespace Config

variable {c c' : Config}

/-- Configurations that differ at most in the order in which the entries of the map are listed. -/
def SameUpToOrder (c c' : Config) : Prop :=
  c'.defaultEasing = c.defaultEasing ∧ c'.palette.Perm c.palette

theorem nodup_literalsOfJson? {j : Json} {entries : List (String × String)}
    (h : literalsOfJson? j = some entries) : (entries.map Prod.fst).Nodup := by
  obtain ⟨fields, -, h⟩ := Option.bind_eq_some_iff.mp h
  obtain ⟨given, -, h⟩ := Option.bind_eq_some_iff.mp h
  obtain rfl := Option.some.inj h
  exact List.foldlRecOn (motive := fun es => (es.map Prod.fst).Nodup) (b := []) given putLiteral
    List.nodup_nil fun es hes e _ => Palette.nodup_fst_put hes e

/-- The map of a configuration that is read from a text has each name once. -/
theorem nodup_of_ofText? {text : String} (h : ofText? text = some c) :
    (c.palette.map Prod.fst).Nodup := by
  obtain ⟨j, -, h⟩ := Option.bind_eq_some_iff.mp h
  obtain ⟨components, -, h⟩ := Option.bind_eq_some_iff.mp h
  split at h
  · rename_i easing palette
    obtain ⟨e, -, h⟩ := Option.bind_eq_some_iff.mp h
    obtain ⟨entries, hentries, h⟩ := Option.bind_eq_some_iff.mp h
    obtain rfl := Option.some.inj h
    cases palette with
    | none =>
      obtain rfl := Option.some.inj hentries
      exact List.nodup_nil
    | some j => exact nodup_literalsOfJson? hentries
  · cases h

/-- **A configuration determines what a text is resolved to, unless two of its entries clash** over
that text: both are accepted, the text asks for the names of both, and their colours differ. So all
is determined if the names are still distinct in lower case. The names themselves are distinct in
every configuration that is read from a text. -/
theorem colors_determined_unless_clash (c : Config) :
    (∀ text, (∀ c', c.SameUpToOrder c' → c'.colors.parse? text = c.colors.parse? text) ↔
      ∀ e ∈ c.palette, ∀ e' ∈ c.palette, ∀ a b, Palette.Offers text e a →
        Palette.Offers text e' b → a = b) ∧
    ((c.palette.map fun e => Text.fold e.1.toList).Nodup → ∀ c', c.SameUpToOrder c' →
      ∀ text, c'.colors.parse? text = c.colors.parse? text) ∧
    ∀ text, ofText? text = some c → (c.palette.map Prod.fst).Nodup := by
  have hiff (text : String) : (∀ c', c.SameUpToOrder c' →
      c'.colors.parse? text = c.colors.parse? text) ↔
      ∀ e ∈ c.palette, ∀ e' ∈ c.palette, ∀ a b, Palette.Offers text e a →
        Palette.Offers text e' b → a = b := by
    rw [← Palette.parse?_extend_perm_iff Palette.standard]
    exact ⟨fun h es hes => h { c with palette := es } ⟨rfl, hes⟩, fun h c' hc' => h _ hc'.2⟩
  refine ⟨hiff, fun hdistinct c' hc' text => ?_, fun text => nodup_of_ofText?⟩
  refine (hiff text).mpr (fun e he e' he' a b hoffer hoffer' => ?_) c' hc'
  have hfold : Text.fold e.1.toList = Text.fold e'.1.toList :=
    String.ofList_inj.mp ((Palette.asksFor_iff.mp hoffer.2).symm.trans
      (Palette.asksFor_iff.mp hoffer'.2))
  obtain rfl := List.inj_on_of_nodup_map hdistinct he he' hfold
  exact (Prod.mk.inj (hoffer.1.symm.trans hoffer'.1)).1

/-- A configuration of two names that are the same in lower case. -/
def clashing : Config := { palette := [("Accent", "#111111"), ("accent", "#222222")] }

/-- The same configuration with the entries the other way round. -/
def swapped : Config := { palette := [("accent", "#222222"), ("Accent", "#111111")] }

/-- The two entries clash over the forms of their name, and not over a text that asks for neither. -/
theorem colors_determined_unless_clash_clashing :
    (¬∀ c', clashing.SameUpToOrder c' →
      c'.colors.parse? "ACCENT" = clashing.colors.parse? "ACCENT") ∧
    ∀ c', clashing.SameUpToOrder c' → c'.colors.parse? "red" = clashing.colors.parse? "red" := by
  obtain ⟨hiff, -⟩ := colors_determined_unless_clash clashing
  have hnone : ∀ e ∈ clashing.palette,
      ¬Text.sameName (String.ofList (Text.trim "red".toList)) e.1 = true := by decide
  refine ⟨fun hall => ?_, (hiff "red").mpr fun e he _ _ _ _ hoffer => absurd hoffer.2 (hnone e he)⟩
  have halike := (hiff "ACCENT").mp hall ("Accent", "#111111") (by decide) ("accent", "#222222")
    (by decide) ⟨0x11, 0x11, 0x11⟩ ⟨0x22, 0x22, 0x22⟩ ⟨by decide, rfl⟩ ⟨by decide, rfl⟩
  cases halike

/-- **Not every configuration determines its palette**, although its names are distinct. -/
theorem not_forall_colors_determined :
    ¬∀ c c' : Config, (c.palette.map Prod.fst).Nodup → c.SameUpToOrder c' →
      ∀ text, c'.colors.parse? text = c.colors.parse? text := by
  intro h
  have hsame := h clashing swapped (by decide) ⟨rfl, .swap _ _ []⟩ "accent"
  have hlast : clashing.colors.parse? "accent" = some ⟨0x22, 0x22, 0x22, 255⟩ := by decide
  have hfirst : swapped.colors.parse? "accent" = some ⟨0x11, 0x11, 0x11, 255⟩ := by decide
  cases hfirst.symm.trans (hsame.trans hlast)

end Config

end KeyLight
