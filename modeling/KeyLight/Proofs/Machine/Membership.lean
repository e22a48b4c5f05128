import KeyLight.Proofs.Machine.Answering
import KeyLight.Proofs.Machine.Comparison
import KeyLight.Proofs.Machine.Position

/-!
# The keys of a group

A group can be asked whether it contains a key, and it can be read entry by entry. Both come to the
same: a group contains a key exactly if the entry at one of its positions is equal to the key
(`Machine.access_contains_iff`). The entries of a group of a board that is put together from keys
and groups are those of the given group that denote keys (`Keyboard.group?_normal`).
-/

namespace KeyLight

/-- The groups of a board are the given ones, without the entries that denote no key. -/
theorem Keyboard.group?_normal {keys : List Key} {groups : List KeyGroup} {i : Nat} {g : KeyGroup}
    (hg : (normal keys groups).group? i = some g) :
    ∃ given, groups[i]? = some given ∧ g.keys = given.keys.filter (· < keys.length) := by
  simp only [normal, group?, List.getElem?_map, Option.map_eq_some_iff] at hg
  obtain ⟨given, hgiven, rfl⟩ := hg
  exact ⟨given, hgiven, rfl⟩

namespace World

variable {w : World} {v v' : Value} {h : GroupHandle} {k : KeyHandle} {g : KeyGroup}

theorem hasKey_iff : w.hasKey h k = .ok true ↔
    k.board.board = h.board.board ∧ ∃ g, w.group h = .ok g ∧ k.index ∈ g.keys := by
  unfold hasKey
  by_cases hboard : k.board.board = h.board.board
  · rw [hboard, beq_self_eq_true, if_pos rfl]
    cases w.group h with
    | error e => simp [Except.map]
    | ok g => simp [Except.map]
  · rw [if_neg (by simpa using hboard)]
    simp [hboard]

/-- A group that gives access can be asked for any key. -/
theorem exists_hasKey (hg : w.group h = .ok g) (k : KeyHandle) : ∃ b, w.hasKey h k = .ok b := by
  unfold hasKey
  rw [hg]
  split
  · exact ⟨_, rfl⟩
  · exact ⟨_, rfl⟩

end World

namespace Machine

variable {place : Place} {w : World} {scope : Scope} {frames : List Frame} {v v' : Value}
variable {h : GroupHandle} {k : KeyHandle} {g : KeyGroup}

theorem access_contains (hv : w.heap.object? v = some (.group h))
    (hk : w.heap.object? v' = some (.key k)) (more : List Value) :
    access place w scope frames (.call .contains v v' more) =
      reply w frames (((w.hasKey h k).map .bool).mapError .call) := by
  rw [access_call (m := .contains) nofun, World.readMethod_contains hv hk]
  cases w.hasKey h k <;> rfl

/-- A group gives its entries as keys of its board. -/
theorem access_group_item (hv : w.heap.object? v = some (.group h)) (hg : w.group h = .ok g)
    (hnormal : w.host.Normal) (hsize : g.keys.length < Binary64.exactBound) {i index : Nat}
    (hi : g.keys[i]? = some index) :
    access place w scope frames (.index v (.ofNat (i + 1))) =
      .running (w.newObject (.key (h.board.key index))).2
        (.give (w.newObject (.key (h.board.key index))).1) frames := by
  have hlt : i < g.keys.length := (List.getElem?_eq_some_iff.mp hi).1
  have hbound : i + 1 < Binary64.exactBound := by omega
  have hrow : (g.keys.map fun index => Object.key (h.board.key index))[i]? =
      some (.key (h.board.key index)) := by
    rw [List.getElem?_map, hi]
    rfl
  have hnumber : (Value.ofNat (i + 1)).IsInteger (i + 1 : Nat) :=
    (Value.index?_eq_some_iff hbound).mp (Value.index?_ofNat hbound)
  exact (access_index_row (.group hv hg) hnormal (by rwa [List.length_map]) rfl).1 i _ hrow hnumber

/-- **A group contains a key exactly if it has an equal key at one of its positions.** -/
theorem access_contains_iff (hv : w.heap.object? v = some (.group h))
    (hk : w.heap.object? v' = some (.key k)) (hnormal : w.host.Normal)
    (hsize : ∀ g, w.group h = .ok g → g.keys.length < Binary64.exactBound) (more : List Value) :
    access place w scope frames (.call .contains v v' more) =
        .running w (.give (.bool true)) frames ↔
      ∃ n i, w.length v = .ok n ∧ 1 ≤ i ∧ i ≤ n ∧ ∃ item w',
        access place w scope frames (.index v (.ofNat i)) = .running w' (.give item) frames ∧
        equate place w' scope frames item v' = .running w' (.give (.bool true)) frames := by
  have hanswer : access place w scope frames (.call .contains v v' more) =
      .running w (.give (.bool true)) frames ↔ w.hasKey h k = .ok true := by
    rw [access_contains hv hk]
    cases w.hasKey h k with
    | error e => exact iff_of_false nofun nofun
    | ok b =>
      change Next.running w (.give (.bool b)) frames = _ ↔ _
      simp
  have hlength : w.length v = ((w.group h).map (·.keys.length)).mapError .call :=
    World.length_object hv
  rw [hanswer, World.hasKey_iff]
  constructor
  · rintro ⟨hboard, g, hg, hmem⟩
    obtain ⟨i, hi⟩ := List.getElem?_of_mem hmem
    have hlt : i < g.keys.length := (List.getElem?_eq_some_iff.mp hi).1
    refine ⟨g.keys.length, i + 1, by rw [hlength, hg]; rfl, by omega, by omega, _, _,
      access_group_item hv hg hnormal (hsize g hg) hi, ?_⟩
    exact (equate_eq_true_iff ..).mpr ((World.equal_keys_iff (w.object?_newObject _)
      (World.object?_newObject_of_some hk _)).mpr ⟨hboard.symm, rfl⟩)
  · rintro ⟨n, i, hn, hfirst, hlast, item, w', hitem, hequal⟩
    rw [hlength] at hn
    cases hg : w.group h with
    | error e => rw [hg] at hn; cases hn
    | ok g =>
      rw [hg] at hn
      obtain rfl : g.keys.length = n := Except.ok.inj hn
      obtain ⟨j, rfl⟩ := Nat.exists_eq_add_of_le' hfirst
      have hj : g.keys[j]? = some g.keys[j] := List.getElem?_eq_getElem hlast
      rw [access_group_item hv hg hnormal (hsize g hg) hj] at hitem
      obtain ⟨hw, hgiven⟩ : (w.newObject (.key (h.board.key g.keys[j]))).2 = w' ∧
          (w.newObject (.key (h.board.key g.keys[j]))).1 = item := by
        simpa using hitem
      subst hw hgiven
      obtain ⟨hboard, hindex⟩ := (World.equal_keys_iff (w.object?_newObject _)
        (World.object?_newObject_of_some hk _)).mp ((equate_eq_true_iff ..).mp hequal)
      exact ⟨hboard.symm, g, rfl, hindex ▸ List.getElem_mem hlast⟩

end Machine

end KeyLight
