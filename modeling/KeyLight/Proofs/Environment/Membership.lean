import KeyLight.Proofs.Environment.Keys
import KeyLight.Proofs.Machine.Membership

/-!
# Groups and their keys in the course of a script

A group that is asked whether it contains a key, a group that is read entry by entry and two keys
that are compared agree with one another (`membership_indexing_equality_agree`). Keys can be
compared whenever they were leased, so a key that a script kept while the controller was away is
still found among those of the groups that the script is given later.
-/

namespace KeyLight.Environment

variable {e : Environment} {w : World}

/-- **Membership, indexing and equality of keys agree.** Take any world in the course of a script
that runs after a row of calls of the host. All boards are put together from keys and groups, also
those that are read from a text.

The length of a live handle on a group is the number of the entries of the given group that denote
keys. At each number from one to the length the handle gives a live handle on a key of the board. It
can be asked for any handle on a key. (Numbers that are not less than `2 ^ 53` are rounded; no group
has as many entries.)

A handle on a group, live or stale, contains a key exactly if there is a number from one to its
length at which it gives an equal key. The handle on the key can be one on another board, and a
stale one.

Two handles on keys are equal exactly if they name one place of one board, whenever and in whatever
way scripts were given them, and equality of handles on keys is an equivalence. -/
theorem membership_indexing_equality_agree {config : Config} {calls : List HostCall}
    (hcalls : (start .empty config).Service calls e) (hmoves : e.world.Moves w)
    (place : Place) (scope : Scope) (frames : List Frame) :
    (∀ text k, Keyboard.ofText? text = some k → ∃ keys groups, k = .normal keys groups) ∧
    (∀ (n : Nat) (h : GroupHandle) keys groups, w.heap.objects[n]? = some (.group h) →
      w.host.board? h.board.board = some (.normal keys groups) →
      h.board.lease = w.context.generation →
      ∃ given count, groups[h.index]? = some given ∧
        count = given.keys.countP (· < keys.length) ∧
        Machine.access place w scope frames (.length (.object n)) =
          .running w (.give (.ofNat count)) frames ∧
        (count < Binary64.exactBound → ∀ i, 1 ≤ i → i ≤ count → ∃ key found,
          Machine.access place w scope frames (.index (.object n) (.ofNat i)) =
            .running (w.newObject (.key key)).2 (.give (w.newObject (.key key)).1) frames ∧
          key.board = h.board ∧ w.key key = .ok found) ∧
        ∀ (m : Nat) (key : KeyHandle) more, w.heap.objects[m]? = some (.key key) → ∃ b,
          Machine.access place w scope frames (.call .contains (.object n) (.object m) more) =
            .running w (.give (.bool b)) frames) ∧
    (∀ (n m : Nat) (h : GroupHandle) (key : KeyHandle) more,
      w.heap.objects[n]? = some (.group h) → w.heap.objects[m]? = some (.key key) →
      (∀ g, w.group h = .ok g → g.keys.length < Binary64.exactBound) →
      w.index (.object n) (.ofString "contains") = .ok (.value (.builtin (.method .contains))) ∧
      (Machine.access place w scope frames (.call .contains (.object n) (.object m) more) =
          .running w (.give (.bool true)) frames ↔
        ∃ count i, w.length (.object n) = .ok count ∧ 1 ≤ i ∧ i ≤ count ∧ ∃ item w',
          Machine.access place w scope frames (.index (.object n) (.ofNat i)) =
            .running w' (.give item) frames ∧
          Machine.equate place w' scope frames item (.object m) =
            .running w' (.give (.bool true)) frames)) ∧
    (∀ (n m : Nat) (key key' : KeyHandle), w.heap.objects[n]? = some (.key key) →
      w.heap.objects[m]? = some (.key key') →
      Machine.equate place w scope frames (.object n) (.object m) = .running w (.give
        (.bool (decide (key.board.board = key'.board.board ∧ key.index = key'.index)))) frames) ∧
    Equivalence fun a b : { v : Value // ∃ h, w.heap.object? v = some (.key h) } =>
      w.equal a b = .ok true := by
  obtain ⟨first, hleases⟩ := hcalls.exists_leases (leases_start config)
  have hw : w.Leases first := hmoves.leases hleases
  have hobject (n : Nat) {o : Object} (ho : w.heap.objects[n]? = some o) :
      w.heap.object? (.object n) = some o := ho
  refine ⟨fun text k hk => ?_, fun n h keys groups ho hk hlive => ?_,
    fun n m h key more ho hkey hsize => ⟨?_, ?_⟩, fun n m key key' hkey hkey' => ?_,
    World.equivalence_equal_keys w⟩
  · obtain ⟨j, -, hgiven⟩ := Option.bind_eq_some_iff.mp hk
    obtain ⟨given, -, hnormal⟩ := Option.bind_eq_some_iff.mp hgiven
    exact ⟨given.keys, given.groups, (Option.some.inj hnormal).symm⟩
  · obtain ⟨g, hg, hentries⟩ := hw.exists_group ho hk
    have hfound : w.group h = .ok g := Realm.group_of_live hlive hk hg
    obtain ⟨given, hgiven, hkeys⟩ := Keyboard.group?_normal hg
    have hcount : g.keys.length = given.keys.countP (· < keys.length) := by
      rw [hkeys, List.countP_eq_length_filter]
    refine ⟨given, g.keys.length, hgiven, hcount, ?_, fun hsize i hfirst hlast => ?_,
      fun m key more hkey => ?_⟩
    · rw [Machine.access_length, World.length_object (hobject n ho), World.objectLength, hfound]
      rfl
    · obtain ⟨j, rfl⟩ := Nat.exists_eq_add_of_le' hfirst
      have hj : g.keys[j]? = some g.keys[j] := List.getElem?_eq_getElem hlast
      have hplace := hentries _ (List.getElem_mem hlast)
      exact ⟨_, _, Machine.access_group_item (hobject n ho) hfound hw.normal hsize hj, rfl,
        Realm.key_of_live hlive hk (List.getElem?_eq_getElem hplace)⟩
    · obtain ⟨b, hb⟩ := World.exists_hasKey hfound key
      refine ⟨b, ?_⟩
      rw [Machine.access_contains (hobject n ho) (hobject m hkey), hb]
      rfl
  · exact World.index_method (m := .contains) (hobject n ho) rfl
  · exact Machine.access_contains_iff (hobject n ho) (hobject m hkey) hw.normal hsize more
  · rw [Machine.equate_eq, World.equal_keys_eq (hobject n hkey) (hobject m hkey')]
    rfl

/-- An environment whose script kept a key while the controller was away. It is told of the same key
again, and is given the group again. -/
def returned : Environment :=
  let e := (pressed.withHost (pressed.world.host.addController .literal).2).detach.2.attach 0
  (((e.keyEvent 0 1 true).map (·.2)).getD e).giveObject "g" (.group ⟨⟨0, 1⟩, 0⟩)

theorem service_returned : (start .empty {}).Service
    [.other, .setBoard 0, .other, .other, .other, .detach, .attach, .other, .other] returned := by
  let e := (pressed.withHost (pressed.world.host.addController .literal).2).detach.2.attach 0
  have hattached := ((service_pressed.snoc (.withHost (.addController .literal))).snoc
    .detach).snoc (.attach 0)
  have hkey : e.keyEvent 0 1 true =
      some (.ok false, ((e.keyEvent 0 1 true).map (·.2)).getD e) := rfl
  refine (hattached.snoc (.keyEvent hkey)).snoc (.giveObject "g" fun loan hloan => ?_)
  obtain rfl := Option.some.inj hloan
  exact ⟨rfl, rfl, _, rfl⟩

/-- The group that is given last has one key. It contains the key that the script kept, which is
equal to the one that the script is told of last. -/
theorem membership_indexing_equality_agree_returned :
    let w := returned.world
    Machine.access .main w [] [] (.length (.object 5)) =
      .running w (.give (.ofNat 1)) [] ∧
    Machine.access .main w [] [] (.call .contains (.object 5) (.object 1) []) =
      .running w (.give (.bool true)) [] ∧
    Machine.equate .main w [] [] (.object 1) (.object 4) =
      .running w (.give (.bool true)) [] := by
  intro w
  obtain ⟨-, hgroup, hcontains, hequal, -⟩ :=
    membership_indexing_equality_agree service_returned (.refl w) .main [] []
  have hg : w.group ⟨⟨0, 1⟩, 0⟩ = .ok ⟨"all", [1]⟩ := rfl
  obtain ⟨given, count, hgiven, hcount, hlength, -⟩ := hgroup 5 ⟨⟨0, 1⟩, 0⟩
    [⟨7, 1, "Esc", .zero⟩, ⟨7, 2, "A", .zero⟩] [⟨"all", [1, 9]⟩] rfl rfl rfl
  obtain rfl : _ = given := Option.some.inj hgiven
  obtain rfl : count = 1 := hcount
  refine ⟨hlength, ?_, hequal 1 4 ⟨⟨0, 0⟩, 1⟩ ⟨⟨0, 1⟩, 1⟩ rfl rfl⟩
  have hsize : ∀ g, w.group ⟨⟨0, 1⟩, 0⟩ = .ok g → g.keys.length < Binary64.exactBound := by
    intro g hfound
    obtain rfl := Except.ok.inj (hg.symm.trans hfound)
    decide
  refine (hcontains 5 1 ⟨⟨0, 1⟩, 0⟩ ⟨⟨0, 0⟩, 1⟩ [] rfl rfl hsize).2.mpr
    ⟨1, 1, rfl, Nat.le_refl 1, Nat.le_refl 1, _, _, rfl, rfl⟩

end KeyLight.Environment
