import KeyLight.Layout.Json
import KeyLight.Proofs.Environment.Lease
import KeyLight.Proofs.Machine.Answering
import KeyLight.Proofs.World.Comparison

/-!
# Handles on keys and groups never dangle

The boards of a host are numbered and pruned, whether they are put together or read from a text, and
every handle on a key or a group that scripts come to hold names a place that its board has. So as
long as the board and the lease last, the handle stands for the key or the group at that place, all
of its fields can be read, and the number of a key leads back to it (`key_handles_never_dangle`).
-/

namespace KeyLight

namespace World

variable {w : World} {first n : Nat} {k : Keyboard}

/-- The place that a handle on a key names, and the number of the key there. -/
theorem Leases.exists_key (hw : w.Leases first) {h : KeyHandle}
    (ho : w.heap.objects[n]? = some (.key h)) (hk : w.host.board? h.board.board = some k) :
    ∃ key, k.key? h.index = some key ∧ key.index = h.index := by
  have hhas : w.host.Has h.board.loan.thing := Option.isSome_iff_exists.mpr ⟨k, hk⟩
  obtain ⟨x, hx⟩ := (hw.backs n _ _ ho rfl).found hhas
  obtain ⟨key, hkey, -⟩ := Option.map_eq_some_iff.mp hx
  obtain ⟨k', hk', hkey⟩ := Option.bind_eq_some_iff.mp hkey
  obtain rfl := Option.some.inj (hk'.symm.trans hk)
  exact ⟨key, hkey, (hw.normal _ _ hk).numbered _ _ hkey⟩

/-- The place that a handle on a group names, and the entries of the group there. -/
theorem Leases.exists_group (hw : w.Leases first) {h : GroupHandle}
    (ho : w.heap.objects[n]? = some (.group h)) (hk : w.host.board? h.board.board = some k) :
    ∃ g, k.group? h.index = some g ∧ ∀ i ∈ g.keys, i < k.size := by
  have hhas : w.host.Has h.board.loan.thing := Option.isSome_iff_exists.mpr ⟨k, hk⟩
  obtain ⟨x, hx⟩ := (hw.backs n _ _ ho rfl).found hhas
  obtain ⟨g, hg, -⟩ := Option.map_eq_some_iff.mp hx
  obtain ⟨k', hk', hg⟩ := Option.bind_eq_some_iff.mp hg
  obtain rfl := Option.some.inj (hk'.symm.trans hk)
  exact ⟨g, hg, (hw.normal _ _ hk).pruned g (List.mem_of_getElem? hg)⟩

/-- An object is a handle on a key and answers as such. -/
structure AnswersKey (w : World) (n : Nat) (key : Key) : Prop where
  fields : ∀ name ∈ keyFieldNames, w.index (.object n) (.ofString name) =
    .ok (.value ((keyField? key name).getD .nil))
  text : w.text (.object n) = .ok (Utf8.encode ("Key(" ++ key.name ++ ")"))
  unrefused : ∀ place scope frames (a : Access), a.subject = .object n →
    ¬Machine.ReportsStale (Machine.access place w scope frames a)

/-- An object is a handle on a group of a board and answers as such. -/
structure AnswersGroup (w : World) (n : Nat) (b : BoardHandle) (g : KeyGroup) : Prop where
  name : w.index (.object n) (.ofString "name") = .ok (.value (.ofString g.name))
  length : w.length (.object n) = .ok g.keys.length
  items : ∀ key i, key.number?.isSome → key.index? = some i → w.index (.object n) key =
    .ok (.ofOption (g.keys[i]?.map fun index => .key (b.key index)))
  contains : ∀ arg h more, w.heap.object? arg = some (.key h) →
    w.readMethod .contains (.object n :: arg :: more) =
      .ok (.value (.bool (h.board.board == b.board && g.keys.contains h.index)))
  text : w.text (.object n) = .ok (Utf8.encode ("KeyGroup(" ++ g.name ++ ")"))
  unrefused : ∀ place scope frames (a : Access), a.subject = .object n →
    ¬Machine.ReportsStale (Machine.access place w scope frames a)

theorem answersKey {h : KeyHandle} {key : Key} (ho : w.heap.objects[n]? = some (.key h))
    (hkey : w.key h = .ok key) : w.AnswersKey n key where
  fields := fun _ hname => index_key_field (v := .object n) ho hkey hname
  text := by
    rw [text_object (v := .object n) ho, objectText, hkey]
    rfl
  unrefused := fun _ _ _ a ha => by
    have ho : w.heap.object? a.subject = some (.key h) := ha ▸ ho
    exact Machine.not_reportsStale_key ho hkey

theorem answersGroup {h : GroupHandle} {g : KeyGroup}
    (ho : w.heap.objects[n]? = some (.group h)) (hg : w.group h = .ok g) :
    w.AnswersGroup n h.board g where
  name := by
    have hread : w.field? (.group h) "name" = some ((w.group h).map fun g => .ofString g.name) := by
      rw [field?, if_pos rfl]
    rw [index_field (v := .object n) ho (by decide) hread, hg]
    rfl
  length := by
    rw [length_object (v := .object n) ho, objectLength, hg]
    rfl
  items := fun key i hnumber hi => by
    rw [index_number (v := .object n) ho hnumber, item, groupItem, hi, hg]
    rfl
  contains := fun arg k more hk => by
    rw [readMethod_contains (v := .object n) ho hk, hasKey, hg]
    cases k.board.board == h.board.board <;> rfl
  text := by
    rw [text_object (v := .object n) ho, objectText, hg]
    rfl
  unrefused := fun _ _ _ a ha => by
    have ho : w.heap.object? a.subject = some (.group h) := ha ▸ ho
    exact Machine.not_reportsStale_group ho hg

/-- **The number of a key leads back to it**, through any live handle on its board. -/
theorem index_number_eq_key {h : KeyHandle} {key : Key} {v : Value} {b : BoardHandle}
    (ho : w.heap.objects[n]? = some (.key h)) (hk : w.host.board? h.board.board = some k)
    (hkey : k.key? h.index = some key) (hindex : key.index = h.index)
    (hnumber : h.index + 1 < Binary64.exactBound) (hv : w.heap.object? v = some (.board b))
    (hboard : b.board = h.board.board) (hlive : b.lease = w.context.generation) :
    ∃ h' : KeyHandle, w.index v (.ofNat (h.index + 1)) = .ok (.object (.key h')) ∧
      (w.newObject (.key h')).2.equal (w.newObject (.key h')).1 (.object n) = .ok true := by
  have hb : w.board b = .ok k := Realm.board_of_live hlive (hboard ▸ hk)
  refine ⟨b.key key.index, index_board_key hv hb hkey hnumber, ?_⟩
  have hnew := w.object?_newObject (.key (b.key key.index))
  have hold := object?_newObject_of_some (v := .object n) ho (.key (b.key key.index))
  rw [equal_keys_eq hnew hold, decide_eq_true ⟨hboard, hindex⟩]

end World

namespace Environment

variable {e : Environment} {w : World}

/-- A board that is read from a text is numbered and pruned, so the host can add it. -/
theorem serves_addBoard_of_ofText? {text : String} {k : Keyboard}
    (h : Keyboard.ofText? text = some k) :
    e.Serves .other (e.withHost (e.world.host.addBoard k).2) := by
  obtain ⟨j, -, hgiven⟩ := Option.bind_eq_some_iff.mp h
  obtain ⟨given, -, hnormal⟩ := Option.bind_eq_some_iff.mp hgiven
  obtain rfl := Option.some.inj hnormal
  exact .withHost (.addBoard given.keys given.groups)

/-- **Handles on keys and groups never dangle.** Take any world in the course of a script that runs
after a row of calls, among which the host may have added boards that it read or put together.

A handle on a key that is found there names a place that its board has, if the host still has the
board, and the number of the key at that place is the place. If the lease lasts, too, then the
handle stands for that key: its fields and its text are those of the key, and no access to it
reports a stale handle. The number that scripts see is the place counted from one, and a live handle
on the board holds an equal key at it. (Numbers that are not less than `2 ^ 53` are rounded; no
board has as many keys.)

Likewise a handle on a group names a group that its board has, all of whose entries are places of
the board, and answers with its name, its length, its entries and its text. -/
theorem key_handles_never_dangle {config : Config} {calls : List HostCall}
    (hcalls : (start .empty config).Service calls e) (hmoves : e.world.Moves w) :
    (∀ text k, Keyboard.ofText? text = some k →
      e.Serves .other (e.withHost (e.world.host.addBoard k).2)) ∧
    (∀ (n : Nat) (h : KeyHandle) (k : Keyboard), w.heap.objects[n]? = some (.key h) →
      w.host.board? h.board.board = some k →
      h.index < k.size ∧ ∃ key, k.key? h.index = some key ∧ key.index = h.index ∧
        (h.board.lease = w.context.generation →
          w.key h = .ok key ∧ w.AnswersKey n key ∧
          w.index (.object n) (.ofString "index") = .ok (.value (.ofNat (h.index + 1))) ∧
          (h.index + 1 < Binary64.exactBound → ∀ v b, w.heap.object? v = some (.board b) →
            b.board = h.board.board → b.lease = w.context.generation →
            ∃ h' : KeyHandle, w.index v (.ofNat (h.index + 1)) = .ok (.object (.key h')) ∧
              (w.newObject (.key h')).2.equal (w.newObject (.key h')).1 (.object n) =
                .ok true))) ∧
    ∀ (n : Nat) (h : GroupHandle) (k : Keyboard), w.heap.objects[n]? = some (.group h) →
      w.host.board? h.board.board = some k →
      ∃ g, k.group? h.index = some g ∧ (∀ i ∈ g.keys, i < k.size) ∧
        (h.board.lease = w.context.generation →
          w.group h = .ok g ∧ w.AnswersGroup n h.board g) := by
  obtain ⟨first, hleases⟩ := hcalls.exists_leases (leases_start config)
  have hw : w.Leases first := hmoves.leases hleases
  refine ⟨fun _ _ => serves_addBoard_of_ofText?, fun n h k ho hk => ?_, fun n h k ho hk => ?_⟩
  · obtain ⟨key, hkey, hindex⟩ := hw.exists_key ho hk
    refine ⟨(List.getElem?_eq_some_iff.mp hkey).1, key, hkey, hindex, fun hlive => ?_⟩
    have hfound : w.key h = .ok key := Realm.key_of_live hlive hk hkey
    have hanswers := World.answersKey ho hfound
    refine ⟨hfound, hanswers, ?_, fun hnumber v b hv hboard hb => ?_⟩
    · rw [hanswers.fields "index" List.mem_cons_self, ← hindex]
      rfl
    · exact World.index_number_eq_key ho hk hkey hindex hnumber hv hboard hb
  · obtain ⟨g, hg, hentries⟩ := hw.exists_group ho hk
    refine ⟨g, hg, hentries, fun hlive => ?_⟩
    have hfound : w.group h = .ok g := Realm.group_of_live hlive hk hg
    exact ⟨hfound, World.answersGroup ho hfound⟩

/-- An environment whose scripts are given a board of two keys and a group with an entry too many.
-/
def lettered : Environment :=
  let board := Keyboard.normal [⟨7, 1, "Esc", .zero⟩, ⟨7, 2, "A", .zero⟩] [⟨"all", [1, 9]⟩]
  ((start .empty {}).withHost (Host.empty.addBoard board).2).setBoard 0

/-- The same after the script is told of the second key and is given the group. -/
def pressed : Environment :=
  (((lettered.keyEvent 0 1 true).map (·.2)).getD lettered).giveObject "g" (.group ⟨⟨0, 0⟩, 0⟩)

theorem service_pressed :
    (start .empty {}).Service [.other, .setBoard 0, .other, .other] pressed := by
  have hlettered : (start .empty {}).Service [.other, .setBoard 0] lettered :=
    (Service.nil.snoc (.withHost (.addBoard _ _))).snoc (.setBoard rfl)
  have hkey : lettered.keyEvent 0 1 true =
      some (.ok false, ((lettered.keyEvent 0 1 true).map (·.2)).getD lettered) := rfl
  refine (hlettered.snoc (.keyEvent hkey)).snoc (.giveObject "g" fun loan hloan => ?_)
  obtain rfl := Option.some.inj hloan
  exact ⟨rfl, rfl, _, rfl⟩

/-- The key that the script was told of has the number two, and the board holds it there. The entry
of the group that no key has is dropped. -/
theorem key_handles_never_dangle_pressed :
    pressed.world.index (.object 1) (.ofString "index") = .ok (.value (.ofNat 2)) ∧
    (∃ h' : KeyHandle, pressed.world.index (.object 0) (.ofNat 2) = .ok (.object (.key h')) ∧
      (pressed.world.newObject (.key h')).2.equal (pressed.world.newObject (.key h')).1
        (.object 1) = .ok true) ∧
    pressed.world.length (.object 2) = .ok 1 := by
  obtain ⟨-, hkeys, hgroups⟩ := key_handles_never_dangle service_pressed (.refl pressed.world)
  obtain ⟨-, key, -, -, hlive⟩ := hkeys 1 ⟨⟨0, 0⟩, 1⟩ _ rfl rfl
  obtain ⟨-, -, hnumber, hequal⟩ := hlive rfl
  obtain ⟨g, hg, -, hlive⟩ := hgroups 2 ⟨⟨0, 0⟩, 0⟩ _ rfl rfl
  obtain ⟨-, hanswers⟩ := hlive rfl
  obtain rfl : _ = g := Option.some.inj hg
  exact ⟨hnumber, hequal (by decide) (.object 0) ⟨0, 0⟩ rfl rfl rfl, hanswers.length⟩

end Environment

end KeyLight
