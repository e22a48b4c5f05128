import KeyLight.Proofs.Environment.Keys
import KeyLight.Proofs.Machine.Naming

/-!
# Asking for keys by their names in the course of a script

Every key whose name no earlier key has is reached by its name, but for the two names that a board
keeps for its methods: a key of such a name is reached by another spelling only
(`keys_reached_by_name`). A byte string that is no text names the keys whose names it is read as
(`not_forall_keys_reached_by_name`).
-/

namespace KeyLight.Environment

variable {e : Environment} {w : World}

/-- **Keys are reached by their names.** Take any world in the course of a script that runs after a
row of calls of the host, and a handle on a board that gives access.

Any byte string but the names of the two methods of a board gives the first key that has the name
which the byte string is read as, in either case of the letters A to Z, and nil if there is none. A
text is read as it is. The names of the methods, exactly as they are written, give the methods.

So a key whose name no earlier key has is what the board gives at any spelling of the name that is
not the name of a method: it is equal to what the board then gives at the number of the key.
(Numbers that are not less than `2 ^ 53` are rounded; no board has as many keys.) -/
theorem keys_reached_by_name {config : Config} {calls : List HostCall}
    (hcalls : (start .empty config).Service calls e) (hmoves : e.world.Moves w)
    (place : Place) (scope : Scope) (frames : List Frame) {v : Value} {h : BoardHandle}
    {k : Keyboard} (ho : w.heap.object? v = some (.board h)) (hk : w.board h = .ok k) :
    (∀ bytes, (∀ name ∈ Method.boardNames, bytes ≠ Utf8.encode name) →
      (∀ i, k.FirstNamed (Utf8.decodeLossy bytes) i →
        Machine.access place w scope frames (.index v (.text bytes)) =
          .running (w.newObject (.key (h.key i))).2 (.give (w.newObject (.key (h.key i))).1)
            frames) ∧
      ((∀ key ∈ k.keys, Text.sameName key.name (Utf8.decodeLossy bytes) = false) →
        Machine.access place w scope frames (.index v (.text bytes)) =
          .running w (.give .nil) frames)) ∧
    (∀ text, Utf8.decodeLossy (Utf8.encode text) = text) ∧
    (Machine.access place w scope frames (.index v (.ofString "find_key_code")) =
      .running w (.give (.builtin (.method .findKeyCode))) frames ∧
    Machine.access place w scope frames (.index v (.ofString "group")) =
      .running w (.give (.builtin (.method .group))) frames) ∧
    ∀ i key, k.key? i = some key → k.FirstNamed key.name i → i + 1 < Binary64.exactBound →
      ∀ spelling, Text.sameName key.name spelling = true → spelling ∉ Method.boardNames →
        ∃ w₁ v₁ w₂ v₂,
          Machine.access place w scope frames (.index v (.ofString spelling)) =
            .running w₁ (.give v₁) frames ∧
          Machine.access place w₁ scope frames (.index v (.ofNat (i + 1))) =
            .running w₂ (.give v₂) frames ∧
          Machine.equate place w₂ scope frames v₁ v₂ =
            .running w₂ (.give (.bool true)) frames := by
  obtain ⟨first, hleases⟩ := hcalls.exists_leases (leases_start config)
  have hnormal : w.host.Normal := (hmoves.leases hleases).normal
  refine ⟨fun bytes => Machine.access_board_named ho hk hnormal, Utf8.decodeLossy_encode,
    ⟨?_, ?_⟩, fun i key hkey hfirst hnumber spelling hspelling hname => ?_⟩
  · have hmethod := World.index_method (m := .findKeyCode) ho rfl
    exact congrArg (Machine.replyDatum w frames) hmethod
  · have hmethod := World.index_method (m := .group) ho rfl
    exact congrArg (Machine.replyDatum w frames) hmethod
  · exact Machine.equate_named_numbered ho hk hnormal (hfirst.respell hspelling) hname hnumber

/-- An environment whose scripts are given a board of a key with an ordinary name, a key with the
name of a method, and a key with the name that stands for what is no text. -/
def misnamed : Environment :=
  let board := Keyboard.normal
    [⟨0, 1, "Esc", .zero⟩, ⟨0, 2, "group", .zero⟩, ⟨0, 3, "\ufffd", .zero⟩] []
  ((start .empty {}).withHost (Host.empty.addBoard board).2).setBoard 0

theorem service_misnamed : (start .empty {}).Service [.other, .setBoard 0] misnamed :=
  (Service.nil.snoc (.withHost (.addBoard _ _))).snoc (.setBoard rfl)

/-- The key with the name of a method is found under another spelling of it, and is equal to what
the board has at its number. -/
theorem keys_reached_by_name_misnamed :
    let w := misnamed.world
    let key : Object := .key ⟨⟨0, 0⟩, 1⟩
    Machine.access .main w [] [] (.index (.object 0) (.ofString "GROUP")) =
      .running (w.newObject key).2 (.give (w.newObject key).1) [] ∧
    ∃ w₁ v₁ w₂ v₂,
      Machine.access .main w [] [] (.index (.object 0) (.ofString "Group")) =
        .running w₁ (.give v₁) [] ∧
      Machine.access .main w₁ [] [] (.index (.object 0) (.ofNat 2)) =
        .running w₂ (.give v₂) [] ∧
      Machine.equate .main w₂ [] [] v₁ v₂ = .running w₂ (.give (.bool true)) [] := by
  intro w key
  let k : Keyboard := ⟨[⟨0, 1, "Esc", .zero⟩, ⟨1, 2, "group", .zero⟩, ⟨2, 3, "\ufffd", .zero⟩], []⟩
  have hk : w.board ⟨0, 0⟩ = .ok k := rfl
  obtain ⟨hnamed, -, -, hequal⟩ :=
    keys_reached_by_name service_misnamed (.refl w) .main [] [] (v := .object 0) rfl hk
  have hfirst : k.FirstNamed "group" 1 := ⟨⟨_, rfl, by decide⟩, by decide⟩
  refine ⟨?_, hequal 1 _ rfl hfirst (by decide) "Group" (by decide) (by decide)⟩
  exact (hnamed _ (by decide)).1 1 (hfirst.respell (by decide))

/-- **Not every key is reached by its name**, and a byte string that is the name of no key can reach
one. -/
theorem not_forall_keys_reached_by_name :
    (¬∀ {config : Config} {calls : List HostCall} {e : Environment} {w : World},
      (start .empty config).Service calls e → e.world.Moves w →
      ∀ (v : Value) (h : BoardHandle) (k : Keyboard) (name : String) (i : Nat),
        w.heap.object? v = some (.board h) → w.board h = .ok k → k.FirstNamed name i →
        Machine.access .main w [] [] (.index v (.ofString name)) =
          .running (w.newObject (.key (h.key i))).2 (.give (w.newObject (.key (h.key i))).1) []) ∧
    ¬∀ {config : Config} {calls : List HostCall} {e : Environment} {w : World},
      (start .empty config).Service calls e → e.world.Moves w →
      ∀ (v : Value) (h : BoardHandle) (k : Keyboard) (bytes : Bytes),
        w.heap.object? v = some (.board h) → w.board h = .ok k →
        (∀ key ∈ k.keys, ∀ name, Text.sameName key.name name = true →
          bytes ≠ Utf8.encode name) →
        Machine.access .main w [] [] (.index v (.text bytes)) = .running w (.give .nil) [] := by
  let k : Keyboard := ⟨[⟨0, 1, "Esc", .zero⟩, ⟨1, 2, "group", .zero⟩, ⟨2, 3, "\ufffd", .zero⟩], []⟩
  have hk : misnamed.world.board ⟨0, 0⟩ = .ok k := rfl
  refine ⟨fun hreached => ?_, fun hmissed => ?_⟩
  · have hgives := hreached service_misnamed (.refl misnamed.world) (.object 0) ⟨0, 0⟩ k "group" 1
      rfl hk ⟨⟨_, rfl, by decide⟩, by decide⟩
    have hmethod : Machine.access .main misnamed.world [] []
        (.index (.object 0) (.ofString "group")) =
          .running misnamed.world (.give (.builtin (.method .group))) [] := rfl
    rw [hmethod] at hgives
    cases hgives
  · have hnotext (name : String) : ([0xFF] : Bytes) ≠ Utf8.encode name := fun hbytes => by
      have hnone : Utf8.decode? [0xFF] = none := rfl
      rw [Utf8.decode?_eq_some_iff.mpr hbytes] at hnone
      cases hnone
    have hgives := hmissed service_misnamed (.refl misnamed.world) (.object 0) ⟨0, 0⟩ k [0xFF]
      rfl hk fun _ _ name _ => hnotext name
    have hkey : Machine.access .main misnamed.world [] [] (.index (.object 0) (.text [0xFF])) =
        .running (misnamed.world.newObject (.key ⟨⟨0, 0⟩, 2⟩)).2
          (.give (misnamed.world.newObject (.key ⟨⟨0, 0⟩, 2⟩)).1) [] := rfl
    rw [hkey] at hgives
    cases hgives

end KeyLight.Environment
