import KeyLight.Proofs.Environment.Keys
import KeyLight.Proofs.Machine.Position

/-!
# Positions and key codes in the course of a script

What a number comes to when a script indexes a handle with it, or asks a board for it as a key code.
The handles on boards, groups and render targets are treated alike, by the row of objects that each
of them holds (`positions_count_from_one`). All numbers are covered, integers of 64 bits as well as
floating-point numbers: what counts is only whether the number is exactly an integer, and which one.

A render target that the host is writing cannot be read. Scripts can run meanwhile, so it depends on
the host whether the handle on a render target gives what the target holds
(`not_forall_positions_read`).
-/

namespace KeyLight.Environment

variable {e : Environment} {w : World}

/-- **Positions count from one.** Take any world in the course of a script that runs after a row of
calls of the host, and any number.

A handle on a board or on a group that gives access, or on a render target that the host is not
writing, holds a row of objects. If the row has less than `2 ^ 53` entries, then its length is that
of the handle, and the handle gives the entry that the number counts from one, if the number is
exactly an integer and there is such an entry, and nil otherwise.

A handle on a board that gives access refuses a key code that is not exactly an integer of 32 bits
without a sign. It gives the first key that has the key code, and nil if there is none.

A render target that the host is writing reports that it is busy if the number is an integer from
one on, and gives nil otherwise. -/
theorem positions_count_from_one {config : Config} {calls : List HostCall}
    (hcalls : (start .empty config).Service calls e) (hmoves : e.world.Moves w)
    (place : Place) (scope : Scope) (frames : List Frame) {n : Value} (hn : n.number?.isSome) :
    (∀ v row, w.Row v row → row.length < Binary64.exactBound →
      Machine.access place w scope frames (.length v) =
        .running w (.give (.ofNat row.length)) frames ∧
      (∀ i o, row[i]? = some o → n.IsInteger (i + 1 : Nat) →
        Machine.access place w scope frames (.index v n) =
          .running (w.newObject o).2 (.give (w.newObject o).1) frames) ∧
      ((∀ i < row.length, ¬n.IsInteger (i + 1 : Nat)) →
        Machine.access place w scope frames (.index v n) = .running w (.give .nil) frames)) ∧
    (∀ v h k, w.heap.object? v = some (.board h) → w.board h = .ok k →
      w.index v (.ofString "find_key_code") = .ok (.value (.builtin (.method .findKeyCode))) ∧
      ∀ more,
        ((∀ code < UInt32.size, ¬n.IsInteger code) →
          Machine.access place w scope frames (.call .findKeyCode v n more) =
            .running w (.raise (.call (.argument "find_key_code" 2
              "key code must be an unsigned integer"))) frames) ∧
        ∀ code < UInt32.size, n.IsInteger code →
          (∀ i, k.FirstOfCode code i →
            Machine.access place w scope frames (.call .findKeyCode v n more) =
              .running (w.newObject (.key (h.key i))).2 (.give (w.newObject (.key (h.key i))).1)
                frames) ∧
          ((∀ key ∈ k.keys, key.keyCode ≠ code) →
            Machine.access place w scope frames (.call .findKeyCode v n more) =
              .running w (.give .nil) frames)) ∧
    ∀ v h held, w.heap.object? v = some (.target h) → w.hostTarget h = .ok held →
      held.hold = .writing →
      ((∃ m : Int, 1 ≤ m ∧ n.IsInteger m) → Machine.access place w scope frames (.index v n) =
        .running w (.raise (.call (.handleBusy .target))) frames) ∧
      ((∀ m : Int, 1 ≤ m → ¬n.IsInteger m) → Machine.access place w scope frames (.index v n) =
        .running w (.give .nil) frames) := by
  obtain ⟨first, hleases⟩ := hcalls.exists_leases (leases_start config)
  -- the boards are numbered by places, so the key at a place is the one that the handle names
  have hnormal : w.host.Normal := (hmoves.leases hleases).normal
  refine ⟨fun v row hrow hsize => ⟨?_, ?_⟩, fun v h k ho hk => ⟨?_, fun more => ?_⟩,
    fun v h held ho hheld hhold => ?_⟩
  · rw [Machine.access_length, hrow.length]
    rfl
  · exact Machine.access_index_row hrow hnormal hsize hn
  · exact World.index_method (m := .findKeyCode) ho rfl
  · exact Machine.access_findKeyCode ho hk hnormal more
  · exact Machine.access_index_busy ho hheld hhold hn

/-- An environment whose scripts are given a board and a render target for its two keys. -/
def drawn : Environment :=
  (lettered.withHost (lettered.world.host.addTarget (.blank 2)).2).giveObject "t" (.target ⟨0, 0⟩)

theorem service_drawn : (start .empty {}).Service [.other, .setBoard 0, .other, .other] drawn := by
  have hlettered : (start .empty {}).Service [.other, .setBoard 0] lettered :=
    (Service.nil.snoc (.withHost (.addBoard _ _))).snoc (.setBoard rfl)
  refine (hlettered.snoc (.withHost (.addTarget (.blank 2)))).snoc
    (.giveObject "t" fun loan hloan => ?_)
  obtain rfl := Option.some.inj hloan
  exact ⟨rfl, rfl, _, rfl⟩

/-- The board has its second key at the number two and finds it by its key code. A key code that is
the same modulo `2 ^ 32` is refused, and the number `-2 ^ 63` is no position of the target. -/
theorem positions_count_from_one_drawn :
    let w := drawn.world
    let key : Object := .key ⟨⟨0, 0⟩, 1⟩
    Machine.access .main w [] [] (.index (.object 0) (.int 2)) =
      .running (w.newObject key).2 (.give (w.newObject key).1) [] ∧
    Machine.access .main w [] [] (.call .findKeyCode (.object 0) (.int 2) []) =
      .running (w.newObject key).2 (.give (w.newObject key).1) [] ∧
    Machine.access .main w [] [] (.call .findKeyCode (.object 0) (.int 4294967298) []) =
      .running w (.raise (.call (.argument "find_key_code" 2
        "key code must be an unsigned integer"))) [] ∧
    Machine.access .main w [] [] (.index (.object 1) (.int Int64.minValue)) =
      .running w (.give .nil) [] := by
  intro w key
  let k : Keyboard := ⟨[⟨0, 1, "Esc", .zero⟩, ⟨1, 2, "A", .zero⟩], [⟨"all", [1]⟩]⟩
  have hk : w.board ⟨0, 0⟩ = .ok k := rfl
  have hheld : w.hostTarget ⟨0, 0⟩ = .ok ⟨.blank 2, .free⟩ := rfl
  have hboard : w.Row (.object 0) [.key ⟨⟨0, 0⟩, 0⟩, key] := .board rfl hk
  have htarget : w.Row (.object 1) [.color .clear, .color .clear] := .target rfl hheld nofun
  have counts (m : Int64) := positions_count_from_one service_drawn (.refl w) .main [] []
    (n := .int m) rfl
  have hcode (m : Int64) := (counts m).2.1 (.object 0) ⟨0, 0⟩ k rfl hk
  refine ⟨?_, ?_, ?_, ?_⟩
  · exact ((counts 2).1 _ _ hboard (by decide)).2.1 1 key rfl (.int 2)
  · have hfirst : k.FirstOfCode 2 1 := ⟨⟨_, rfl, rfl⟩, by decide⟩
    exact (((hcode 2).2 []).2 2 (by decide) (.int 2)).1 1 hfirst
  · refine ((hcode 4294967298).2 []).1 fun code hsmall hinteger => ?_
    have hlarge : (4294967298 : Int64).toInt = code := Value.isInteger_int_iff.mp hinteger
    rw [show (4294967298 : Int64).toInt = 4294967298 by decide] at hlarge
    have : UInt32.size = 4294967296 := rfl
    omega
  · refine ((counts Int64.minValue).1 _ _ htarget (by decide)).2.2 fun i _ hinteger => ?_
    have hnegative : Int64.minValue.toInt = (i + 1 : Nat) := Value.isInteger_int_iff.mp hinteger
    rw [show Int64.minValue.toInt = -9223372036854775808 by decide] at hnegative
    omega

/-- The same while the host is writing the render target. -/
def drawing : Environment := drawn.withHost (drawn.world.host.holdTarget 0 .writing)

/-- A handle on a render target that gives access does not answer at the number one while the host is
writing the target, which has two slots. -/
theorem not_forall_positions_read :
    ¬∀ {config : Config} {calls : List HostCall} {e : Environment} {w : World},
      (start .empty config).Service calls e → e.world.Moves w →
      ∀ (v n : Value) (h : TargetHandle) (held : HostTarget) (i : Nat) (c : Rgba),
        w.heap.object? v = some (.target h) → w.hostTarget h = .ok held →
        held.target.size < Binary64.exactBound → held.target.get? i = some c →
        n.IsInteger (i + 1 : Nat) →
        Machine.access .main w [] [] (.index v n) =
          .running (w.newObject (.color c)).2 (.give (w.newObject (.color c)).1) [] := by
  intro hread
  have hservice := service_drawn.snoc (.withHost (.holdTarget 0 .writing))
  have hgives := hread hservice (.refl drawing.world) (.object 1) (.int 1) ⟨0, 0⟩
    ⟨.blank 2, .writing⟩ 0 .clear rfl rfl (by decide) rfl (.int 1)
  have hbusy : Machine.access .main drawing.world [] [] (.index (.object 1) (.int 1)) =
      .running drawing.world (.raise (.call (.handleBusy .target))) [] := rfl
  rw [hbusy] at hgives
  cases hgives

end KeyLight.Environment
