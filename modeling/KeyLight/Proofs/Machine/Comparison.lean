import KeyLight.Proofs.Machine.Refusal
import KeyLight.Proofs.World.Comparison

/-!
# Comparing objects in scripts

What the equality of scripts comes to for two objects. It answers unless the type on the left does
not say how its objects are compared and the type on the right does; then the script is told of a
bad argument, which it did not give (`equality_answers_unless_left_has_none`). So a colour is
unequal to an interpolator, but an interpolator cannot be compared with a colour
(`not_forall_equality_answers`).
-/

namespace KeyLight.Machine

variable {w : World} {a b : Value} {x y : Object}

/-- Asks whether two values are equal. -/
def equate (place : Place) (w : World) (scope : Scope) (frames : List Frame) (a b : Value) :
    Next :=
  operate place w (.binary .equal) [a, b] scope frames

theorem equate_eq (place : Place) (w : World) (scope : Scope) (frames : List Frame)
    (a b : Value) :
    equate place w scope frames a b = reply w frames ((w.equal a b).map .bool) := rfl

theorem equate_eq_true_iff (place : Place) (scope : Scope) (frames : List Frame) :
    equate place w scope frames a b = .running w (.give (.bool true)) frames ↔
      w.equal a b = .ok true := by
  rw [equate_eq]
  cases w.equal a b with
  | error e => exact iff_of_false nofun nofun
  | ok r =>
    change Next.running w (.give (.bool r)) frames = _ ↔ _
    simp

/-- **Equality of objects.** Take any two objects, whether they are live or stale handles or none.

If the two values refer to one object, or the type on the left says how its objects are compared, or
the type on the right does not say it either, then the answer is whether they refer to one object or
stand for the same: colours with the same red, green and blue, handles on one thread, or handles on
one place of one board. Objects of different types are unequal. If both types say how to compare, or
neither, then the answer is the same with left and right exchanged.

Otherwise the comparison fails, with the complaint of the type on the right about the left object.

The answer depends on the objects alone, so handles that go stale keep it. -/
theorem equality_answers_unless_left_has_none (ha : w.heap.object? a = some x)
    (hb : w.heap.object? b = some y) (place : Place) (scope : Scope) (frames : List Frame) :
    (a = b ∨ World.comparesContents x.type = true ∨ World.comparesContents y.type = false →
      ∃ r, equate place w scope frames a b = .running w (.give (.bool r)) frames ∧
        (r = true ↔ a = b ∨ x.Alike y) ∧ (x.type ≠ y.type → r = false) ∧
        (World.comparesContents x.type = World.comparesContents y.type →
          equate place w scope frames b a = .running w (.give (.bool r)) frames)) ∧
    (a ≠ b → World.comparesContents x.type = false → World.comparesContents y.type = true →
      equate place w scope frames a b = .running w (.raise (.conversion
        ("bad argument \x60self\x60 to \x60" ++ y.type.methodOwner ++
          ".__eq\x60: userdata is not expected type"))) frames) ∧
    ∀ w' : World, w'.heap.object? a = some x → w'.heap.object? b = some y →
      w'.equal a b = w.equal a b := by
  refine ⟨fun hanswers => ?_, fun hne hleft hright => ?_,
    fun w' ha' hb' => World.equal_eq_of_objects ha hb ha' hb'⟩
  · obtain ⟨r, hr, hiff⟩ : ∃ r, w.equal a b = .ok r ∧ (r = true ↔ a = b ∨ x.Alike y) := by
      obtain rfl | hcomparable := hanswers
      · exact ⟨true, World.equal_self ha, iff_of_true rfl (.inl rfl)⟩
      · exact World.equal_of_comparable ha hb hcomparable
    refine ⟨r, by rw [equate_eq, hr]; rfl, hiff, fun htype => ?_, fun hboth => ?_⟩
    · rw [Bool.eq_false_iff, Ne, hiff, not_or]
      refine ⟨?_, fun halike => htype halike.type_eq⟩
      rintro rfl
      exact htype (congrArg Object.type (Option.some.inj (ha.symm.trans hb)))
    · have hcomparable : World.comparesContents y.type = true ∨
          World.comparesContents x.type = false := by
        rw [hboth]
        exact Bool.eq_false_or_eq_true _
      obtain ⟨r', hr', hiff'⟩ := World.equal_of_comparable hb ha hcomparable
      have hsame : r' = r := by
        rw [Bool.eq_iff_iff, hiff, hiff', eq_comm]
        exact or_congr_right ⟨.symm, .symm⟩
      rw [equate_eq, hr', hsame]
      rfl
  · rw [equate_eq, World.equal_of_not_comparable ha hb hne hleft hright]
    rfl

/-- A stale handle on a key is unequal to the stale board, and equal to itself. The board cannot be
compared with it. -/
theorem equality_answers_unless_left_has_none_outdated :
    equate .main outdated [] [] (.object 2) (.object 2) =
      .running outdated (.give (.bool true)) [] ∧
    equate .main outdated [] [] (.object 2) (.object 0) =
      .running outdated (.give (.bool false)) [] ∧
    equate .main outdated [] [] (.object 0) (.object 2) =
      .running outdated (.raise (.conversion ("bad argument \x60self\x60 to " ++
        "\x60KeyHandle.__eq\x60: userdata is not expected type"))) [] := by
  have hboard : outdated.heap.object? (.object 0) = some (.board ⟨0, 0⟩) := rfl
  have hkey : outdated.heap.object? (.object 2) = some (.key ⟨⟨0, 0⟩, 0⟩) := rfl
  have hself := (equality_answers_unless_left_has_none hkey hkey .main [] []).1 (.inl rfl)
  have hkeyed := (equality_answers_unless_left_has_none hkey hboard .main [] []).1 (.inr (.inl rfl))
  have hfails := (equality_answers_unless_left_has_none hboard hkey .main [] []).2.1 nofun rfl rfl
  obtain ⟨r, hr, hiff, -, -⟩ := hself
  obtain ⟨r', hr', -, htype, -⟩ := hkeyed
  rw [hiff.mpr (.inl rfl)] at hr
  rw [htype nofun] at hr'
  exact ⟨hr, hr', hfails⟩

/-- **Not every two objects can be compared.** -/
theorem not_forall_equality_answers :
    ¬∀ (w : World) (a b : Value) (x y : Object), w.heap.object? a = some x →
      w.heap.object? b = some y → x.type ≠ .suspension → y.type ≠ .suspension →
      ∀ place scope frames, ∃ r,
        equate place w scope frames a b = .running w (.give (.bool r)) frames ∧
        equate place w scope frames b a = .running w (.give (.bool r)) frames := by
  intro h
  obtain ⟨r, hr, -⟩ := h outdated (.object 0) (.object 2) (.board ⟨0, 0⟩) (.key ⟨⟨0, 0⟩, 0⟩) rfl rfl
    nofun nofun .main [] []
  cases hr

end KeyLight.Machine
