import KeyLight.Host.Basic

/-!
# The rows of the host

The host keeps its things in rows, and what is dropped leaves its place empty. Here is what is found
in a row after it changed in one place.
-/

namespace KeyLight.Host

section Row

variable {α : Type} {row : Array (Option α)} {id : Nat}

/-- What is found in a row is in its range. -/
theorem lt_size_of_join {a : α} (ha : row[id]?.join = some a) : id < row.size := by
  have hrow : row[id]? = some (some a) := Option.join_eq_some_iff.mp ha
  exact (Array.getElem?_eq_some_iff.mp hrow).1

theorem join_setIfInBounds (row : Array (Option α)) (id other : Nat) (a : Option α) :
    (row.setIfInBounds id a)[other]?.join =
      if other = id ∧ id < row.size then a else row[other]?.join := by
  rw [Array.getElem?_setIfInBounds]
  by_cases heq : id = other
  · by_cases hlt : id < row.size
    · simp [heq, heq ▸ hlt]
    · simp [heq, heq ▸ hlt]
  · rw [if_neg heq, if_neg fun h => heq h.1.symm]

end Row

variable (h : Host) (id other : Nat)

theorem target?_setTarget (t : RenderTarget) :
    (h.setTarget id t).target? other = if other = id
      then (h.target? id).map fun held => { held with target := t } else h.target? other := by
  unfold setTarget
  cases hheld : h.target? id with
  | none =>
    simp only
    split
    · rename_i heq
      rw [heq, hheld, Option.map_none]
    · rfl
  | some held =>
    have hlt : id < h.targets.size := lt_size_of_join hheld
    simp only [target?, join_setIfInBounds, hlt, and_true, Option.map_some]

theorem boards_setTarget (t : RenderTarget) : (h.setTarget id t).boards = h.boards := by
  unfold setTarget
  split <;> rfl

theorem controllers_setTarget (t : RenderTarget) :
    (h.setTarget id t).controllers = h.controllers := by
  unfold setTarget
  split <;> rfl

end KeyLight.Host
