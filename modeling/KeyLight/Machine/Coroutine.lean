import KeyLight.Machine.Frame

/-!
# Coroutines

What a thread has left to do: its routine is yet to be called with the arguments that the thread was
started with, or it was suspended and its frames are left. The function that suspended it has not
returned, either, and keeps the arguments of its own call until then.

Until the routine is called, the arguments are put away in a table that has no place for nil, so it
is also kept how many there are. Nothing is lost in this way (`Packed.toList_ofList`).
-/

namespace KeyLight

/-- The values other than nil of a list with their positions, the first of which is `n`. -/
def Packed.place (n : Nat) : List Value → List (Nat × Value)
  | [] => []
  | v :: vs => if v = .nil then place (n + 1) vs else (n, v) :: place (n + 1) vs

/-- Arguments that are put away. -/
structure Packed where
  /-- The arguments other than nil at their positions, counted from one. -/
  slots : List (Nat × Value)
  /-- The number of arguments, nil among them. -/
  count : Nat
  isPacked : ∃ args, slots = Packed.place 1 args ∧ count = args.length

namespace Packed

/-- Puts arguments away. -/
def ofList (args : List Value) : Packed := ⟨place 1 args, args.length, args, rfl, rfl⟩

/-- The value at a position; nil if none is kept there. -/
def get (p : Packed) (position : Nat) : Value := (p.slots.lookup position).getD .nil

/-- The arguments, taken from the positions one by one. -/
def toList (p : Packed) : List Value := (List.range' 1 p.count).map p.get

theorem lookup_place_of_lt {m n : Nat} (h : m < n) (args : List Value) :
    (place n args).lookup m = none := by
  induction args generalizing n with
  | nil => rfl
  | cons v vs ih =>
    have hlater := ih (Nat.lt_succ_of_lt h)
    unfold place
    split
    · exact hlater
    · rw [List.lookup_cons, beq_false_of_ne (Nat.ne_of_lt h), hlater]

/-- A value is found at its position, and nil is found where none is kept. -/
theorem lookup_place (n i : Nat) (args : List Value) :
    ((place n args).lookup (n + i)).getD .nil = args.getD i .nil := by
  induction args generalizing n i with
  | nil => rfl
  | cons v vs ih =>
    unfold place
    cases i with
    | zero =>
      split
      · rename_i hv
        rw [Nat.add_zero, lookup_place_of_lt (Nat.lt_succ_self n), hv]
        rfl
      · rw [Nat.add_zero, List.lookup_cons_self]
        rfl
    | succ i =>
      have hlater := ih (n + 1) i
      rw [Nat.add_right_comm, Nat.add_assoc] at hlater
      split
      · exact hlater
      · rw [List.lookup_cons, beq_false_of_ne (by omega)]
        exact hlater

/-- **Arguments that were put away come back as they were**, with nil in its places. -/
@[simp] theorem toList_ofList (args : List Value) : (ofList args).toList = args := by
  refine List.ext_getElem (by simp [toList, ofList]) fun i _ hi => ?_
  simp only [toList, ofList, get, List.getElem_map, List.getElem_range', Nat.one_mul, lookup_place]
  rw [List.getD_eq_getElem?_getD, List.getElem?_eq_getElem hi, Option.getD_some]

/-- What is put away is an argument list. -/
theorem exists_eq_ofList (p : Packed) : ∃ args, p = ofList args := by
  obtain ⟨slots, count, args, rfl, rfl⟩ := p
  exact ⟨args, rfl⟩

theorem flatMap_place {α : Type} {f : Value → List α} (hf : f .nil = []) (n : Nat)
    (args : List Value) : (place n args).flatMap (fun slot => f slot.2) = args.flatMap f := by
  induction args generalizing n with
  | nil => rfl
  | cons v vs ih =>
    unfold place
    split
    · rename_i hv
      rw [ih, List.flatMap_cons, hv, hf, List.nil_append]
    · rw [List.flatMap_cons, List.flatMap_cons, ih]

end Packed

/-- What a thread has left to do. -/
inductive Coroutine
  /-- To be called with the arguments that are put away. -/
  | unstarted (routine : Value) (args : Packed)
  /-- To be continued by the return of the function that suspended it, which keeps some values until
  then. -/
  | suspended (frames : List Frame) (kept : List Value)

namespace Coroutine

/-- To be called with arguments. -/
def fresh (routine : Value) (args : List Value) : Coroutine := .unstarted routine (.ofList args)

/-- What is left to do is to call a routine with arguments, or to continue. -/
@[cases_eliminator, elab_as_elim]
theorem freshCases {motive : Coroutine → Prop} (fresh : ∀ routine args, motive (fresh routine args))
    (suspended : ∀ frames kept, motive (.suspended frames kept)) : ∀ c, motive c
  | .unstarted routine args => by
    obtain ⟨args, rfl⟩ := args.exists_eq_ofList
    exact fresh routine args
  | .suspended frames kept => suspended frames kept

/-- What a thread is resumed with: its arguments when it is called, and nothing when it is
continued. -/
def passed : Coroutine → List Value
  | .unstarted _ args => args.toList
  | .suspended .. => []

@[simp] theorem passed_fresh (routine : Value) (args : List Value) :
    (fresh routine args).passed = args := Packed.toList_ofList args

end Coroutine

end KeyLight
