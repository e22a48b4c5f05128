import KeyLight.Native.Exchange

/-!
# Sound exchange of native values

What can be done with an exchange is data here (`Operation`), so the registered types can be read
off the operations before, and so can the values that native values were pushed as (`pushes`). Each
operation adds to the registered types and to the objects just what it says
(`mem_registered_perform`, `object?_perform`). Hence after any operations a type is registered if
one of them registered it, and a value refers to a native value if that was pushed as this value or
was there before (`mem_registered_performAll`, `object?_performAll`).

The main statement is `exchange_sound`: registering, pushing and taking back do what they should
after any operations.
-/

namespace KeyLight

/-- A new object is found under its own number, and the others under theirs. -/
theorem Heap.object?_addObject_eq_some (h : Heap) {o made : Object} {v : Value} :
    (h.addObject made).object? v = some o ↔
      (v = .object h.objects.size ∧ o = made) ∨ h.object? v = some o := by
  cases v with
  | object id =>
    simp only [object?, addObject, Array.getElem?_push, Value.object.injEq]
    split
    · rename_i hid
      simp [hid, eq_comm]
    · rename_i hid
      simp [hid]
  | _ => simp [object?]

/-- Nothing is at position 0 and past the top. -/
theorem Stack.get?_eq_none_iff {s : Stack} {position : Nat} :
    s.get? position = none ↔ position = 0 ∨ s.height < position := by
  unfold get? height
  split
  · exact iff_of_true rfl (.inl ‹_›)
  · rw [List.getElem?_eq_none_iff]
    omega

namespace Stack

/-- What is pushed is at the position past the top. -/
theorem get?_push (s : Stack) (v : Value) (position : Nat) :
    (s.push v).get? position = if position = s.height + 1 then some v else s.get? position := by
  simp only [get?, push, height]
  grind

/-- What is taken is at the top, -/
theorem fst_pop (s : Stack) : s.pop.1 = s.get? s.height := by
  simp only [get?, pop, height]
  grind

/-- and the rest is left. -/
theorem get?_pop (s : Stack) (position : Nat) :
    s.pop.2.get? position = if position = s.height then none else s.get? position := by
  simp only [get?, pop, height]
  grind

end Stack

namespace Exchange

/-! ### Operations -/

/-- What can be done with an exchange. -/
inductive Operation : Type 1
  | register (t : ObjectType)
  | push {α : Type} [Exposed α] (a : α)
  | pushValue (v : Value)
  | pop
  | check (α : Type) [Exposed α] (position : Nat) (held : Bool)
  | checkOpt (α : Type) [Exposed α] (position : Nat) (held : Bool)

/-- The exchange after an operation. What is refused, or only read, changes nothing. -/
def perform (x : Exchange) : Operation → Exchange
  | .register t => (x.register t).2
  | @Operation.push _ _ a =>
    match x.push a with
    | .ok after => after
    | .error _ => x
  | .pushValue v => x.pushValue v
  | .pop => x.pop.2
  | @Operation.check .. | @Operation.checkOpt .. => x

/-- The exchange after operations. -/
def performAll (x : Exchange) (ops : List Operation) : Exchange := ops.foldl perform x

/-- The value that a native value is pushed as, which is then on top, and the native value. -/
def pushed? (x : Exchange) : Operation → Option (Value × Object)
  | @Operation.push _ _ a =>
    match x.push a with
    | .ok after => after.pop.1.map fun v => (v, Exposed.wrap a)
    | .error _ => none
  | .register _ | .pushValue _ | .pop | @Operation.check .. | @Operation.checkOpt .. => none

/-- What is pushed in the course of operations. -/
def pushes (x : Exchange) : List Operation → List (Value × Object)
  | [] => []
  | op :: ops => (x.pushed? op).toList ++ (x.perform op).pushes ops

section Steps

variable {x : Exchange} {t : ObjectType} {α : Type} [Exposed α]

theorem register_of_mem (h : t ∈ x.registered) : x.register t = (false, x) := by
  rw [register, List.contains_iff_mem.mpr h, if_pos rfl]

theorem register_of_not_mem (h : t ∉ x.registered) :
    x.register t = (true, { x with registered := x.registered ++ [t] }) := by
  rw [register, if_neg (mt List.contains_iff_mem.mp h)]

/-- A native value of a registered type becomes a new object, which goes on top of the stack. -/
theorem push_of_mem (h : Exposed.type α ∈ x.registered) (a : α) :
    x.push a = .ok { x with
      world := (x.world.newObject (Exposed.wrap a)).2
      stack := x.stack.push (x.world.newObject (Exposed.wrap a)).1 } := by
  rw [push, List.contains_iff_mem.mpr h, if_pos rfl]

theorem push_of_not_mem (h : Exposed.type α ∉ x.registered) (a : α) :
    x.push a = .error (.unregistered (Exposed.type α)) := by
  rw [push, if_neg (mt List.contains_iff_mem.mp h)]

/-- Only registering a type adds to the registered types. -/
theorem mem_registered_perform (x : Exchange) (op : Operation) :
    t ∈ (x.perform op).registered ↔ op = .register t ∨ t ∈ x.registered := by
  cases op with
  | register t' =>
    by_cases h : t' ∈ x.registered
    · simp only [perform, register_of_mem h, Operation.register.injEq]
      exact (or_iff_right_of_imp fun ht => ht ▸ h).symm
    · simp only [perform, register_of_not_mem h, Operation.register.injEq, List.mem_append,
        List.mem_singleton]
      rw [or_comm, eq_comm]
  | @push α _ a =>
    by_cases h : Exposed.type α ∈ x.registered
    · simp only [perform, push_of_mem h, reduceCtorEq, false_or]
    · simp only [perform, push_of_not_mem h, reduceCtorEq, false_or]
  | pushValue | pop | check | checkOpt => exact (or_iff_right fun h => by cases h).symm

/-- Only pushing a native value adds an object. -/
theorem object?_perform (x : Exchange) (op : Operation) {v : Value} {o : Object} :
    (x.perform op).world.heap.object? v = some o ↔
      x.pushed? op = some (v, o) ∨ x.world.heap.object? v = some o := by
  cases op with
  | @push α _ a =>
    by_cases h : Exposed.type α ∈ x.registered
    · have htop : x.pushed? (.push a) =
          some (.object x.world.heap.objects.size, Exposed.wrap a) := by
        simp only [pushed?, push_of_mem h, pop, Stack.push, Stack.pop, List.getLast?_concat]
        rfl
      simp only [htop, perform, push_of_mem h, Option.some.injEq, Prod.mk.injEq]
      rw [eq_comm (b := v), eq_comm (b := o)]
      exact Heap.object?_addObject_eq_some _
    · simp only [perform, pushed?, push_of_not_mem h, reduceCtorEq, false_or]
  | register t =>
    by_cases h : t ∈ x.registered
    · simp only [perform, pushed?, register_of_mem h, reduceCtorEq, false_or]
    · simp only [perform, pushed?, register_of_not_mem h, reduceCtorEq, false_or]
  | pushValue | pop | check | checkOpt => exact (or_iff_right fun h => by cases h).symm

end Steps

/-! ### After any operations -/

theorem mem_registered_performAll (x : Exchange) (ops : List Operation) {t : ObjectType} :
    t ∈ (x.performAll ops).registered ↔ .register t ∈ ops ∨ t ∈ x.registered := by
  induction ops generalizing x with
  | nil => simp [performAll]
  | cons op ops ih =>
    rw [performAll, List.foldl_cons, ← performAll, ih, mem_registered_perform, List.mem_cons,
      or_left_comm, or_assoc, eq_comm]

theorem object?_performAll (x : Exchange) (ops : List Operation) {v : Value} {o : Object} :
    (x.performAll ops).world.heap.object? v = some o ↔
      (v, o) ∈ x.pushes ops ∨ x.world.heap.object? v = some o := by
  induction ops generalizing x with
  | nil => simp [performAll, pushes]
  | cons op ops ih =>
    rw [performAll, List.foldl_cons, ← performAll, ih, object?_perform, pushes, List.mem_append,
      Option.mem_toList, or_left_comm, or_assoc]

/-! ### Taking values back -/

/-- There is a reference to an object at a position. -/
def Finds (x : Exchange) (position : Nat) (o : Object) : Prop :=
  ∃ v, x.stack.get? position = some v ∧ x.world.heap.object? v = some o

theorem wrap_injective {α : Type} [Exposed α] {a b : α} (h : Exposed.wrap a = Exposed.wrap b) :
    a = b := by
  have ha := (Exposed.unwrap?_eq_some (Exposed.wrap b) a).mpr h.symm
  have hb := (Exposed.unwrap?_eq_some (Exposed.wrap b) b).mpr rfl
  exact Option.some.inj (ha.symm.trans hb)

section Check

variable {x : Exchange} {α : Type} [Exposed α] {position : Nat}

theorem Finds.unique {o o' : Object} (h : x.Finds position o) (h' : x.Finds position o') :
    o = o' := by
  obtain ⟨v, hv, ho⟩ := h
  obtain ⟨v', hv', ho'⟩ := h'
  obtain rfl := Option.some.inj (hv.symm.trans hv')
  exact Option.some.inj (ho.symm.trans ho')

/-- The object at a position is asked for its type first, and the host only then. -/
theorem check_of_finds {a : α} (h : x.Finds position (Exposed.wrap a)) (held : Bool) :
    x.check position held = if held then .error (.handleBusy (Exposed.type α)) else .ok a := by
  obtain ⟨v, hv, ho⟩ := h
  have hunwrap := (Exposed.unwrap?_eq_some (Exposed.wrap a) a).mpr rfl
  unfold check Heap.check
  rw [hv, Option.bind_some, ho, Option.bind_some, hunwrap]
  rfl

theorem check_of_not_finds (h : ∀ a : α, ¬x.Finds position (Exposed.wrap a)) (held : Bool) :
    (x.check position held : Except CallError α) = .error (.typeMismatch position
      (Exposed.type α).name (Value.describe (x.stack.get? position))) := by
  unfold check Heap.check
  cases hfound : ((x.stack.get? position).bind x.world.heap.object?).bind
      (Exposed.unwrap? : Object → Option α) with
  | none => rfl
  | some a =>
    obtain ⟨o, ho, ha⟩ := Option.bind_eq_some_iff.mp hfound
    obtain rfl := (Exposed.unwrap?_eq_some o a).mp ha
    exact absurd (Option.bind_eq_some_iff.mp ho) (h a)

theorem check_eq_ok_iff {held : Bool} {a : α} :
    x.check position held = .ok a ↔ x.Finds position (Exposed.wrap a) ∧ held = false := by
  by_cases hfinds : ∃ b : α, x.Finds position (Exposed.wrap b)
  · obtain ⟨b, hb⟩ := hfinds
    rw [check_of_finds hb]
    cases held with
    | true => exact iff_of_false nofun nofun
    | false =>
      refine ⟨fun h => ?_, fun ⟨ha, _⟩ => ?_⟩
      · obtain rfl := Except.ok.inj h
        exact ⟨hb, rfl⟩
      · rw [wrap_injective (ha.unique hb)]
        rfl
  · rw [check_of_not_finds (not_exists.mp hfinds)]
    exact iff_of_false nofun fun ⟨ha, _⟩ => hfinds ⟨a, ha⟩

theorem checkOpt_of_missing
    (h : x.stack.get? position = none ∨ x.stack.get? position = some .nil) (held : Bool) :
    (x.checkOpt position held : Except CallError (Option α)) = .ok none := by
  unfold checkOpt
  rcases h with h | h <;> rw [h]

theorem checkOpt_of_present
    (h : ¬(x.stack.get? position = none ∨ x.stack.get? position = some .nil)) (held : Bool) :
    (x.checkOpt position held : Except CallError (Option α)) =
      (x.check position held).map some := by
  obtain ⟨hnone, hnil⟩ := not_or.mp h
  unfold checkOpt
  split <;> first | contradiction | rfl

theorem checkOpt_eq_none_iff {held : Bool} :
    (x.checkOpt position held : Except CallError (Option α)) = .ok none ↔
      x.stack.get? position = none ∨ x.stack.get? position = some .nil := by
  refine ⟨fun h => Classical.byContradiction fun hpresent => ?_,
    fun h => checkOpt_of_missing h held⟩
  rw [checkOpt_of_present hpresent] at h
  cases hcheck : (x.check position held : Except CallError α) <;> rw [hcheck] at h <;> cases h

end Check

/-! ### Soundness -/

/-- A position holds a native value: the value there was pushed for it, or was there before. -/
def Holds (w : World) (pushed : List (Value × Object)) (x : Exchange) (position : Nat)
    (o : Object) : Prop :=
  ∃ v, x.stack.get? position = some v ∧ ((v, o) ∈ pushed ∨ w.heap.object? v = some o)

/-- What an exchange does after operations, in the course of which values were pushed. -/
structure Sound (w : World) (ops : List Operation) (pushed : List (Value × Object))
    (x : Exchange) : Prop where
  /-- A type is new if it was not registered before. -/
  register_new (t : ObjectType) : .register t ∉ ops →
    x.register t = (true, { x with registered := x.registered ++ [t] })
  register_again (t : ObjectType) : .register t ∈ ops → x.register t = (false, x)
  /-- A native value of a registered type becomes a new object, which goes on top of the stack. -/
  push_registered {α : Type} [Exposed α] (a : α) : .register (Exposed.type α) ∈ ops →
    x.push a = .ok { x with
      world := (x.world.newObject (Exposed.wrap a)).2
      stack := x.stack.push (x.world.newObject (Exposed.wrap a)).1 }
  push_unregistered {α : Type} [Exposed α] (a : α) : .register (Exposed.type α) ∉ ops →
    x.push a = .error (.unregistered (Exposed.type α)) ∧ x.perform (.push a) = x
  /-- Any value can be pushed. It goes on top of the stack, and nothing else changes. -/
  pushValue_get? (v : Value) (position : Nat) : (x.pushValue v).stack.get? position =
    if position = x.stack.height + 1 then some v else x.stack.get? position
  pushValue_keeps (v : Value) : { x.pushValue v with stack := x.stack } = x
  /-- The value on top is taken off the stack, and nothing else changes. -/
  pop_top : x.pop.1 = x.stack.get? x.stack.height
  pop_get? (position : Nat) : x.pop.2.stack.get? position =
    if position = x.stack.height then none else x.stack.get? position
  pop_keeps : { x.pop.2 with stack := x.stack } = x
  /-- The very value that a position holds comes back, unless the host holds it. -/
  check_ok {α : Type} [Exposed α] (position : Nat) (held : Bool) (a : α) :
    x.check position held = .ok a ↔ Holds w pushed x position (Exposed.wrap a) ∧ held = false
  check_held {α : Type} [Exposed α] (position : Nat) (a : α) :
    Holds w pushed x position (Exposed.wrap a) →
      (x.check position true : Except CallError α) = .error (.handleBusy (Exposed.type α))
  check_mismatch (α : Type) [Exposed α] (position : Nat) (held : Bool) :
    (∀ a : α, ¬Holds w pushed x position (Exposed.wrap a)) →
      (x.check position held : Except CallError α) = .error (.typeMismatch position
        (Exposed.type α).name (Value.describe (x.stack.get? position)))
  /-- Where nothing is, or nil, there is no value, and where anything else is this is an ordinary
  check. -/
  checkOpt_none (α : Type) [Exposed α] (position : Nat) (held : Bool) :
    (x.checkOpt position held : Except CallError (Option α)) = .ok none ↔
      x.stack.get? position = none ∨ x.stack.get? position = some .nil
  checkOpt_present (α : Type) [Exposed α] (position : Nat) (held : Bool) :
    ¬(x.stack.get? position = none ∨ x.stack.get? position = some .nil) →
      (x.checkOpt position held : Except CallError (Option α)) = (x.check position held).map some
  missing (position : Nat) : x.stack.get? position = none ↔
    position = 0 ∨ x.stack.height < position
  /-- Taking back changes nothing. -/
  check_keeps (α : Type) [Exposed α] (position : Nat) (held : Bool) :
    x.perform (.check α position held) = x ∧ x.perform (.checkOpt α position held) = x

/-- **The exchange of native values is sound.** After any operations, on an exchange with nothing
registered and nothing on the stack: a type is new just if it was not registered before; a native
value is pushed just if its type is registered, and any other value always; what is pushed goes on
top of the stack, and the value on top is taken off; and what is taken back is the very value that
was pushed, if there is one of the type at the position and the host does not hold it, or an error
that tells which of the two it is. -/
theorem exchange_sound (w : World) (ops : List Operation) :
    Sound w ops ((start w).pushes ops) ((start w).performAll ops) := by
  have hregistered (t : ObjectType) :
      t ∈ ((start w).performAll ops).registered ↔ .register t ∈ ops :=
    (mem_registered_performAll (start w) ops).trans (or_iff_left List.not_mem_nil)
  have hholds (position : Nat) (o : Object) :
      Holds w ((start w).pushes ops) ((start w).performAll ops) position o ↔
        ((start w).performAll ops).Finds position o := by
    simp only [Holds, Finds, object?_performAll]
    rfl
  generalize (start w).performAll ops = x at *
  generalize (start w).pushes ops = pushed at *
  exact {
    register_new := fun t ht => register_of_not_mem (mt (hregistered t).mp ht)
    register_again := fun t ht => register_of_mem ((hregistered t).mpr ht)
    push_registered := fun a ht => push_of_mem ((hregistered _).mpr ht) a
    push_unregistered := fun a ht => by
      have hpush := push_of_not_mem (mt (hregistered _).mp ht) a
      exact ⟨hpush, by rw [perform, hpush]⟩
    pushValue_get? := x.stack.get?_push
    pushValue_keeps := fun _ => rfl
    pop_top := x.stack.fst_pop
    pop_get? := x.stack.get?_pop
    pop_keeps := rfl
    check_ok := fun position held a => by rw [hholds, check_eq_ok_iff]
    check_held := fun position a h => check_of_finds ((hholds _ _).mp h) true
    check_mismatch := fun α _ position held h =>
      check_of_not_finds (fun a => mt (hholds _ _).mpr (h a)) held
    checkOpt_none := fun _ _ _ _ => checkOpt_eq_none_iff
    checkOpt_present := fun _ _ _ held h => checkOpt_of_present h held
    missing := fun _ => Stack.get?_eq_none_iff
    check_keeps := fun _ _ _ _ => ⟨rfl, rfl⟩ }

end Exchange

end KeyLight
