import KeyLight.Native.Capability

/-!
# Balanced native functions

A body finds the arguments of a call on the stack, pushes its results above them and says how many
they are. The caller is handed as many values from the top as the body says. If that is more than
the body has pushed, arguments get out; if it is less, results are lost.

`Balanced` says that the arguments are below as they were and that the results are above them. A
push keeps the balance (`Balanced.push`), so every way through a body that does not fail ends in
balance (`EndsBalanced`). The main statement, `Capability.balanced`, is that this is so for every
capability, and that then the assertion on the height of the stack holds and the caller is handed
the results.
-/

namespace KeyLight

/-- Below are the arguments as they were, and above are the results. -/
structure Balanced (args : List Value) (s : Stack) (results : List Value) (count : Nat) : Prop where
  values : s.values = args ++ results
  length : results.length = count

namespace Balanced

variable {args results : List Value} {s : Stack} {count : Nat}

theorem ofArguments (args : List Value) : Balanced args (.ofArguments args) [] 0 where
  values := (List.append_nil args).symm
  length := rfl

/-- A push makes one more result. -/
theorem push (h : Balanced args s results count) (v : Value) :
    Balanced args (s.push v) (results ++ [v]) (count + 1) where
  values := by rw [Stack.push, h.values, List.append_assoc]
  length := by rw [List.length_append, h.length, List.length_singleton]

/-- The stack is as high as the assertion wants it to be. -/
theorem height_eq (h : Balanced args s results count) :
    s.height = (Stack.ofArguments args).height + count := by
  rw [Stack.height, h.values, List.length_append, h.length]
  rfl

/-- The values on top are the results, and no arguments are among them. -/
theorem results_eq (h : Balanced args s results count) : s.results count = results := by
  have hsplit : s.height - count = args.length := by
    rw [h.height_eq, Nat.add_sub_cancel]
    rfl
  rw [Stack.results, hsplit, h.values, List.drop_left]

end Balanced

/-! ### Bodies -/

/-- How a body ends that does what it says: it fails, or it leaves a number of results. -/
inductive EndsBalanced (args : List Value) (count : Nat) :
    Except Fault (World × Stack × Nat) → Prop
  | failed (f : Fault) : EndsBalanced args count (.error f)
  | returned {w : World} {s : Stack} {results : List Value} (h : Balanced args s results count) :
    EndsBalanced args count (.ok (w, s, count))

section Bodies

variable {w : World} {args : List Value} {count : Nat} {body : NativeBody}

/-- Where a body may fail, only what it does otherwise has to be looked at. -/
theorem EndsBalanced.bind {α : Type} {x : Except Fault α}
    {next : α → Except Fault (World × Stack × Nat)}
    (h : ∀ a, EndsBalanced args count (next a)) : EndsBalanced args count (x >>= next) := by
  cases x with
  | error f => exact .failed f
  | ok a => exact h a

/-- It either fails, or the caller is handed what is above the arguments. -/
theorem EndsBalanced.entryPoint_eq (h : EndsBalanced args count (body w (.ofArguments args))) :
    (∃ f, body w (.ofArguments args) = .error f ∧ entryPoint body w args = (.error f, w)) ∨
      ∃ w' s results, body w (.ofArguments args) = .ok (w', s, count) ∧
        Balanced args s results count ∧ entryPoint body w args = (.ok results, w') := by
  unfold entryPoint
  generalize body w (.ofArguments args) = outcome at h ⊢
  cases h with
  | failed f => exact .inl ⟨f, rfl, rfl⟩
  | @returned w' s results hbalanced =>
    refine .inr ⟨w', s, results, rfl, hbalanced, ?_⟩
    rw [← hbalanced.results_eq]

/-- The assertion on the height holds. -/
theorem EndsBalanced.checkedEntryPoint_eq
    (h : EndsBalanced args count (body w (.ofArguments args))) :
    checkedEntryPoint body w args = some (entryPoint body w args) := by
  simp only [checkedEntryPoint, entryPoint]
  generalize body w (.ofArguments args) = outcome at h ⊢
  cases h with
  | failed f => rfl
  | returned hbalanced => exact if_pos hbalanced.height_eq

end Bodies

/-! ### Capabilities -/

namespace Capability

/-- The number of results that a capability has. -/
def resultCount : Capability → Nat
  | .print => 0
  | .tocolor | .fade | .thread | .wait | .now => 1

variable (w : World) (args : List Value)

theorem printBody_balanced : EndsBalanced args 0 (printBody w (.ofArguments args)) := by
  refine .bind fun _ => .bind fun text => ?_
  exact .returned (.ofArguments args)

theorem tocolorBody_balanced : EndsBalanced args 1 (tocolorBody w (.ofArguments args)) := by
  refine .bind fun described => ?_
  cases described with
  | some c => exact .returned ((Balanced.ofArguments args).push _)
  | none => exact .returned ((Balanced.ofArguments args).push .nil)

theorem fadeBody_balanced : EndsBalanced args 1 (fadeBody w (.ofArguments args)) := by
  refine .bind fun f => ?_
  exact .returned ((Balanced.ofArguments args).push _)

theorem threadBody_balanced : EndsBalanced args 1 (threadBody w (.ofArguments args)) := by
  unfold threadBody
  cases ((Stack.ofArguments args).get? 1).filter Value.isFunction with
  | some routine => exact .returned ((Balanced.ofArguments args).push _)
  | none => exact .failed _

theorem requestBody_balanced : EndsBalanced args 1 (requestBody w (.ofArguments args)) := by
  refine .bind fun seconds => ?_
  exact .returned ((Balanced.ofArguments args).push _)

theorem nowBody_balanced : EndsBalanced args 1 (nowBody w (.ofArguments args)) :=
  .returned ((Balanced.ofArguments args).push _)

theorem body_balanced (c : Capability) :
    EndsBalanced args c.resultCount (c.body w (.ofArguments args)) := by
  cases c with
  | print => exact printBody_balanced w args
  | tocolor => exact tocolorBody_balanced w args
  | fade => exact fadeBody_balanced w args
  | thread => exact threadBody_balanced w args
  | wait => exact requestBody_balanced w args
  | now => exact nowBody_balanced w args

/-- **Every capability is balanced**, whatever the arguments and the world are. The assertion on the
height of the stack holds. The body either fails, and so does the call, or it leaves the arguments
as they were below its results, and the caller is handed just these. -/
theorem balanced (c : Capability) :
    checkedEntryPoint c.body w args = some (entryPoint c.body w args) ∧
      ((∃ f, c.body w (.ofArguments args) = .error f ∧
          entryPoint c.body w args = (.error f, w)) ∨
        ∃ w' s results, c.body w (.ofArguments args) = .ok (w', s, c.resultCount) ∧
          Balanced args s results c.resultCount ∧
          entryPoint c.body w args = (.ok results, w')) := by
  have hends := body_balanced w args c
  exact ⟨hends.checkedEntryPoint_eq, hends.entryPoint_eq⟩

-- A body that says one too many hands out an argument, unless the height is looked at.
example (v : Value) : entryPoint (fun w s => .ok (w, s, 1)) w [v] = (.ok [v], w) ∧
    checkedEntryPoint (fun w s => .ok (w, s, 1)) w [v] = none :=
  ⟨rfl, rfl⟩

end Capability

end KeyLight
