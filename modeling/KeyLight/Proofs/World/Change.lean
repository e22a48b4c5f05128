import KeyLight.Machine.Step
import Mathlib.Logic.Relation

/-!
# What scripts can change

A script changes the world in five ways: it changes its heap and its global variables, prints,
writes a render target through a handle it holds, and starts threads. `World.Change` has one
constructor for each, so what a script cannot change, such as the context or the states of other
threads, is read off the five constructors and not off the steps of a script.
-/

namespace KeyLight

open Relation

namespace Except

variable {ε ε' α β : Type}

theorem exists_of_bind_eq_ok {x : Except ε α} {f : α → Except ε β} {b : β}
    (h : x >>= f = .ok b) : ∃ a, x = .ok a ∧ f a = .ok b := by
  cases x with
  | error e => cases h
  | ok a => exact ⟨a, rfl, h⟩

/-- What comes of one thing after the other fails with the first of them that does. -/
theorem bind_eq_error_iff {x : Except ε α} {f : α → Except ε β} {e : ε} :
    x >>= f = .error e ↔ x = .error e ∨ ∃ a, x = .ok a ∧ f a = .error e := by
  constructor
  · intro h
    cases x with
    | error e' => exact .inl (congrArg _ (Except.error.inj h))
    | ok a => exact .inr ⟨a, rfl, h⟩
  · rintro (rfl | ⟨a, rfl, h⟩)
    · rfl
    · exact h

@[simp] theorem mapError_ok (f : ε → ε') (a : α) :
    (Except.ok a : Except ε α).mapError f = .ok a := rfl

theorem eq_ok_of_mapError {x : Except ε α} {f : ε → ε'} {a : α}
    (h : x.mapError f = .ok a) : x = .ok a := by
  cases x with
  | error e => cases h
  | ok b => exact congrArg Except.ok (Except.ok.inj h)

theorem exists_of_map_eq_ok {x : Except ε α} {f : α → β} {b : β} (h : x.map f = .ok b) :
    ∃ a, x = .ok a ∧ f a = b := by
  cases x with
  | error e => cases h
  | ok a => exact ⟨a, rfl, Except.ok.inj h⟩

end Except

namespace World

/-- One change that a script can make. -/
inductive Change (w : World) : World → Prop
  | heap (h : Heap) : Change w { w with heap := h }
  | global (x : String) (v : Value) : Change w (w.withRealm (w.setGlobal x v))
  | print (controller : Nat) (text : String) : Change w (w.tell (@Notice.printed controller text))
  | target {v : Value} {h : TargetHandle} {change : RenderTarget → Option RenderTarget} {r : Realm}
      (hv : w.heap.object? v = some (.target h)) (hr : w.writeTarget h change = .ok (some r)) :
      Change w (w.withRealm r)
  | start (routine : Value) (args : List Value) :
      Change w { w with scheduler := (w.scheduler.spawn (.fresh routine args)).2 }

/-- The changes that a script can make, one after the other. -/
def Changes (w w' : World) : Prop := ReflTransGen Change w w'

variable {w w' w'' : World}

theorem Changes.refl (w : World) : w.Changes w := ReflTransGen.refl

theorem Changes.trans (h₁ : w.Changes w') (h₂ : w'.Changes w'') : w.Changes w'' :=
  ReflTransGen.trans h₁ h₂

theorem Change.changes (h : w.Change w') : w.Changes w' := ReflTransGen.single h

theorem changes_startThread (w : World) (routine : Value) (args : List Value) :
    w.Changes (Effect.startThread w routine args).2 :=
  -- the thread is started, and then the heap has a handle on it
  (Change.start routine args).changes.trans (Change.heap _).changes

/-! ### Methods -/

/-- What a method is called on is its first argument. -/
theorem exists_mem_of_receiver {α : Type} [Exposed α] {m : Method} {args : List Value} {a : α}
    (h : w.receiver m args = .ok a) :
    ∃ v ∈ args, w.heap.object? v = some (Exposed.wrap a) := by
  unfold receiver at h
  cases args with
  | nil => cases h
  | cons v args =>
    simp only at h
    split at h
    · rename_i b hunwrap
      obtain rfl : b = a := Except.ok.inj h
      obtain ⟨o, ho, hwrap⟩ := Option.bind_eq_some_iff.mp hunwrap
      refine ⟨v, List.mem_cons_self, ho.trans (congrArg some ?_)⟩
      exact (Exposed.unwrap?_eq_some o b).mp hwrap
    · cases h

end World

/-! ### Steps -/

/-- The world that a step leads to. -/
def Next.world : Next → World
  | .running w _ _ => w
  | .halted w _ => w

/-- The same point in another world. -/
def Next.mapWorld (f : World → World) : Next → Next
  | .running w control frames => .running (f w) control frames
  | .halted w halt => .halted (f w) halt

@[simp] theorem Next.world_mapWorld (f : World → World) (next : Next) :
    (next.mapWorld f).world = f next.world := by
  cases next <;> rfl

end KeyLight
