import KeyLight.Proofs.Machine.Native
import KeyLight.Proofs.World.Calm

/-!
# What a step does that others can notice

A step that calls nothing is calm but for the variable that it may assign to. What a call of a
function does is its `Deed`, which only capabilities have: printing says a text, and `fade` makes an
interpolator. So all that a step does is told by the call that it makes, if it makes one, and by the
variable that it assigns to (`does_step`).
-/

namespace KeyLight

/-! ### Deeds -/

/-- What a script does that others can notice for good. -/
structure Deed where
  /-- The text that a controller is sent, with the number of the controller. -/
  said : Option (Nat × String)
  /-- The fade that is made. -/
  made : Option Interpolator
  /-- The variable that is given a value. -/
  touched : Option Variable
  deriving Repr, DecidableEq

/-- A world after a deed. Nothing else has happened that others can notice. -/
structure World.Does (d : Deed) (w w' : World) : Prop where
  sent : w'.sent = w.sent ++ d.said.toList
  has : ∀ x, w.HasVariable x → w'.HasVariable x
  kept : ∀ x, w.HasVariable x → d.touched ≠ some x → w'.valueOf x = w.valueOf x
  fades : ∀ (id : Nat) (f : Interpolator), w'.heap.objects[id]? = some (.fade f) →
    w.heap.objects[id]? = some (.fade f) ∨ d.made = some f

theorem World.Calm.does {touched : Option Variable} {w w' : World} (h : w.Calm touched w') :
    World.Does ⟨none, none, touched⟩ w w' where
  sent := h.sent.trans (List.append_nil _).symm
  has := h.has
  kept := h.kept
  fades := fun id f hf => .inl (h.fades id f hf)

/-- The text that an effect sends to a controller, with the number of the controller. -/
def Effect.said? : Effect → Option (Nat × String)
  | .say id text => some (id, text)
  | .give _ | .make _ | .start _ _ => none

/-- The fade that an effect makes. -/
def Effect.made? : Effect → Option Interpolator
  | .make o => (Datum.object o).fade?
  | .give _ | .say _ _ | .start _ _ => none

/-- Printing is what says a text and `fade` is what makes a fade. The other capabilities do nothing
that others can notice. -/
theorem Capability.effect_cases {w : World} {k : Capability} {s : Stack} {effect : Effect}
    (h : k.effect w s = .ok effect) :
    (k = .print ∧ ∃ id text, effect = .say id text) ∨
      (k = .fade ∧ ∃ f, effect = .make (.fade f)) ∨ effect.said? = none ∧ effect.made? = none := by
  cases k with
  | print =>
    obtain ⟨attached, -, h⟩ := Except.exists_of_bind_eq_ok h
    obtain ⟨text, -, h⟩ := Except.exists_of_bind_eq_ok h
    exact .inl ⟨rfl, attached.1, text, (Except.ok.inj h).symm⟩
  | fade =>
    obtain ⟨f, -, h⟩ := Except.exists_of_bind_eq_ok h
    exact .inr (.inl ⟨rfl, f, (Except.ok.inj h).symm⟩)
  | tocolor =>
    obtain ⟨c, -, h⟩ := Except.exists_of_bind_eq_ok h
    cases c <;> obtain rfl := Except.ok.inj h <;> exact .inr (.inr ⟨rfl, rfl⟩)
  | thread =>
    simp only [Capability.effect] at h
    split at h
    · obtain rfl := Except.ok.inj h
      exact .inr (.inr ⟨rfl, rfl⟩)
    · cases h
  | wait =>
    obtain ⟨x, -, h⟩ := Except.exists_of_bind_eq_ok h
    obtain rfl := Except.ok.inj h
    exact .inr (.inr ⟨rfl, rfl⟩)
  | now =>
    obtain rfl := Except.ok.inj h
    exact .inr (.inr ⟨rfl, rfl⟩)

/-- A call of a function, with what is left to do after it. -/
structure Invocation where
  callee : Value
  args : List Value
  frames : List Frame

namespace Invocation

/-- The effect of a call that a capability does not refuse. -/
def effect? (w : World) (c : Invocation) : Option Effect :=
  match c.callee with
  | .builtin (.capability k) => (k.effect w (.ofArguments c.args)).toOption
  | _ => none

theorem effect?_capability (w : World) (k : Capability) (args : List Value)
    (frames : List Frame) :
    effect? w ⟨.builtin (.capability k), args, frames⟩ =
      (k.effect w (.ofArguments args)).toOption := rfl

/-- A call with an effect is one of a capability. -/
theorem exists_of_effect? {w : World} {c : Invocation} {effect : Effect}
    (h : c.effect? w = some effect) :
    ∃ k, c.callee = .builtin (.capability k) ∧ k.effect w (.ofArguments c.args) = .ok effect := by
  unfold effect? at h
  split at h
  · rename_i k hk
    refine ⟨k, hk, ?_⟩
    cases heffect : k.effect w (.ofArguments c.args) with
    | error f => simp [heffect, Except.toOption] at h
    | ok other =>
      rw [heffect] at h
      exact congrArg Except.ok (Option.some.inj h)
  · cases h

/-- What a call does that others can notice. -/
def deed (w : World) (c : Invocation) : Deed :=
  ⟨(c.effect? w).bind Effect.said?, (c.effect? w).bind Effect.made?, none⟩

end Invocation

/-! ### Operations -/

/-- The call that an operation is. -/
def Operation.invocation? (operands : List Value) (frames : List Frame) :
    Operation → Option Invocation
  | .call => some ⟨operands.headD .nil, operands.tail, frames⟩
  | .apply => some ⟨operands.getD 1 .nil, operands.headD .nil :: operands.drop 2, frames⟩
  | .send .. | .index | .length | .not | .binary _ | .table | .assign _ | .put | .discard | .raise
  | .yield | .finish | .branch .. | .loop .. | .count .. => none

/-- The variable that an operation assigns to. -/
def Operation.assigned? (scope : Scope) : Operation → Option Variable
  | .assign x => some (scope.variable x)
  | .call | .send .. | .apply | .index | .length | .not | .binary _ | .table | .put | .discard
  | .raise | .yield | .finish | .branch .. | .loop .. | .count .. => none

/-- The call that a step makes. -/
def Control.invocation? : Control → List Frame → Option Invocation
  | .give v, .operands op done [] _ :: frames => op.invocation? (v :: done).reverse frames
  | _, _ => none

/-- The variable that a step assigns to. -/
def Control.assigned? : Control → List Frame → Option Variable
  | .give _, .operands op _ [] scope :: _ => op.assigned? scope
  | _, _ => none

/-- What a step does that others can notice. -/
def Control.deed (w : World) (control : Control) (frames : List Frame) : Deed :=
  match control.invocation? frames with
  | some c => c.deed w
  | none => ⟨none, none, control.assigned? frames⟩

namespace Effect

variable {w : World}

/-- An effect does what it tells. -/
theorem does_reply (effect : Effect) :
    World.Does ⟨effect.said?, effect.made?, none⟩ w (effect.reply w).2 := by
  cases effect with
  | give vs => exact (World.Calm.refl w).does
  | say id text =>
    have hsent : (w.tell (@Notice.printed id text)).sent = w.sent ++ [(id, text)] := w.sent_note _
    exact ⟨hsent, fun x hx => by cases x <;> exact hx, fun x _ _ => by cases x <;> rfl,
      fun _ _ hf => .inl hf⟩
  | make o =>
    cases o with
    | fade f =>
      refine ⟨(List.append_nil _).symm, fun x hx => by cases x <;> exact hx,
        fun x _ _ => by cases x <;> rfl, fun id g hg => ?_⟩
      change (w.heap.objects.push (.fade f))[id]? = some (.fade g) at hg
      rw [Array.getElem?_push] at hg
      split at hg
      · exact .inr (congrArg some (Object.fade.inj (Option.some.inj hg)))
      · exact .inl hg
    | color | thread | suspension | board | group | key | target =>
      refine World.Calm.does (World.Calm.newObject w ?_)
      nofun
  | start routine args => exact (World.Calm.startThread w routine args).does

end Effect

namespace Machine

open World (Calm Does)

variable {place : Place} {w w' : World} {frames : List Frame} {touched : Option Variable}

/-! ### Calls -/

theorem calm_block (hw : w.Calm touched w') (scope : Scope) (body : List Stmt) :
    w.Calm touched (block w' scope frames body).world := by
  cases body <;> exact hw

theorem calm_reply (result : Except Fault Value) (hw : w.Calm touched w') :
    w.Calm touched (reply w' frames result).world := by
  cases result <;> exact hw

theorem calm_suspend (vs kept : List Value) (hw : w.Calm touched w') :
    w.Calm touched (suspend place w' vs frames kept).world := by
  cases place <;> exact hw

theorem does_callCapability (place : Place) (w : World) (k : Capability) (args : List Value)
    (frames : List Frame) :
    Does (Invocation.deed w ⟨.builtin (.capability k), args, frames⟩) w
      (callCapability place w k args frames).world := by
  rw [Invocation.deed, Invocation.effect?_capability]
  cases heffect : k.effect w (.ofArguments args) with
  | error f =>
    rw [callCapability_of_refused place frames heffect]
    exact (Calm.refl w).does
  | ok effect =>
    -- a call that waits has the effect to make its request, and suspends the caller after it
    have hreply : (callCapability place w k args frames).world = (effect.reply w).2 := by
      by_cases hk : k = .wait
      · subst hk
        rw [callCapability_wait_of_ok place frames heffect]
        cases place <;> rfl
      · rw [callCapability_of_ok place frames hk heffect]
        rfl
    rw [hreply]
    exact effect.does_reply

/-- **What a call does.** -/
theorem does_call (place : Place) (w : World) (c : Invocation) :
    Does (c.deed w) w (call place w c.callee c.args c.frames).world := by
  obtain ⟨f, args, frames⟩ := c
  simp only
  cases f with
  | builtin f =>
    cases f with
    | capability k => exact does_callCapability place w k args frames
    | tostring => exact (calm_reply _ (.refl w)).does
    | method m => exact (calm_reply _ (Calm.callMethod w m args)).does
  | closure id =>
    suffices h : w.Calm none (call place w (.closure id) args frames).world from h.does
    simp only [call]
    split
    · exact .refl w
    · split
      · exact .refl w
      · exact calm_block (Calm.addVariables w _) _ _
  | nil | bool | int | float | text | table | object => exact (Calm.refl w).does

/-! ### Operations -/

theorem calm_round (counter : Counter) (x : String) (body : List Stmt) (scope : Scope) :
    w.Calm touched (round w counter x body scope frames).world :=
  calm_block (Calm.addVariable w counter.value) _ body

/-- An operation that is no call does nothing but that it may assign to a variable. -/
theorem calm_operate {op : Operation} {operands : List Value} {scope : Scope}
    (hop : op.invocation? operands frames = none) :
    w.Calm (op.assigned? scope) (operate place w op operands scope frames).world := by
  -- apart from the assignment all of them only read, make something new or write to tables
  cases op with
  | call | apply => cases hop
  | send method args =>
    simp only [operate]
    split
    · rename_i datum hdatum
      exact Calm.realize w (World.fade?_index hdatum)
    · exact .refl w
  | index =>
    simp only [operate, replyDatum]
    split
    · rename_i datum hdatum
      exact Calm.realize w (World.fade?_index hdatum)
    · exact .refl w
  | length | binary => exact calm_reply _ (.refl w)
  | not | discard | raise | finish => exact .refl w
  | table => exact Calm.addTable w _
  | assign x => exact Calm.assign w scope x _
  | put =>
    simp only [operate, continueWith]
    split
    · rename_i w' hput
      exact Calm.put hput
    · exact .refl w
  | yield => exact calm_suspend _ _ (.refl w)
  | branch yes no => exact calm_block (.refl w) _ _
  | loop condition body =>
    simp only [operate]
    split
    · exact calm_block (.refl w) _ _
    · exact .refl w
  | count x body =>
    simp only [operate]
    split
    · exact calm_round _ x body scope
    · exact .refl w
    · exact .refl w

theorem calm_start (scope : Scope) (e : Expr) :
    w.Calm none (start place w scope frames e).world := by
  cases e with
  | table items =>
    cases items with
    | nil => exact Calm.addTable w _
    | cons => exact .refl w
  | function params body => exact Calm.addClosure w _
  | nil | bool | int | float | text | name | call | send | index | length | not | binary
  | guarded => exact .refl w

theorem calm_begin (scope : Scope) (s : Stmt) :
    w.Calm none (begin place w scope frames s).world := by
  cases s with
  | yield values =>
    cases values with
    | nil => exact calm_suspend _ _ (.refl w)
    | cons => exact .refl w
  | assign | put | discard | raise | finish | branch | loop | count => exact .refl w

theorem calm_proceed (frame : Frame) : w.Calm none (proceed place w frame frames).world := by
  cases frame with
  | operands | guard | call => exact .refl w
  | block rest scope => exact calm_block (.refl w) scope rest
  | loop condition body scope => exact .refl w
  | count counter x body scope =>
    simp only [proceed]
    split
    · exact calm_round _ x body scope
    · exact .refl w

/-! ### Steps -/

/-- A step that calls a function is the call. -/
theorem step_of_invocation {control : Control} {c : Invocation}
    (hc : control.invocation? frames = some c) :
    step place w control frames = call place w c.callee c.args c.frames := by
  unfold Control.invocation? at hc
  split at hc
  · rename_i v op done scope frames
    cases op with
    | call | apply =>
      obtain rfl := Option.some.inj hc
      rfl
    | send | index | length | not | binary | table | assign | put | discard | raise | yield
    | finish | branch | loop | count => cases hc
  · cases hc

/-- A step that calls no function does nothing but that it may assign to a variable. -/
theorem calm_step {control : Control} (hc : control.invocation? frames = none) :
    w.Calm (control.assigned? frames) (step place w control frames).world := by
  -- the only step that assigns gives an operation its last operand
  cases control with
  | eval e scope => exact calm_start scope e
  | exec s scope => exact calm_begin scope s
  | give v =>
    cases frames with
    | nil => exact .refl w
    | cons frame frames =>
      cases frame with
      | operands op done rest scope =>
        cases rest with
        | nil => exact calm_operate hc
        | cons e es => exact .refl w
      | block | loop | count | call | guard => exact .refl w
  | proceed =>
    cases frames with
    | nil => exact .refl w
    | cons frame frames => exact calm_proceed frame
  | leave v =>
    cases frames with
    | nil => exact .refl w
    | cons frame frames => cases frame <;> exact .refl w
  | raise f =>
    cases frames with
    | nil => exact .refl w
    | cons frame frames => cases frame <;> exact .refl w

/-- **What a step does**: what the call does that it makes, or it assigns to a variable. -/
theorem does_step (place : Place) (w : World) (control : Control) (frames : List Frame) :
    Does (control.deed w frames) w (step place w control frames).world := by
  unfold Control.deed
  cases hc : control.invocation? frames with
  | some c =>
    rw [step_of_invocation hc]
    exact does_call place w c
  | none => exact (calm_step hc).does

end Machine

end KeyLight
