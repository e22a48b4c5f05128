import KeyLight.Proofs.World.Lease
import KeyLight.Proofs.World.Replace

/-!
# What an operation does not depend on

`Operation.subjects` are the values that an operation looks into: its operands, and for a call the
arguments. If these are withheld from a thing of the host then the operation comes out the same
whatever the contents of the thing are, and the thing is left as it is (`operate_replace`,
`sameAt_operate`).
-/

namespace KeyLight

/-- The values that an operation looks into: its operands, and for a call what it passes on. -/
def Operation.subjects (op : Operation) (operands : List Value) : List Value :=
  match op with
  | .call => operands.tail
  | _ => operands

namespace Machine

variable {place : Place} {w : World} {x : Replacement} {scope : Scope} {frames : List Frame}

/-! ### Going on -/

theorem block_replace (body : List Stmt) :
    block (w.replace x) scope frames body =
      (block w scope frames body).mapWorld fun w => w.replace x := by
  cases body <;> rfl

theorem reply_replace (result : Except Fault Value) :
    reply (w.replace x) frames result = (reply w frames result).mapWorld fun w => w.replace x := by
  cases result <;> rfl

theorem replyDatum_replace (result : Except Fault Datum) :
    replyDatum (w.replace x) frames result =
      (replyDatum w frames result).mapWorld fun w => w.replace x := by
  cases result with
  | error f => rfl
  | ok datum => cases datum <;> rfl

theorem suspend_replace (values kept : List Value) :
    suspend place (w.replace x) values frames kept =
      (suspend place w values frames kept).mapWorld fun w => w.replace x := by
  cases place <;> rfl

/-! ### Calls -/

variable {args : List Value}

theorem callCapability_replace (c : Capability) (hargs : w.Withheld x.thing args) :
    callCapability place (w.replace x) c args frames =
      (callCapability place w c args frames).mapWorld fun w => w.replace x := by
  unfold callCapability
  rw [World.entryPoint_replace c hargs]
  obtain ⟨result, w'⟩ := entryPoint c.body w args
  cases result with
  | error f => rfl
  | ok results =>
    cases c with
    | wait => exact suspend_replace results args
    | print | tocolor | fade | thread | now => rfl

theorem tostring_replace (hargs : w.Withheld x.thing args) :
    tostring (w.replace x) args = tostring w args := by
  cases args with
  | nil => rfl
  | cons v vs => simp only [tostring, World.text_replace (hargs.head rfl)]

/-- **Calling a function.** -/
theorem call_replace (f : Value) (hargs : w.Withheld x.thing args) :
    call place (w.replace x) f args frames =
      (call place w f args frames).mapWorld fun w => w.replace x := by
  cases f with
  | closure id =>
    simp only [call, show (w.replace x).heap = w.heap from rfl]
    cases w.heap.closures[id]? with
    | none => rfl
    | some c =>
      simp only
      split
      · rfl
      · exact block_replace (w := w.updateHeap (·.addVariables (parameterValues c.params args)))
          c.body
  | builtin b =>
    cases b with
    | capability c => exact callCapability_replace c hargs
    | tostring =>
      simp only [call, tostring_replace hargs]
      exact reply_replace _
    | method m =>
      simp only [call, World.callMethod_replace fun v hv => hargs.head hv]
      exact reply_replace _
  | nil | bool | int | float | text | table | object => rfl

/-! ### Operations -/

theorem binary_replace (op : BinaryOp) (a b : Value) :
    binary (w.replace x) op a b = binary w op a b := by
  cases op <;> rfl

theorem assign_replace (name : String) (v : Value) :
    assign (w.replace x) scope name v = (assign w scope name v).replace x := by
  unfold assign
  cases scope.lookup name <;> rfl

theorem round_replace (counter : Counter) (name : String) (body : List Stmt) :
    round (w.replace x) counter name body scope frames =
      (round w counter name body scope frames).mapWorld fun w => w.replace x :=
  block_replace (w := w.updateHeap (·.addVariable counter.value)) body

/-- **An operation does not depend on the contents of a thing that it has no access to.** -/
theorem operate_replace {op : Operation} {operands : List Value}
    (h : w.Withheld x.thing (op.subjects operands)) :
    operate place (w.replace x) op operands scope frames =
      (operate place w op operands scope frames).mapWorld fun w => w.replace x := by
  have hfirst (hall : w.Withheld x.thing operands) : w.Shut x.thing (operands.headD .nil) :=
    hall.headD
  cases op with
  | call => exact call_replace _ h
  | send method args =>
    simp only [operate, World.index_replace (hfirst h)]
    cases w.index (operands.headD .nil) (.ofString method) with
    | error f => rfl
    | ok datum => cases datum <;> rfl
  | apply => exact call_replace _ (h.drop 2)
  | index =>
    simp only [operate, World.index_replace (hfirst h)]
    exact replyDatum_replace _
  | length =>
    simp only [operate, World.length_replace (hfirst h)]
    exact reply_replace _
  | binary op =>
    simp only [operate, binary_replace]
    exact reply_replace _
  | assign name => simp only [operate, assign_replace, Next.mapWorld]
  | put =>
    simp only [operate, World.put_replace (hfirst h)]
    cases w.put (operands.headD .nil) (operands.getD 1 .nil) (operands.getD 2 .nil) <;> rfl
  | raise => simp only [operate, raised, World.text_replace (hfirst h), Next.mapWorld]
  | yield => exact suspend_replace _ _
  | branch yes no => exact block_replace _
  | loop condition body =>
    simp only [operate]
    split
    · exact block_replace body
    · rfl
  | count name body =>
    simp only [operate]
    split
    · exact round_replace _ name body
    · rfl
    · rfl
  | not | table | discard | finish => rfl

/-- **And it leaves the thing as it is.** -/
theorem sameAt_operate {thing : Thing} {op : Operation} {operands : List Value}
    (h : w.Withheld thing (op.subjects operands)) :
    (operate place w op operands scope frames).world.host.SameAt w.host thing := by
  have hafter : (operate place w op operands scope frames).After (fun _ => True) w :=
    after_operate (fun _ _ => trivial) (World.within_true w) (fun _ _ => trivial) op
      fun _ _ => trivial
  have hspares := hafter.acts.spares
  cases thing with
  | board id => exact congrArg (fun boards => boards[id]?.join) hspares.boards
  | target id =>
    have hhold := hspares.holds id
    refine (?_ : _ = w.host.target? id)
    cases hheld : w.host.target? id with
    | none =>
      rw [hheld] at hhold
      exact Option.map_eq_none_iff.mp hhold
    | some held =>
      -- to put a target in its own place changes nothing before the operation, so nothing after it
      have hself : w.replace (.target id held) = w := by
        rw [World.replace, w.host.replace_self hheld]
      have hsame : operate place (w.replace (.target id held)) op operands scope frames =
          (operate place w op operands scope frames).mapWorld
            fun w => w.replace (.target id held) := operate_replace h
      rw [hself] at hsame
      have hhost := congrArg (fun next => next.world.host.target? id) hsame
      simp only [Next.world_mapWorld] at hhost
      rw [hheld] at hhold
      obtain ⟨after, hafter, -⟩ := Option.map_eq_some_iff.mp hhold
      exact hhost.trans (Host.target?_replace_self _ held hafter)

end Machine

end KeyLight
