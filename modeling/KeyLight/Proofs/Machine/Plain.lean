import KeyLight.Proofs.World.Plain
import KeyLight.World.Thread

/-!
# Scripts cannot get hold of a suspension

While a script runs, neither the world nor the values at hand nor what is left to do refers to a
suspension (`Next.Plain`), and every step keeps it so (`plain_step`). A thread gives up control in
one of two ways: by a statement of the script, and then with values that are no suspensions, or by
waiting, and then with the suspension that was made for it. `Control.yields` tells them apart.
-/

namespace KeyLight

/-! ### What is plain while a script runs -/

/-- What a control refers to. -/
def Control.nodes : Control → List Node
  | .give v | .leave v => v.nodes
  | .eval _ scope | .exec _ scope => Scope.nodes scope
  | .proceed | .raise _ => []

/-- What a script that stopped leaves behind, apart from the values that it gave up control with. -/
def Halt.nodes : Halt → List Node
  | .returned v => v.nodes
  | .raised _ => []
  | .yielded _ frames kept => (Coroutine.suspended frames kept).nodes

/-- What is at hand after a step. -/
def Next.nodes : Next → List Node
  | .running _ control frames => control.nodes ++ frames.flatMap Frame.nodes
  | .halted _ halt => halt.nodes

/-- The values that a thread gives up control with are a request to be resumed later. -/
def Heap.Requests (h : Heap) (vs : List Value) : Prop :=
  ∃ s, vs.head?.bind h.object? = some (.suspension s)

/-- Whether an operation is that of a script to give up control. -/
def Operation.isYield : Operation → Bool
  | .yield => true
  | .call | .send .. | .apply | .index | .length | .not | .binary _ | .table | .assign _ | .put
  | .discard | .raise | .finish | .branch .. | .loop .. | .count .. => false

/-- Whether the next step is that of a script to give up control: its statement has no operands, or
the last of them is there. -/
def Control.yields : Control → List Frame → Bool
  | .exec (.yield []) _, _ => true
  | .give _, .operands op _ [] _ :: _ => op.isYield
  | _, _ => false

/-- No reference to a suspension is at hand. -/
structure Next.Plain (next : Next) : Prop where
  world : next.world.Plain
  nodes : next.world.heap.Plain next.nodes

/-- What holds after a step from a heap `h`: no reference to a suspension is at hand. If the step
gave up control, it did so by a statement of the script, with other values than suspensions, or else
with a request. -/
structure Next.PlainAfter (h : Heap) (explicit : Bool) (next : Next) : Prop extends
    Next.Plain next where
  keeps : h.Keeps next.world.heap
  yielded : ∀ w vs frames kept, next = .halted w (.yielded vs frames kept) →
    if explicit then w.heap.Plain (vs.flatMap Value.nodes) else w.heap.Requests vs

namespace Next.PlainAfter

variable {h : Heap} {explicit : Bool} {w : World} {frames : List Frame}

theorem running {control : Control} (hkeeps : h.Keeps w.heap) (hw : w.Plain)
    (hcontrol : w.heap.Plain control.nodes) (hframes : w.heap.Plain (frames.flatMap Frame.nodes)) :
    (Next.running w control frames).PlainAfter h explicit where
  keeps := hkeeps
  world := hw
  nodes := Heap.plain_append.mpr ⟨hcontrol, hframes⟩
  yielded := fun _ _ _ _ heq => nomatch heq

theorem returned {v : Value} (hkeeps : h.Keeps w.heap) (hw : w.Plain) (hv : w.heap.Plain v.nodes) :
    (Next.halted w (.returned v)).PlainAfter h explicit where
  keeps := hkeeps
  world := hw
  nodes := hv
  yielded := fun _ _ _ _ heq => nomatch heq

theorem raised {f : Fault} (hkeeps : h.Keeps w.heap) (hw : w.Plain) :
    (Next.halted w (.raised f)).PlainAfter h explicit where
  keeps := hkeeps
  world := hw
  nodes := Heap.plain_nil _
  yielded := fun _ _ _ _ heq => nomatch heq

end Next.PlainAfter

namespace Machine

variable {place : Place} {h : Heap} {explicit : Bool} {w : World} {scope : Scope}
  {frames : List Frame}

theorem plain_noValues (w : World) : w.heap.Plain (([] : List Value).flatMap Value.nodes) :=
  Heap.plain_nil _

theorem plain_frame_of_scope {frame : Frame} (hframe : frame.nodes = Scope.nodes scope)
    (hframes : w.heap.Plain (frames.flatMap Frame.nodes)) :
    w.heap.Plain ((frame :: frames).flatMap Frame.nodes) := by
  rw [List.flatMap_cons, hframe]
  exact Heap.plain_append.mpr ⟨Heap.plain_scope _ _, hframes⟩

theorem plain_parameterValues {args : List Value}
    (hargs : w.heap.Plain (args.flatMap Value.nodes)) (params : List String) :
    w.heap.Plain ((parameterValues params args).flatMap Value.nodes) :=
  hargs.mono fun _ hn => nodes_parameterValues_subset params args hn

theorem plain_assign (hw : w.Plain) {v : Value} (hv : w.heap.Plain v.nodes) (scope : Scope)
    (x : String) : w.heap.Keeps (assign w scope x v).heap ∧ (assign w scope x v).Plain := by
  unfold assign
  split
  · exact ⟨.refl w.heap, hw.setVariable hv _⟩
  · exact ⟨.refl w.heap, hw.setGlobal hv x⟩

/-! ### Parts of a step -/

section Parts

variable (hkeeps : h.Keeps w.heap) (hw : w.Plain)
  (hframes : w.heap.Plain (frames.flatMap Frame.nodes))
include hkeeps hw hframes

theorem plain_block (body : List Stmt) : (block w scope frames body).PlainAfter h explicit := by
  cases body with
  | nil => exact .running hkeeps hw (Heap.plain_nil _) hframes
  | cons s rest =>
    exact .running hkeeps hw (Heap.plain_scope _ _) (plain_frame_of_scope rfl hframes)

theorem plain_reply {result : Except Fault Value}
    (hresult : ∀ v, result = .ok v → w.heap.Plain v.nodes) :
    (reply w frames result).PlainAfter h explicit := by
  cases result with
  | ok v => exact .running hkeeps hw (hresult v rfl) hframes
  | error f => exact .running hkeeps hw (Heap.plain_nil _) hframes

theorem plain_replyDatum {result : Except Fault Datum}
    (hresult : ∀ d, result = .ok d → w.heap.PlainDatum d) :
    (replyDatum w frames result).PlainAfter h explicit := by
  cases result with
  | ok d =>
    obtain ⟨hkept, hw', hv⟩ := hw.realize (hresult d rfl)
    exact .running (hkeeps.trans hkept) hw' hv (hframes.keeps hkept)
  | error f => exact .running hkeeps hw (Heap.plain_nil _) hframes

theorem plain_suspend {vs kept : List Value}
    (hvs : if explicit then w.heap.Plain (vs.flatMap Value.nodes) else w.heap.Requests vs)
    (hkept : w.heap.Plain (kept.flatMap Value.nodes)) :
    (suspend place w vs frames kept).PlainAfter h explicit := by
  cases place with
  | main => exact .running hkeeps hw (Heap.plain_nil _) hframes
  | thread =>
    refine ⟨⟨hw, Heap.plain_append.mpr ⟨hframes, hkept⟩⟩, hkeeps,
      fun w' vs' frames' kept' heq => ?_⟩
    obtain ⟨rfl, hhalt⟩ := Next.halted.inj heq
    obtain ⟨rfl, rfl, rfl⟩ := Halt.yielded.inj hhalt
    exact hvs

/-! ### Calls -/

variable {args : List Value}

theorem plain_callCapability (hargs : w.heap.Plain (args.flatMap Value.nodes)) (c : Capability) :
    (callCapability place w c args frames).PlainAfter h false := by
  unfold callCapability
  cases hentry : entryPoint c.body w args with
  | mk result w' =>
    obtain ⟨hkept, hw', hresults⟩ := hw.entryPoint hargs c hentry
    have hkeeps' := hkeeps.trans hkept
    have hframes' := hframes.keeps hkept
    cases result with
    | error f => exact .running hkeeps' hw' (Heap.plain_nil _) hframes'
    | ok vs =>
      have hvs := hresults vs rfl
      -- what all capabilities but one give is plain, and that one does not go on with it
      have hfirst (hplain : w'.heap.Plain (vs.flatMap Value.nodes)) :
          (Next.running w' (.give (vs.headD .nil)) frames).PlainAfter h false := by
        refine .running hkeeps' hw' ?_ hframes'
        cases vs with
        | nil => exact Heap.plain_nil _
        | cons v vs => exact (Heap.plain_append.mp hplain).1
      cases c with
      | wait => exact plain_suspend hkeeps' hw' hframes' hvs (hargs.keeps hkept)
      | print | tocolor | fade | thread | now => exact hfirst hvs

theorem plain_call {f : Value} (hf : w.heap.Plain f.nodes)
    (hargs : w.heap.Plain (args.flatMap Value.nodes)) :
    (call place w f args frames).PlainAfter h false := by
  have hfault : (Next.running w (.raise .interpreter) frames).PlainAfter h false :=
    .running hkeeps hw (Heap.plain_nil _) hframes
  unfold call
  split
  · split
    · exact hfault
    · simp only
      split
      · exact hfault
      · rename_i c _ _
        have hkept := Heap.keeps_addVariables w.heap (parameterValues c.params args)
        refine plain_block (hkeeps.trans hkept)
          (hw.addVariables (plain_parameterValues hargs c.params)) ?_ c.body
        refine Heap.plain_append.mpr ⟨Heap.plain_append.mpr ⟨?_, Heap.plain_scope _ _⟩, ?_⟩
        · exact hf.keeps hkept
        · exact hframes.keeps hkept
  · exact plain_callCapability hkeeps hw hframes hargs _
  · refine plain_reply hkeeps hw hframes fun v hv => ?_
    rw [nodes_of_tostring hv]
    exact Heap.plain_nil _
  · rename_i m
    obtain ⟨hkept, hw', hv⟩ := hw.callMethod m args
    exact plain_reply (hkeeps.trans hkept) hw' (hframes.keeps hkept) hv
  · exact hfault

/-! ### Operations -/

theorem plain_round (counter : Counter) (x : String) (body : List Stmt) :
    (round w counter x body scope frames).PlainAfter h explicit := by
  have hvalue : w.heap.Plain counter.value.nodes := by cases counter <;> exact Heap.plain_nil _
  have hkept : w.heap.Keeps (w.heap.addVariable counter.value) := .refl w.heap
  have hrest : w.heap.Plain ((Frame.count counter x body scope :: frames).flatMap Frame.nodes) :=
    plain_frame_of_scope rfl hframes
  exact plain_block (w := w.updateHeap (·.addVariable counter.value)) (hkeeps.trans hkept)
    (hw.addVariable hvalue) (hrest.keeps hkept) body

theorem plain_operate (op : Operation) {operands : List Value}
    (hoperands : w.heap.Plain (operands.flatMap Value.nodes)) :
    (operate place w op operands scope frames).PlainAfter h op.isYield := by
  have hfirst : w.heap.Plain (operands.headD .nil).nodes := by
    rw [List.headD_eq_getD]
    exact Heap.plain_getD hoperands 0
  have hsecond := Heap.plain_getD hoperands 1
  have hrest (n : Nat) : w.heap.Plain ((operands.drop n).flatMap Value.nodes) :=
    Heap.plain_flatMap.mpr fun v hv => Heap.plain_flatMap.mp hoperands v (List.mem_of_mem_drop hv)
  have hproceed : (Next.running w .proceed frames).PlainAfter h op.isYield :=
    .running hkeeps hw (Heap.plain_nil _) hframes
  have hfault (f : Fault) : (Next.running w (.raise f) frames).PlainAfter h op.isYield :=
    .running hkeeps hw (Heap.plain_nil _) hframes
  cases op with
  | call =>
    refine plain_call hkeeps hw hframes hfirst ?_
    rw [← List.drop_one]
    exact hrest 1
  | send method args =>
    simp only [operate]
    split
    · rename_i d hd
      obtain ⟨hkept, hw', hv⟩ := hw.realize (hw.index hd)
      refine .running (hkeeps.trans hkept) hw' hv (Heap.plain_append.mpr ⟨?_, hframes.keeps hkept⟩)
      exact Heap.plain_append.mpr ⟨Heap.plain_append.mpr
        ⟨hfirst.keeps hkept, Heap.plain_nil _⟩, Heap.plain_scope _ _⟩
    · exact hfault _
  | apply => exact plain_call hkeeps hw hframes hsecond (Heap.plain_append.mpr ⟨hfirst, hrest 2⟩)
  | index => exact plain_replyDatum hkeeps hw hframes fun d hd => hw.index hd
  | length =>
    refine plain_reply hkeeps hw hframes fun v hv => ?_
    obtain ⟨n, -, rfl⟩ := Except.exists_of_map_eq_ok hv
    exact Heap.plain_nil _
  | not => exact .running hkeeps hw (Heap.plain_nil _) hframes
  | binary op =>
    refine plain_reply hkeeps hw hframes fun v hv => ?_
    rw [nodes_of_binary hv]
    exact Heap.plain_nil _
  | table =>
    have hkept : w.heap.Keeps (w.heap.addTable (.ofItems operands)) := .refl w.heap
    exact .running (hkeeps.trans hkept) (hw.addTable (Heap.plain_ofItems hoperands))
      (Heap.plain_tableValue _ _) (hframes.keeps hkept)
  | assign x =>
    obtain ⟨hkept, hw'⟩ := plain_assign hw hfirst scope x
    exact .running (hkeeps.trans hkept) hw' (Heap.plain_nil _) (hframes.keeps hkept)
  | put =>
    simp only [operate]
    cases hput : w.put (operands.headD .nil) (operands.getD 1 .nil) (operands.getD 2 .nil) with
    | error f => exact hfault f
    | ok w' =>
      obtain ⟨hkept, hw'⟩ := hw.put hsecond (Heap.plain_getD hoperands 2) hput
      exact .running (hkeeps.trans hkept) hw' (Heap.plain_nil _) (hframes.keeps hkept)
  | discard => exact hproceed
  | raise => exact hfault _
  | yield =>
    exact plain_suspend hkeeps hw (plain_frame_of_scope rfl hframes) hoperands (plain_noValues w)
  | finish => exact .running hkeeps hw hfirst hframes
  | branch yes no => exact plain_block hkeeps hw hframes _
  | loop condition body =>
    simp only [operate]
    split
    · exact plain_block hkeeps hw (plain_frame_of_scope rfl hframes) body
    · exact hproceed
  | count x body =>
    simp only [operate]
    split
    · exact plain_round hkeeps hw hframes _ x body
    · exact hproceed
    · exact hfault _

theorem plain_gather (place : Place) (scope : Scope) (op : Operation) {done : List Value}
    (hdone : w.heap.Plain (done.flatMap Value.nodes)) (rest : List Expr) :
    (gather place w op done rest scope frames).PlainAfter h (op.isYield && rest.isEmpty) := by
  -- the operation is done now if no operand is left to evaluate
  cases rest with
  | nil =>
    rw [List.isEmpty_nil, Bool.and_true]
    refine plain_operate hkeeps hw hframes op (Heap.plain_flatMap.mpr fun v hv => ?_)
    exact Heap.plain_flatMap.mp hdone v (List.mem_reverse.mp hv)
  | cons e es =>
    refine .running hkeeps hw (Heap.plain_scope _ _) (Heap.plain_append.mpr ⟨?_, hframes⟩)
    exact Heap.plain_append.mpr ⟨hdone, Heap.plain_scope _ _⟩

/-- An operation that is none of giving up control does not do so while it is begun. -/
theorem plain_operation (place : Place) (scope : Scope) {op : Operation}
    (hop : op.isYield = false) (es : List Expr) :
    (gather place w op [] es scope frames).PlainAfter h false := by
  have hplain := plain_gather hkeeps hw hframes place scope op (plain_noValues w) es
  rwa [hop, Bool.false_and] at hplain

theorem plain_start (e : Expr) : (start place w scope frames e).PlainAfter h false := by
  have hgive {v : Value} (hv : v.nodes = []) :
      (Next.running w (.give v) frames).PlainAfter h false :=
    .running hkeeps hw (by rw [Control.nodes, hv]; exact Heap.plain_nil _) hframes
  cases e with
  | nil | bool | int | float | text => exact hgive rfl
  | name x =>
    refine .running hkeeps hw ?_ hframes
    change w.heap.Plain (lookup w scope x).nodes
    unfold lookup
    split
    · exact hw.locals _
    · exact hw.global x
  | call | send | index | length | not | binary | table =>
    simp only [start]
    exact plain_operation hkeeps hw hframes place scope rfl _
  | function params body =>
    exact .running hkeeps (hw.addClosure _) (Heap.plain_closureValue _ _) hframes
  | guarded e =>
    exact .running hkeeps hw (Heap.plain_scope _ _) hframes

theorem plain_begin (s : Stmt) :
    (begin place w scope frames s).PlainAfter h (Control.yields (.exec s scope) frames) := by
  cases s with
  | yield values =>
    -- the statement gives up control at once only if there are no values to evaluate
    have hplain := plain_gather hkeeps hw hframes place scope .yield (plain_noValues w) values
    cases values <;> exact hplain
  | assign | put | discard | raise | finish | branch | loop | count =>
    simp only [begin, Control.yields]
    exact plain_operation hkeeps hw hframes place scope rfl _

end Parts

/-! ### Frames -/

theorem plain_resume (hkeeps : h.Keeps w.heap) (hw : w.Plain) {v : Value}
    (hv : w.heap.Plain v.nodes) {frame : Frame}
    (hframes : w.heap.Plain ((frame :: frames).flatMap Frame.nodes)) :
    (resume place w v frame frames).PlainAfter h (Control.yields (.give v) (frame :: frames)) := by
  obtain ⟨hframe, hrest⟩ := Heap.plain_append.mp hframes
  cases frame with
  | operands op done rest scope =>
    obtain ⟨hdone, -⟩ := Heap.plain_append.mp hframe
    have hoperands : w.heap.Plain ((v :: done).flatMap Value.nodes) :=
      Heap.plain_append.mpr ⟨hv, hdone⟩
    have hplain := plain_gather hkeeps hw hrest place scope op hoperands rest
    cases rest with
    | nil => rwa [List.isEmpty_nil, Bool.and_true] at hplain
    | cons e es => rwa [List.isEmpty_cons, Bool.and_false] at hplain
  | guard | call => exact .running hkeeps hw hv hrest
  | block | loop | count => exact .running hkeeps hw (Heap.plain_nil _) hframes

theorem plain_proceed (hkeeps : h.Keeps w.heap) (hw : w.Plain) {frame : Frame}
    (hframes : w.heap.Plain ((frame :: frames).flatMap Frame.nodes)) :
    (proceed place w frame frames).PlainAfter h false := by
  obtain ⟨-, hrest⟩ := Heap.plain_append.mp hframes
  cases frame with
  | block rest scope => exact plain_block hkeeps hw hrest rest
  | loop condition body scope =>
    exact plain_gather hkeeps hw hrest place scope (.loop condition body) (plain_noValues w)
      [condition]
  | count counter x body scope =>
    simp only [proceed]
    split
    · exact plain_round hkeeps hw hrest _ x body
    · exact .running hkeeps hw (Heap.plain_nil _) hrest
  | call | guard => exact .running hkeeps hw (Heap.plain_nil _) hrest
  | operands => exact .running hkeeps hw (Heap.plain_nil _) hframes

/-- **No step lets a script get hold of a suspension.** -/
theorem plain_step (hw : w.Plain) {control : Control} (hcontrol : w.heap.Plain control.nodes)
    (hframes : w.heap.Plain (frames.flatMap Frame.nodes)) :
    (step place w control frames).PlainAfter w.heap (control.yields frames) := by
  have hkeeps := Heap.Keeps.refl w.heap
  cases control with
  | eval e scope => exact plain_start hkeeps hw hframes e
  | exec s scope => exact plain_begin hkeeps hw hframes s
  | give v =>
    cases frames with
    | nil => exact .returned hkeeps hw hcontrol
    | cons frame frames => exact plain_resume hkeeps hw hcontrol hframes
  | proceed =>
    cases frames with
    | nil => exact .returned hkeeps hw (Heap.plain_nil _)
    | cons frame frames => exact plain_proceed hkeeps hw hframes
  | leave v =>
    cases frames with
    | nil => exact .returned hkeeps hw hcontrol
    | cons frame frames =>
      obtain ⟨-, hrest⟩ := Heap.plain_append.mp hframes
      cases frame <;> exact .running hkeeps hw hcontrol hrest
  | raise f =>
    cases frames with
    | nil => exact .raised hkeeps hw
    | cons frame frames =>
      obtain ⟨-, hrest⟩ := Heap.plain_append.mp hframes
      cases frame <;> exact .running hkeeps hw (Heap.plain_nil _) hrest

end Machine

end KeyLight
