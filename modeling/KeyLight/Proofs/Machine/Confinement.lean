import KeyLight.Proofs.Machine.Plain
import KeyLight.Proofs.World.Confinement

/-!
# Scripts keep to what they can get at

If the values at hand and what is left to do refer to known things only, then a step acts within
what is known and leaves nothing else at hand (`acts_step`), and so does a run (`acts_run`). A
thread that suspends itself therefore keeps nothing for later that it could not get at before.
-/

namespace KeyLight

variable {known : Node → Prop}

/-- A step or a run from the world `w` acted within what is known, and what is at hand is known. -/
structure Next.After (known : Node → Prop) (w : World) (next : Next) : Prop where
  acts : w.Acts known next.world
  nodes : ∀ n ∈ next.nodes, known n

namespace Next.After

variable {w w' : World} {frames : List Frame} {next : Next}

theorem of_acts (h : w.Acts known w') (hnext : next.After known w') : next.After known w :=
  ⟨h.trans hnext.acts, hnext.nodes⟩

theorem running {control : Control} (hcontrol : ∀ n ∈ control.nodes, known n)
    (hframes : ∀ n ∈ frames.flatMap Frame.nodes, known n) :
    (Next.running w control frames).After known w :=
  ⟨.refl w, List.forall_mem_append.mpr ⟨hcontrol, hframes⟩⟩

theorem give {v : Value} (hv : ∀ n ∈ v.nodes, known n)
    (hframes : ∀ n ∈ frames.flatMap Frame.nodes, known n) :
    (Next.running w (.give v) frames).After known w := running hv hframes

theorem proceed (hframes : ∀ n ∈ frames.flatMap Frame.nodes, known n) :
    (Next.running w .proceed frames).After known w := running (List.forall_mem_nil _) hframes

theorem raise {f : Fault} (hframes : ∀ n ∈ frames.flatMap Frame.nodes, known n) :
    (Next.running w (.raise f) frames).After known w := running (List.forall_mem_nil _) hframes

end Next.After

namespace Machine

variable {place : Place} {w w' : World} {scope : Scope} {frames : List Frame} {args : List Value}

/-- A frame that refers to the variables in scope and to nothing else. -/
theorem known_frame_of_scope {frame : Frame} (hframe : frame.nodes = Scope.nodes scope)
    (hscope : ∀ n ∈ Scope.nodes scope, known n)
    (hframes : ∀ n ∈ frames.flatMap Frame.nodes, known n) :
    ∀ n ∈ (frame :: frames).flatMap Frame.nodes, known n := by
  rw [List.flatMap_cons, hframe]
  exact List.forall_mem_append.mpr ⟨hscope, hframes⟩

/-- A variable in scope is known. -/
theorem known_cell (hscope : ∀ n ∈ Scope.nodes scope, known n) {x : String} {id : Nat}
    (hid : scope.lookup x = some id) : known (.cell id) := by
  obtain ⟨l₁, l₂, hentry, -⟩ := List.lookup_eq_some_iff.mp hid
  refine hscope _ (List.mem_map.mpr ⟨(x, id), ?_, rfl⟩)
  rw [hentry]
  exact List.mem_append_right l₁ List.mem_cons_self

theorem known_lookup (hw : w.Within known) (hscope : ∀ n ∈ Scope.nodes scope, known n)
    (x : String) : ∀ n ∈ (lookup w scope x).nodes, known n := by
  unfold lookup
  split
  · rename_i id hid
    exact hw.links (.cell id) (known_cell hscope hid)
  · exact hw.global x

/-- The variables that the body of a function sees: those that the function keeps, and new ones. -/
theorem known_bind (hw : w.Within known) {c : Closure}
    (hscope : ∀ n ∈ Scope.nodes c.scope, known n) :
    ∀ n ∈ Scope.nodes (c.scope.bind w.heap.cells.size c.params), known n := fun n hn => by
  obtain hn | ⟨id, rfl, hid⟩ := Scope.mem_nodes_bind hn
  · exact hscope n hn
  · exact hw.fresh _ (Nat.not_lt.mpr hid)

/-! ### Parts of a step -/

section Parts

variable (hframes : ∀ n ∈ frames.flatMap Frame.nodes, known n)
include hframes

theorem after_block (hscope : ∀ n ∈ Scope.nodes scope, known n) (body : List Stmt) :
    (block w scope frames body).After known w := by
  cases body with
  | nil => exact .proceed hframes
  | cons s rest => exact .running hscope (known_frame_of_scope rfl hscope hframes)

theorem after_reply {result : Except Fault Value}
    (hresult : ∀ v, result = .ok v → ∀ n ∈ v.nodes, known n) :
    (reply w frames result).After known w := by
  cases result with
  | ok v => exact .give (hresult v rfl) hframes
  | error f => exact .raise hframes

theorem after_replyDatum (hw : w.Within known) {result : Except Fault Datum}
    (hresult : ∀ d, result = .ok d → w.KnownDatum known d) :
    (replyDatum w frames result).After known w := by
  cases result with
  | ok d =>
    obtain ⟨hacts, hv⟩ := hw.realize (hresult d rfl)
    exact .of_acts hacts (.give hv hframes)
  | error f => exact .raise hframes

theorem after_suspend (values : List Value) {kept : List Value}
    (hkept : ∀ n ∈ kept.flatMap Value.nodes, known n) :
    (suspend place w values frames kept).After known w := by
  cases place with
  | main => exact .raise hframes
  | thread => exact ⟨.refl w, List.forall_mem_append.mpr ⟨hframes, hkept⟩⟩

/-! ### Calls -/

theorem after_callCapability (hw : w.Within known)
    (hargs : ∀ n ∈ args.flatMap Value.nodes, known n) (c : Capability) :
    (callCapability place w c args frames).After known w := by
  unfold callCapability
  cases hentry : entryPoint c.body w args with
  | mk result w' =>
    obtain ⟨hacts, hresults⟩ := hw.entryPoint hargs c hentry
    cases result with
    | error f => exact .of_acts hacts (.raise hframes)
    | ok vs =>
      have hfirst (n : Node) (hn : n ∈ (vs.headD .nil).nodes) : known n :=
        hresults vs rfl n (Value.nodes_headD_subset vs hn)
      cases c with
      | wait => exact .of_acts hacts (after_suspend hframes vs hargs)
      | print | tocolor | fade | thread | now => exact .of_acts hacts (.give hfirst hframes)

theorem after_call (hw : w.Within known) {f : Value} (hf : ∀ n ∈ f.nodes, known n)
    (hargs : ∀ n ∈ args.flatMap Value.nodes, known n) :
    (call place w f args frames).After known w := by
  unfold call
  split
  · rename_i id
    split
    · exact .raise hframes
    · rename_i c hc
      simp only
      split
      · exact .raise hframes
      · have hscope := hw.closure (hf _ (List.mem_singleton_self _)) hc
        have hbind := known_bind hw hscope
        have hacts : w.Acts known (w.updateHeap (·.addVariables (parameterValues c.params args))) :=
          World.acts_addVariables fun n hn =>
            hargs n (nodes_parameterValues_subset c.params args hn)
        refine .of_acts hacts (after_block ?_ hbind c.body)
        exact List.forall_mem_append.mpr ⟨List.forall_mem_append.mpr ⟨hf, hbind⟩, hframes⟩
  · exact after_callCapability hframes hw hargs _
  · refine after_reply hframes fun v hv => ?_
    rw [nodes_of_tostring hv]
    exact List.forall_mem_nil _
  · rename_i m
    obtain ⟨hacts, hv⟩ := hw.callMethod m hargs
    exact .of_acts hacts (after_reply hframes hv)
  · exact .raise hframes

/-! ### Operations -/

theorem after_assign (hscope : ∀ n ∈ Scope.nodes scope, known n) (x : String) {v : Value}
    (hv : ∀ n ∈ v.nodes, known n) :
    (Next.running (assign w scope x v) .proceed frames).After known w := by
  unfold assign
  split
  · rename_i id hid
    exact .of_acts (World.Act.setVariable (known_cell hscope hid) hv).acts (.proceed hframes)
  · exact .of_acts (World.Act.global x hv).acts (.proceed hframes)

variable (hw : w.Within known) (hscope : ∀ n ∈ Scope.nodes scope, known n)
include hw hscope

theorem after_round (counter : Counter) (x : String) (body : List Stmt) :
    (round w counter x body scope frames).After known w := by
  have hvalue : ∀ n ∈ counter.value.nodes, known n := by
    cases counter <;> exact List.forall_mem_nil _
  have hbody : ∀ n ∈ Scope.nodes ((x, w.heap.cells.size) :: scope), known n :=
    List.forall_mem_cons.mpr ⟨hw.fresh (.cell _) (Nat.lt_irrefl _), hscope⟩
  refine .of_acts (World.Act.addVariable hvalue).acts (after_block ?_ hbody body)
  exact known_frame_of_scope rfl hscope hframes

theorem after_operate (op : Operation) {operands : List Value}
    (hoperands : ∀ n ∈ operands.flatMap Value.nodes, known n) :
    (operate place w op operands scope frames).After known w := by
  have hfirst (n : Node) (hn : n ∈ (operands.headD .nil).nodes) : known n :=
    hoperands n (Value.nodes_headD_subset operands hn)
  have hget (i : Nat) (n : Node) (hn : n ∈ (operands.getD i .nil).nodes) : known n :=
    hoperands n (Value.nodes_getD_subset operands i hn)
  have hrest (i : Nat) (n : Node) (hn : n ∈ (operands.drop i).flatMap Value.nodes) : known n :=
    hoperands n (Value.nodes_drop_subset operands i hn)
  cases op with
  | call =>
    refine after_call hframes hw hfirst ?_
    rw [← List.drop_one]
    exact hrest 1
  | send method args =>
    simp only [operate]
    split
    · rename_i d hd
      obtain ⟨hacts, hv⟩ := hw.realize (hw.index hfirst hd)
      refine .of_acts hacts (.give hv (List.forall_mem_append.mpr ⟨?_, hframes⟩))
      exact List.forall_mem_append.mpr ⟨List.forall_mem_append.mpr
        ⟨hfirst, List.forall_mem_nil _⟩, hscope⟩
    · exact .raise hframes
  | apply =>
    exact after_call hframes hw (hget 1) (List.forall_mem_append.mpr ⟨hfirst, hrest 2⟩)
  | index => exact after_replyDatum hframes hw fun d hd => hw.index hfirst hd
  | length =>
    refine after_reply hframes fun v hv => ?_
    obtain ⟨n, -, rfl⟩ := Except.exists_of_map_eq_ok hv
    exact List.forall_mem_nil _
  | not => exact .give (List.forall_mem_nil _) hframes
  | binary op =>
    refine after_reply hframes fun v hv => ?_
    rw [nodes_of_binary hv]
    exact List.forall_mem_nil _
  | table =>
    have hitems : ∀ n ∈ (Table.ofItems operands).nodes, known n := by
      rwa [Table.nodes_ofItems]
    have htable : known (.table w.heap.tables.size) := hw.fresh _ (Nat.lt_irrefl _)
    exact .of_acts (World.Act.addTable hitems).acts
      (.give (List.forall_mem_singleton.mpr htable) hframes)
  | assign x => exact after_assign hframes hscope x hfirst
  | put =>
    simp only [operate]
    cases hput : w.put (operands.headD .nil) (operands.getD 1 .nil) (operands.getD 2 .nil) with
    | error f => exact .raise hframes
    | ok w' => exact .of_acts (hw.put hfirst (hget 1) (hget 2) hput) (.proceed hframes)
  | discard => exact .proceed hframes
  | raise => exact .raise hframes
  | yield =>
    exact after_suspend (known_frame_of_scope rfl hscope hframes) operands (List.forall_mem_nil _)
  | finish => exact .running hfirst hframes
  | branch yes no => exact after_block hframes hscope _
  | loop condition body =>
    simp only [operate]
    split
    · exact after_block (known_frame_of_scope rfl hscope hframes) hscope body
    · exact .proceed hframes
  | count x body =>
    simp only [operate]
    split
    · exact after_round hframes hw hscope _ x body
    · exact .proceed hframes
    · exact .raise hframes

theorem after_gather (place : Place) (op : Operation) {done : List Value}
    (hdone : ∀ n ∈ done.flatMap Value.nodes, known n) (rest : List Expr) :
    (gather place w op done rest scope frames).After known w := by
  cases rest with
  | nil =>
    refine after_operate hframes hw hscope op fun n hn => hdone n ?_
    obtain ⟨v, hv, hn⟩ := List.mem_flatMap.mp hn
    exact Value.nodes_subset_of_mem (List.mem_reverse.mp hv) hn
  | cons e es =>
    refine .running hscope (List.forall_mem_append.mpr ⟨?_, hframes⟩)
    exact List.forall_mem_append.mpr ⟨hdone, hscope⟩

/-- An operation of which no operand is evaluated yet. -/
theorem after_operation (place : Place) (op : Operation) (es : List Expr) :
    (gather place w op [] es scope frames).After known w :=
  have hnone : ∀ n ∈ ([] : List Value).flatMap Value.nodes, known n := List.forall_mem_nil _
  after_gather hframes hw hscope place op hnone es

theorem after_start (e : Expr) : (start place w scope frames e).After known w := by
  cases e with
  | nil | bool | int | float | text => exact .give (List.forall_mem_nil _) hframes
  | name x => exact .give (known_lookup hw hscope x) hframes
  | call | send | index | length | not | binary | table =>
    simp only [start]
    exact after_operation hframes hw hscope place _ _
  | function params body =>
    let c : Closure := ⟨params, body, Closure.captured params body scope⟩
    have hkept : ∀ n ∈ Scope.nodes c.scope, known n :=
      fun n hn => hscope n (Closure.nodes_captured_subset params body scope hn)
    have hclosure : known (.closure w.heap.closures.size) := hw.fresh _ (Nat.lt_irrefl _)
    exact .of_acts (World.Act.addClosure hkept).acts
      (.give (List.forall_mem_singleton.mpr hclosure) hframes)
  | guarded e => exact .running hscope hframes

theorem after_begin (s : Stmt) : (begin place w scope frames s).After known w := by
  cases s <;> simp only [begin] <;> exact after_operation hframes hw hscope place _ _

end Parts

/-! ### Frames -/

section Frames

variable {frame : Frame} (hw : w.Within known)
  (hframes : ∀ n ∈ (frame :: frames).flatMap Frame.nodes, known n)
include hw hframes

theorem after_resume {v : Value} (hv : ∀ n ∈ v.nodes, known n) :
    (resume place w v frame frames).After known w := by
  obtain ⟨hframe, hrest⟩ := List.forall_mem_append.mp hframes
  cases frame with
  | operands op done rest scope =>
    obtain ⟨hdone, hscope⟩ := List.forall_mem_append.mp hframe
    have hoperands : ∀ n ∈ (v :: done).flatMap Value.nodes, known n :=
      List.forall_mem_append.mpr ⟨hv, hdone⟩
    exact after_gather hrest hw hscope place op hoperands rest
  | guard | call => exact .give hv hrest
  | block | loop | count => exact .proceed hframes

theorem after_proceed : (proceed place w frame frames).After known w := by
  obtain ⟨hframe, hrest⟩ := List.forall_mem_append.mp hframes
  cases frame with
  | block rest scope => exact after_block hrest hframe rest
  | loop condition body scope =>
    exact after_operation hrest hw hframe place (.loop condition body) [condition]
  | count counter x body scope =>
    simp only [proceed]
    split
    · exact after_round hrest hw hframe _ x body
    · exact .proceed hrest
  | call | guard => exact .give (List.forall_mem_nil _) hrest
  | operands => exact .give (List.forall_mem_nil _) hframes

end Frames

/-! ### Steps and runs -/

/-- **A step keeps to what is known.** -/
theorem acts_step (hw : w.Within known) {control : Control}
    (hcontrol : ∀ n ∈ control.nodes, known n)
    (hframes : ∀ n ∈ frames.flatMap Frame.nodes, known n) :
    (step place w control frames).After known w := by
  cases control with
  | eval e scope => exact after_start hframes hw hcontrol e
  | exec s scope => exact after_begin hframes hw hcontrol s
  | give v =>
    cases frames with
    | nil => exact ⟨.refl w, hcontrol⟩
    | cons frame frames => exact after_resume hw hframes hcontrol
  | proceed =>
    cases frames with
    | nil => exact ⟨.refl w, List.forall_mem_nil _⟩
    | cons frame frames => exact after_proceed hw hframes
  | leave v =>
    cases frames with
    | nil => exact ⟨.refl w, hcontrol⟩
    | cons frame frames =>
      obtain ⟨-, hrest⟩ := List.forall_mem_append.mp hframes
      cases frame <;> exact .running hcontrol hrest
  | raise f =>
    cases frames with
    | nil => exact ⟨.refl w, List.forall_mem_nil _⟩
    | cons frame frames =>
      obtain ⟨-, hrest⟩ := List.forall_mem_append.mp hframes
      cases frame <;> exact .running (List.forall_mem_nil _) hrest

/-- **A run keeps to what is known**, and leaves nothing else behind. -/
theorem acts_run {fuel : Nat} {next : Next} (hnext : next.After known w) (hw : w.Within known)
    {halt : Halt} (h : run place fuel next = some (halt, w')) :
    w.Acts known w' ∧ ∀ n ∈ halt.nodes, known n := by
  induction fuel generalizing next with
  | zero =>
    cases next with
    | running => cases h
    | halted =>
      obtain ⟨rfl, rfl⟩ := Prod.mk.inj (Option.some.inj h)
      exact ⟨hnext.acts, hnext.nodes⟩
  | succ fuel ih =>
    cases next with
    | running w₁ control frames =>
      obtain ⟨hcontrol, hframes⟩ := List.forall_mem_append.mp hnext.nodes
      have hstep : (step place w₁ control frames).After known w₁ :=
        acts_step (hnext.acts.within hw) hcontrol hframes
      exact ih (.of_acts hnext.acts hstep) h
    | halted =>
      obtain ⟨rfl, rfl⟩ := Prod.mk.inj (Option.some.inj h)
      exact ⟨hnext.acts, hnext.nodes⟩

variable {fuel : Nat} {halt : Halt}

theorem acts_runScript (hw : w.Within known) {script : List Stmt}
    (h : runScript fuel w script = some (halt, w')) :
    w.Acts known w' ∧ ∀ n ∈ halt.nodes, known n :=
  acts_run (after_block (List.forall_mem_nil _) (List.forall_mem_nil _) script) hw h

theorem acts_evaluate (hw : w.Within known) {e : Expr}
    (h : evaluate fuel w e = some (halt, w')) : w.Acts known w' ∧ ∀ n ∈ halt.nodes, known n :=
  acts_run (.running (List.forall_mem_nil _) (List.forall_mem_nil _)) hw h

theorem acts_runCall (hw : w.Within known) {f : Value} (hf : ∀ n ∈ f.nodes, known n)
    (hargs : ∀ n ∈ args.flatMap Value.nodes, known n)
    (h : runCall fuel w f args = some (halt, w')) :
    w.Acts known w' ∧ ∀ n ∈ halt.nodes, known n :=
  acts_run (after_call (List.forall_mem_nil _) hw hf hargs) hw h

/-- A thread that goes on keeps to what is known. -/
theorem acts_runCoroutine (hw : w.Within known) {routine : Coroutine}
    (hroutine : ∀ n ∈ routine.nodes, known n)
    (h : runCoroutine fuel w routine = some (halt, w')) :
    w.Acts known w' ∧ ∀ n ∈ halt.nodes, known n := by
  cases routine with
  | fresh f args =>
    rw [Coroutine.nodes_fresh] at hroutine
    obtain ⟨hf, hargs⟩ := List.forall_mem_append.mp hroutine
    unfold runCoroutine at h
    rw [Coroutine.passed_fresh] at h
    exact acts_run (after_call (List.forall_mem_nil _) hw hf hargs) hw h
  | suspended frames kept =>
    obtain ⟨hframes, -⟩ := List.forall_mem_append.mp hroutine
    exact acts_run (.give (List.forall_mem_nil _) hframes) hw h

end Machine

end KeyLight
