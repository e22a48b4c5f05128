import KeyLight.Proofs.Host.Rows
import KeyLight.Proofs.World.Confinement
import KeyLight.Proofs.World.Plain

/-!
# What scripts leave as it is

However many acts a script makes, it leaves most of the world as it is: the context, the controllers
and boards of the host, all objects and functions that were there, the variables and tables that it
does not know, and the render targets but for the colours of those on which it knows a live handle.
`World.Spares` says so for the world before and the world after, and `Acts.spares` is proved by
looking at each act once.
-/

namespace KeyLight

variable {known : Node → Prop}

namespace World

/-- What acts within the known leave as it is. -/
structure Spares (known : Node → Prop) (w w' : World) : Prop where
  context : w'.context = w.context
  home : w'.home = w.home
  controllers : w'.host.controllers = w.host.controllers
  boards : w'.host.boards = w.host.boards
  /-- A target that the host has stays, and the host goes on using it in the same way. -/
  holds : ∀ id, (w'.host.target? id).map (·.hold) = (w.host.target? id).map (·.hold)
  /-- Only targets on which there is a known live handle get other colours. -/
  targets : ∀ id, w'.host.target? id ≠ w.host.target? id → ∃ object handle held,
    known (.object object) ∧ w.heap.objects[object]? = some (.target handle) ∧
      handle.target = id ∧ w.hostTarget handle = .ok held ∧ held.hold = .free
  objects : w.heap.Keeps w'.heap
  made : ∀ (id : Nat) (o : Object), w'.heap.objects[id]? = some o →
    w.heap.objects[id]? = some o ∨ w.Makes known o
  closures : ∀ (id : Nat) (c : Closure), w.heap.closures[id]? = some c →
    w'.heap.closures[id]? = some c
  cells : ∀ id, w.Has (.cell id) → ¬known (.cell id) →
    w'.heap.readVariable id = w.heap.readVariable id
  tables : ∀ id, w.Has (.table id) → ¬known (.table id) →
    w'.heap.readTable id = w.heap.readTable id
  larger : w.heap.NoLarger w'.heap
  threads : ∀ id t, w.scheduler.thread? id = some t → w'.scheduler.thread? id = some t
  /-- New threads have yet to be called, with what is known. -/
  started : ∀ id t, w'.scheduler.thread? id = some t → w.scheduler.thread? id = some t ∨
    ∃ f args, t = ⟨.ready, some (.fresh f args), false⟩ ∧
      ∀ n ∈ (Coroutine.fresh f args).nodes, known n

variable {w w' w'' : World}

/-- Access to a board depends on the context and the boards of the host. -/
theorem board_congr {h : BoardHandle} (hcontext : w'.context = w.context)
    (hboards : w'.host.boards = w.host.boards) : w'.board h = w.board h := by
  unfold Realm.board Realm.isLive Host.board?
  rw [hcontext, hboards]

/-- And so does what a script can make. -/
theorem Makes.congr {o : Object} (ho : w.Makes known o) (hcontext : w'.context = w.context)
    (hboards : w'.host.boards = w.host.boards) : w'.Makes known o := by
  cases o with
  | group g => simpa only [Makes, board_congr hcontext hboards] using ho
  | key k => simpa only [Makes, board_congr hcontext hboards] using ho
  | color | fade | thread | suspension | board | target => exact ho

theorem Spares.hostTarget {h : TargetHandle} {held : HostTarget} (hspares : w.Spares known w')
    (hheld : w'.hostTarget h = .ok held) : ∃ held₀, w.hostTarget h = .ok held₀ ∧
      held₀.hold = held.hold := by
  have hhold := hspares.holds h.target
  unfold Realm.hostTarget at hheld ⊢
  split at hheld
  · rename_i row hrow
    split at hheld
    · rename_i hlive
      obtain rfl := Except.ok.inj hheld
      rw [hrow] at hhold
      cases hrow₀ : w.host.target? h.target with
      | none => rw [hrow₀] at hhold; cases hhold
      | some held₀ =>
        rw [hrow₀] at hhold
        have hlive₀ : w.isLive h.lease = true := by
          simpa only [Realm.isLive, hspares.context] using hlive
        exact ⟨held₀, by simp only [hlive₀, if_true], (Option.some.inj hhold).symm⟩
    · cases hheld
  · cases hheld

theorem Spares.refl (w : World) : w.Spares known w where
  context := rfl
  home := rfl
  controllers := rfl
  boards := rfl
  holds := fun _ => rfl
  targets := fun _ hne => absurd rfl hne
  objects := .refl w.heap
  made := fun _ _ ho => .inl ho
  closures := fun _ _ hc => hc
  cells := fun _ _ _ => rfl
  tables := fun _ _ _ => rfl
  larger := .refl w.heap
  threads := fun _ _ ht => ht
  started := fun _ _ ht => .inl ht

theorem Spares.trans (h₁ : w.Spares known w') (h₂ : w'.Spares known w'') :
    w.Spares known w'' where
  context := h₂.context.trans h₁.context
  home := h₂.home.trans h₁.home
  controllers := h₂.controllers.trans h₁.controllers
  boards := h₂.boards.trans h₁.boards
  holds := fun id => (h₂.holds id).trans (h₁.holds id)
  targets := fun id hne => by
    by_cases hfirst : w'.host.target? id = w.host.target? id
    · -- the later acts changed it, through a handle that was there before
      rw [← hfirst] at hne
      obtain ⟨object, handle, held, hknown, hobject, hid, hheld, hfree⟩ := h₂.targets id hne
      obtain ⟨held₀, hheld₀, hhold⟩ := h₁.hostTarget hheld
      obtain hold | hmade := h₁.made object _ hobject
      · exact ⟨object, handle, held₀, hknown, hold, hid, hheld₀, hhold.trans hfree⟩
      · exact hmade.elim
    · exact h₁.targets id hfirst
  objects := h₁.objects.trans h₂.objects
  made := fun id o ho => (h₂.made id o ho).elim (h₁.made id o) fun ho =>
    .inr (ho.congr h₁.context.symm h₁.boards.symm)
  closures := fun id c hc => h₂.closures id c (h₁.closures id c hc)
  cells := fun id hid hunknown => (h₂.cells id (Nat.lt_of_lt_of_le hid h₁.larger.cells)
    hunknown).trans (h₁.cells id hid hunknown)
  tables := fun id hid hunknown => (h₂.tables id (Nat.lt_of_lt_of_le hid h₁.larger.tables)
    hunknown).trans (h₁.tables id hid hunknown)
  larger := h₁.larger.trans h₂.larger
  threads := fun id t ht => h₂.threads id t (h₁.threads id t ht)
  started := fun id t ht => (h₂.started id t ht).elim (h₁.started id t) .inr

/-- What a change of the heap alone leaves as it is. -/
theorem spares_updateHeap {f : Heap → Heap} (hlarger : w.heap.NoLarger (f w.heap))
    (hcells : ∀ id, w.Has (.cell id) → ¬known (.cell id) →
      (f w.heap).readVariable id = w.heap.readVariable id)
    (htables : ∀ id, w.Has (.table id) → ¬known (.table id) →
      (f w.heap).readTable id = w.heap.readTable id)
    (hclosures : ∀ (id : Nat) (c : Closure), w.heap.closures[id]? = some c →
      (f w.heap).closures[id]? = some c)
    (hobjects : w.heap.Keeps (f w.heap))
    (hmade : ∀ (id : Nat) (o : Object), (f w.heap).objects[id]? = some o →
      w.heap.objects[id]? = some o ∨ w.Makes known o) :
    w.Spares known (w.updateHeap f) :=
  { Spares.refl w with
    objects := hobjects
    made := hmade
    closures := hclosures
    cells := hcells
    tables := htables
    larger := hlarger }

theorem Act.spares (h : w.Act known w') : w.Spares known w' := by
  have kept : w.Spares known w := .refl w
  cases h with
  | @setVariable id v hid hv =>
    refine spares_updateHeap (.setVariable _ id v) (fun other _ hunknown => ?_) kept.tables
      kept.closures kept.objects kept.made
    have hne : other ≠ id := fun heq => hunknown (heq ▸ hid)
    rw [Heap.readVariable_setVariable, if_neg fun h => hne h.1]
  | @addVariable v hv =>
    refine spares_updateHeap (.addVariable _ v) (fun other hother _ => ?_) kept.tables
      kept.closures kept.objects kept.made
    rw [Heap.readVariable_addVariable, if_neg (Nat.ne_of_lt hother)]
  | @setTable id t hid ht =>
    refine spares_updateHeap (.setTable _ id t) kept.cells (fun other _ hunknown => ?_)
      kept.closures kept.objects kept.made
    have hne : other ≠ id := fun heq => hunknown (heq ▸ hid)
    rw [Heap.readTable_setTable, if_neg fun h => hne h.1]
  | @addTable t ht =>
    refine spares_updateHeap (.addTable _ t) kept.cells (fun other hother _ => ?_)
      kept.closures kept.objects kept.made
    rw [Heap.readTable_addTable, if_neg (Nat.ne_of_lt hother)]
  | @addClosure c hc =>
    refine spares_updateHeap (.addClosure _ c) kept.cells kept.tables (fun id d hd => ?_)
      kept.objects kept.made
    have hlt : id < w.heap.closures.size := (Array.getElem?_eq_some_iff.mp hd).1
    simpa only [Heap.addClosure, Array.getElem?_push, if_neg (Nat.ne_of_lt hlt)] using hd
  | @make o ho =>
    refine spares_updateHeap (.addObject _ o) kept.cells kept.tables kept.closures
      (Heap.keeps_addObject w.heap o) fun id x hx => ?_
    rw [Heap.addObject, Array.getElem?_push] at hx
    split at hx
    · exact .inr (Option.some.inj hx ▸ ho)
    · exact .inl hx
  | global | print => exact { kept with }
  | @start f args hroutine =>
    refine { kept with threads := fun id t ht => ?_, started := fun id t ht => ?_ }
    · rw [Scheduler.thread?_spawn, if_neg (Nat.ne_of_lt (Nat.lt_succ_of_le ?_))]
      · exact ht
      · exact Scheduler.le_size_of_thread? ht
    · rw [Scheduler.thread?_spawn] at ht
      split at ht
      · exact .inr ⟨f, args, (Option.some.inj ht).symm, hroutine⟩
      · exact .inl ht
  | @target object handle change r hid ho hr =>
    obtain ⟨held, t, hheld, hfree, -, rfl⟩ := exists_of_writeTarget hr
    refine { kept with controllers := ?_, boards := ?_, holds := ?_, targets := ?_ }
    · exact Host.controllers_setTarget w.host handle.target t
    · exact Host.boards_setTarget w.host handle.target t
    · intro id
      simp only [withRealm, Host.target?_setTarget]
      split
      · rename_i heq
        rw [heq, Option.map_map]
        rfl
      · rfl
    · intro id hne
      simp only [withRealm, Host.target?_setTarget] at hne
      split at hne
      · rename_i heq
        exact ⟨object, handle, held, hid, ho, heq.symm, hheld, hfree⟩
      · exact absurd rfl hne

/-- **Acts leave most of the world as it is.** -/
theorem Acts.spares (h : w.Acts known w') : w.Spares known w' := by
  induction h with
  | refl => exact .refl w
  | tail _ hact ih => exact ih.trans hact.spares

end World

end KeyLight
