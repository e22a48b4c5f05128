import KeyLight.Proofs.World.Confinement

/-!
# What most steps leave alone

A script does three things that others can notice for good: it sends texts to a controller, it
gives variables new values, and it makes fades, which do not change after that. `World.Calm` says
that none of this has happened between two worlds, a given variable apart. Reading and writing
tables, objects and render targets and calling methods is calm: colours, keys and groups are the
only objects that are made by it.
-/

namespace KeyLight

/-! ### Variables -/

/-- A variable of scripts. -/
inductive Variable
  /-- A variable of a function or a block, by the place of its value. -/
  | cell (id : Nat)
  | global (name : String)
  deriving Repr, DecidableEq

/-- The variable that a name stands for. -/
def Scope.variable (scope : Scope) (x : String) : Variable :=
  match scope.lookup x with
  | some id => .cell id
  | none => .global x

/-- The text of a notice that a script sent to a controller, with the number of the controller. -/
def Notice.message? : Notice → Option (Nat × String)
  | @Notice.printed id text => some (id, text)
  | .attached | .detached _ | .notFunction _ _ | .failed _ | .violated _ => none

/-- The texts that controllers were sent, with the numbers of the controllers. -/
def Realm.sent (r : Realm) : List (Nat × String) := r.journal.toList.filterMap Notice.message?

theorem Realm.sent_note (r : Realm) (n : Notice) :
    (r.note n).sent = r.sent ++ n.message?.toList := by
  rw [sent, note, Array.toList_push, List.filterMap_append]
  cases h : n.message? <;> simp [h, sent]

theorem Realm.global_setGlobal (r : Realm) (name other : String) (v : Value) :
    (r.setGlobal name v).global other = if other = name then v else r.global other := by
  have hothers (h : other ≠ name) (entries : List (String × Value)) :
      (entries.filter (·.1 != name)).lookup other = entries.lookup other := by
    induction entries with
    | nil => rfl
    | cons entry entries ih =>
      rw [List.filter_cons]
      by_cases hentry : entry.1 = name
      · rw [if_neg (by simpa using hentry), ih, List.lookup_cons,
          beq_false_of_ne (hentry ▸ h)]
      · rw [if_pos (by simpa using hentry), List.lookup_cons, List.lookup_cons, ih]
  unfold global setGlobal
  rw [List.lookup_cons]
  split
  · rename_i h
    rw [if_pos (eq_of_beq h)]
    rfl
  · rename_i h
    have hne : other ≠ name := ne_of_beq_false h
    rw [if_neg hne, hothers hne]

namespace World

/-- Whether a variable is there. A global one always is. -/
def HasVariable (w : World) : Variable → Prop
  | .cell id => id < w.heap.cells.size
  | .global _ => True

/-- The value of a variable. -/
def valueOf (w : World) : Variable → Value
  | .cell id => w.heap.readVariable id
  | .global name => w.global name

/-- Nothing is sent, no fade is made, and no variable is given a value but perhaps `touched`. -/
structure Calm (touched : Option Variable) (w w' : World) : Prop where
  sent : w'.sent = w.sent
  has : ∀ x, w.HasVariable x → w'.HasVariable x
  kept : ∀ x, w.HasVariable x → touched ≠ some x → w'.valueOf x = w.valueOf x
  fades : ∀ (id : Nat) (f : Interpolator), w'.heap.objects[id]? = some (.fade f) →
    w.heap.objects[id]? = some (.fade f)

variable {w w' w'' : World} {touched : Option Variable}

namespace Calm

protected theorem refl (w : World) : w.Calm touched w :=
  ⟨rfl, fun _ hx => hx, fun _ _ _ => rfl, fun _ _ ho => ho⟩

protected theorem trans (h : w.Calm none w') (h' : w'.Calm touched w'') : w.Calm touched w'' where
  sent := h'.sent.trans h.sent
  has := fun x hx => h'.has x (h.has x hx)
  kept := fun x hx hne => (h'.kept x (h.has x hx) hne).trans (h.kept x hx nofun)
  fades := fun id f ho => h.fades id f (h'.fades id f ho)

/-- Nothing but the parts of the world that scripts do not keep things in is changed. -/
theorem congr (hsent : w'.sent = w.sent) (hheap : w'.heap = w.heap)
    (hglobals : w'.globals = w.globals) : w.Calm touched w' where
  sent := hsent
  has := fun x hx => by
    cases x with
    | cell id => rwa [HasVariable, hheap]
    | global name => trivial
  kept := fun x _ _ => by
    cases x with
    | cell id => rw [valueOf, hheap]; rfl
    | global name => simp only [valueOf, Realm.global, hglobals]
  fades := fun id f ho => hheap ▸ ho

/-- Variables may be added to the heap, and so may objects that are no fades. -/
theorem withHeap {h : Heap}
    (hcells : ∀ (id : Nat), id < w.heap.cells.size →
      id < h.cells.size ∧ h.readVariable id = w.heap.readVariable id)
    (hfades : ∀ (id : Nat) (f : Interpolator), h.objects[id]? = some (.fade f) →
      w.heap.objects[id]? = some (.fade f)) :
    w.Calm touched (w.updateHeap fun _ => h) where
  sent := rfl
  has := fun x hx => by
    cases x with
    | cell id => exact (hcells id hx).1
    | global name => trivial
  kept := fun x hx _ => by
    cases x with
    | cell id => exact (hcells id hx).2
    | global name => rfl
  fades := hfades

theorem addVariable (w : World) (v : Value) :
    w.Calm touched (w.updateHeap (·.addVariable v)) := by
  refine withHeap (fun id hid => ⟨?_, ?_⟩) fun _ _ ho => ho
  · rw [Heap.addVariable, Array.size_push]
    exact Nat.lt_succ_of_lt hid
  · rw [Heap.readVariable_addVariable, if_neg (Nat.ne_of_lt hid)]

theorem addVariables (w : World) (vs : List Value) :
    w.Calm none (w.updateHeap (·.addVariables vs)) := by
  induction vs generalizing w with
  | nil => exact .refl w
  | cons v vs ih => exact (addVariable w v).trans (ih _)

theorem setTable (w : World) (id : Nat) (t : Table) :
    w.Calm touched (w.updateHeap (·.setTable id t)) :=
  withHeap (fun _ hid => ⟨hid, rfl⟩) fun _ _ ho => ho

theorem addTable (w : World) (t : Table) : w.Calm touched (w.updateHeap (·.addTable t)) :=
  withHeap (fun _ hid => ⟨hid, rfl⟩) fun _ _ ho => ho

theorem addClosure (w : World) (c : Closure) : w.Calm touched (w.updateHeap (·.addClosure c)) :=
  withHeap (fun _ hid => ⟨hid, rfl⟩) fun _ _ ho => ho

/-- Making an object that is no fade. -/
theorem newObject (w : World) {o : Object} (ho : o.type ≠ .fade) :
    w.Calm touched (w.newObject o).2 := by
  refine withHeap (fun _ hid => ⟨hid, rfl⟩) fun id f hf => ?_
  rw [Heap.addObject, Array.getElem?_push] at hf
  split at hf
  · obtain rfl := Option.some.inj hf
    exact absurd rfl ho
  · exact hf

/-- Starting a thread and making its object. -/
theorem startThread (w : World) (routine : Value) (args : List Value) :
    w.Calm touched (Effect.startThread w routine args).2 :=
  have hspawn : w.Calm none { w with
      scheduler := (w.scheduler.spawn (.fresh routine args)).2 } := .congr rfl rfl rfl
  hspawn.trans (newObject _ nofun)

/-- Writing a render target. -/
theorem target {h : TargetHandle} {change : RenderTarget → Option RenderTarget} {r : Realm}
    (hr : w.writeTarget h change = .ok (some r)) : w.Calm touched (w.withRealm r) := by
  obtain ⟨held, t, -, -, -, rfl⟩ := exists_of_writeTarget hr
  exact congr rfl rfl rfl

/-- Giving the variable a value that a name stands for. -/
theorem assign (w : World) (scope : Scope) (x : String) (v : Value) :
    w.Calm (some (scope.variable x)) (Machine.assign w scope x v) := by
  unfold Machine.assign Scope.variable
  cases scope.lookup x with
  | some id =>
    refine ⟨rfl, fun y hy => ?_, fun y hy hne => ?_, fun _ _ ho => ho⟩
    · cases y with
      | cell other =>
        have hsize : (w.heap.setVariable id v).cells.size = w.heap.cells.size :=
          Array.size_setIfInBounds
        change other < (w.heap.setVariable id v).cells.size
        rw [hsize]
        exact hy
      | global name => trivial
    · cases y with
      | cell other =>
        have hother : other ≠ id := fun h => hne (by rw [h])
        exact (Heap.readVariable_setVariable ..).trans (if_neg fun h => hother h.1)
      | global name => rfl
  | none =>
    refine ⟨rfl, fun y hy => ?_, fun y hy hne => ?_, fun _ _ ho => ho⟩
    · cases y <;> exact hy
    · cases y with
      | cell other => rfl
      | global name =>
        have hother : name ≠ x := fun h => hne (by rw [h])
        exact (Realm.global_setGlobal ..).trans (if_neg hother)

end Calm

end World

/-! ### Reading -/

/-- The fade that has to be made for a datum. -/
def Datum.fade? : Datum → Option Interpolator
  | .object (.fade f) => some f
  | .object (.color _) | .object (.thread _) | .object (.suspension _) | .object (.board _)
  | .object (.group _) | .object (.key _) | .object (.target _) | .value _ => none

theorem Datum.fade?_object {o : Object} (ho : o.type ≠ .fade) : (Datum.object o).fade? = none := by
  cases o with
  | fade f => exact absurd rfl ho
  | color | thread | suspension | board | group | key | target => rfl

theorem Datum.fade?_ofOption_map {α : Type} {g : α → Object} (hg : ∀ a, (g a).type ≠ .fade)
    (o : Option α) : (Datum.ofOption (o.map g)).fade? = none := by
  cases o with
  | none => rfl
  | some a => exact fade?_object (hg a)

namespace World

variable {w w' : World} {touched : Option Variable} {d : Datum}

theorem fade?_item {o : Object} {key : Value} (h : w.item o key = .ok d) : d.fade? = none := by
  cases o with
  | color | fade =>
    obtain rfl := Except.ok.inj h
    rfl
  | thread | key =>
    simp only [item] at h
    split at h <;> cases h
  | suspension => cases h
  | board b =>
    obtain ⟨k, -, h⟩ := Except.exists_of_bind_eq_ok (Except.eq_ok_of_mapError h)
    obtain rfl := Except.ok.inj h
    exact Datum.fade?_ofOption_map (fun _ => ObjectType.noConfusion) _
  | group g =>
    have h := Except.eq_ok_of_mapError h
    unfold groupItem at h
    split at h
    · obtain rfl := Except.ok.inj h
      rfl
    · obtain ⟨group, -, h⟩ := Except.exists_of_bind_eq_ok h
      obtain rfl := Except.ok.inj h
      exact Datum.fade?_ofOption_map (fun _ => ObjectType.noConfusion) _
  | target t =>
    obtain ⟨slot, -, h⟩ := Except.exists_of_bind_eq_ok (Except.eq_ok_of_mapError h)
    cases slot with
    | none =>
      obtain rfl := Except.ok.inj h
      rfl
    | some slot =>
      obtain ⟨target, -, h⟩ := Except.exists_of_bind_eq_ok h
      obtain rfl := Except.ok.inj h
      exact Datum.fade?_ofOption_map (fun _ => ObjectType.noConfusion) _

/-- What is read off a value is no new fade. -/
theorem fade?_index {container key : Value} (h : w.index container key = .ok d) :
    d.fade? = none := by
  unfold index at h
  split at h
  · obtain rfl := Except.ok.inj h
    rfl
  · obtain rfl := Except.ok.inj h
    rfl
  · split at h
    · unfold objectIndex at h
      split at h
      · obtain ⟨v, -, rfl⟩ := Except.exists_of_map_eq_ok (Except.eq_ok_of_mapError h)
        rfl
      split at h
      · obtain rfl := Except.ok.inj h
        rfl
      · exact fade?_item h
    · cases h
  · cases h

theorem fade?_ofInterpolated (x : Interpolated) : (ofInterpolated x).fade? = none := by
  cases x <;> rfl

/-- Methods give no new fades. -/
theorem fade?_readMethod {m : Method} {args : List Value} (h : w.readMethod m args = .ok d) :
    d.fade? = none := by
  cases m with
  | blend =>
    obtain ⟨c, -, h⟩ := Except.exists_of_bind_eq_ok h
    obtain ⟨overlay, -, h⟩ := Except.exists_of_bind_eq_ok h
    obtain rfl := Except.ok.inj h
    rfl
  | value =>
    obtain ⟨f, -, h⟩ := Except.exists_of_bind_eq_ok h
    obtain rfl := Except.ok.inj h
    exact fade?_ofInterpolated _
  | «at» =>
    obtain ⟨f, -, h⟩ := Except.exists_of_bind_eq_ok h
    obtain ⟨t, -, h⟩ := Except.exists_of_bind_eq_ok h
    obtain rfl := Except.ok.inj h
    exact fade?_ofInterpolated _
  | findKeyCode =>
    obtain ⟨b, -, h⟩ := Except.exists_of_bind_eq_ok h
    obtain ⟨code, -, h⟩ := Except.exists_of_bind_eq_ok h
    obtain ⟨k, -, h⟩ := Except.exists_of_bind_eq_ok h
    obtain rfl := Except.ok.inj h
    exact Datum.fade?_ofOption_map (fun _ => ObjectType.noConfusion) _
  | group =>
    obtain ⟨name, -, h⟩ := Except.exists_of_bind_eq_ok h
    obtain ⟨b, -, h⟩ := Except.exists_of_bind_eq_ok h
    obtain ⟨k, -, h⟩ := Except.exists_of_bind_eq_ok h
    obtain rfl := Except.ok.inj h
    exact Datum.fade?_ofOption_map (fun _ => ObjectType.noConfusion) _
  | contains =>
    obtain ⟨g, -, h⟩ := Except.exists_of_bind_eq_ok h
    obtain ⟨k, -, h⟩ := Except.exists_of_bind_eq_ok h
    obtain ⟨b, -, h⟩ := Except.exists_of_bind_eq_ok h
    obtain rfl := Except.ok.inj h
    rfl
  | fill => cases h

namespace Calm

/-- Making the object of a datum that is no fade. -/
theorem realize (w : World) (hd : d.fade? = none) : w.Calm touched (w.realize d).2 := by
  cases d with
  | value v => exact .refl w
  | object o =>
    refine newObject w fun ho => ?_
    cases o <;> cases ho
    cases hd

/-! ### Writing -/

theorem put {container key v : Value} (h : w.put container key v = .ok w') :
    w.Calm touched w' := by
  unfold World.put at h
  split at h
  · split at h
    · obtain rfl := Except.ok.inj h
      exact setTable w _ _
    · cases h
  split at h
  · obtain ⟨c, -, h⟩ := Except.exists_of_bind_eq_ok (Except.eq_ok_of_mapError h)
    obtain ⟨slot, -, h⟩ := Except.exists_of_bind_eq_ok h
    -- a key that denotes no slot is refused
    cases slot with
    | none => cases h
    | some slot =>
      obtain ⟨written, hwritten, h⟩ := Except.exists_of_bind_eq_ok h
      cases written with
      | none => cases h
      | some r =>
        obtain rfl := Except.ok.inj h
        exact target hwritten
  · cases h

theorem fill {args : List Value} (h : w.fill args = .ok w') : w.Calm touched w' := by
  obtain ⟨handle, -, h⟩ := Except.exists_of_bind_eq_ok h
  obtain ⟨c, -, h⟩ := Except.exists_of_bind_eq_ok h
  obtain ⟨written, hwritten, h⟩ := Except.exists_of_bind_eq_ok h
  cases written with
  | some r =>
    obtain rfl := Except.ok.inj h
    exact target (Except.eq_ok_of_mapError hwritten)
  | none =>
    obtain rfl := Except.ok.inj h
    exact .refl w

theorem callMethod (w : World) (m : Method) (args : List Value) :
    w.Calm touched (w.callMethod m args).2 := by
  have hread (m : Method) : w.Calm touched (w.realizeResult (w.readMethod m args)).2 := by
    cases hd : w.readMethod m args with
    | error f => exact .refl w
    | ok d => exact realize w (fade?_readMethod hd)
  cases m with
  | fill =>
    simp only [World.callMethod]
    cases hfill : w.fill args with
    | error f => exact .refl w
    | ok w' => exact Calm.fill hfill
  | blend | value | «at» | findKeyCode | group | contains => exact hread _

end Calm

end World

end KeyLight
