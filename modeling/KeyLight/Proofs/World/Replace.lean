import KeyLight.Proofs.World.Confinement
import KeyLight.Proofs.World.Stale

/-!
# What does not depend on a thing of the host

A `Replacement` puts other contents in the place of a thing that the host has. `World.Shut x v` says
that a value gives no access to the thing `x`: if it is a handle on `x`, then it is stale. Whatever
reads or writes a value that is shut to a thing, or calls a method on one, comes out the same when
that thing is replaced, and leaves it alone: each operation commutes with the replacement.

A list of arguments is `World.Withheld` from a thing if none of them gives access to it, or if the
first one is a stale handle, at which a function that reads all of them stops.
-/

namespace KeyLight

/-- Other contents for one thing of the host. -/
inductive Replacement
  | board (id : Nat) (k : Keyboard)
  | target (id : Nat) (t : HostTarget)

/-- The thing that is replaced. -/
def Replacement.thing : Replacement → Thing
  | .board id _ => .board id
  | .target id _ => .target id

namespace Host

variable (h : Host) (x : Replacement)

/-- Two hosts have the same in the place of a thing. -/
def SameAt (h h' : Host) : Thing → Prop
  | .board id => h.board? id = h'.board? id
  | .target id => h.target? id = h'.target? id

/-- Puts other contents in the place of a thing, if the host has it. -/
def replace : Replacement → Host
  | .board id k => { h with boards := h.boards.setIfInBounds id ((h.board? id).map fun _ => k) }
  | .target id t => { h with targets := h.targets.setIfInBounds id ((h.target? id).map fun _ => t) }

theorem controller?_replace (id : Nat) : (h.replace x).controller? id = h.controller? id := by
  cases x <;> rfl

theorem board?_replace {id : Nat} (hne : x.thing ≠ .board id) :
    (h.replace x).board? id = h.board? id := by
  cases x with
  | board other k =>
    have hid : ¬(id = other ∧ other < h.boards.size) := fun heq => hne (heq.1 ▸ rfl)
    rw [replace, board?, join_setIfInBounds, if_neg hid]
    rfl
  | target => rfl

theorem target?_replace {id : Nat} (hne : x.thing ≠ .target id) :
    (h.replace x).target? id = h.target? id := by
  cases x with
  | board => rfl
  | target other t =>
    have hid : ¬(id = other ∧ other < h.targets.size) := fun heq => hne (heq.1 ▸ rfl)
    rw [replace, target?, join_setIfInBounds, if_neg hid]
    rfl

/-- What a row has in a place is there after its contents are replaced. -/
theorem isSome_join_setIfInBounds {α : Type} (row : Array (Option α)) (id other : Nat) (a : α) :
    (row.setIfInBounds id (row[id]?.join.map fun _ => a))[other]?.join.isSome =
      row[other]?.join.isSome := by
  rw [join_setIfInBounds]
  split
  · rename_i heq
    rw [Option.isSome_map, heq.1]
  · rfl

/-- The host has just the things that it had. -/
theorem has_replace {thing : Thing} : (h.replace x).Has thing ↔ h.Has thing := by
  cases x with
  | board id k =>
    cases thing with
    | board other => exact Bool.eq_iff_iff.mp (isSome_join_setIfInBounds h.boards id other k)
    | target other => exact Iff.rfl
  | target id t =>
    cases thing with
    | board other => exact Iff.rfl
    | target other => exact Bool.eq_iff_iff.mp (isSome_join_setIfInBounds h.targets id other t)

theorem target?_replace_self {id : Nat} {held : HostTarget} (t : HostTarget)
    (hheld : h.target? id = some held) : (h.replace (.target id t)).target? id = some t := by
  have hlt : id < h.targets.size := lt_size_of_join hheld
  rw [replace, hheld, target?, join_setIfInBounds, if_pos ⟨rfl, hlt⟩]
  rfl

/-- A thing is its own replacement. -/
theorem replace_self {id : Nat} {held : HostTarget} (hheld : h.target? id = some held) :
    h.replace (.target id held) = h := by
  have hrow : h.targets[id]? = some (some held) := Option.join_eq_some_iff.mp hheld
  obtain ⟨hlt, hget⟩ := Array.getElem?_eq_some_iff.mp hrow
  have hsame : h.targets.setIfInBounds id (some held) = h.targets := by
    rw [← hget, Array.setIfInBounds_def, dif_pos hlt, Array.set_getElem_self]
  simp only [replace, hheld, Option.map_some, hsame]

/-- Giving another target new colours. -/
theorem setTarget_replace {id : Nat} (hne : x.thing ≠ .target id) (t : RenderTarget) :
    (h.replace x).setTarget id t = (h.setTarget id t).replace x := by
  have hheld := h.target?_replace x hne
  cases hid : h.target? id with
  | none =>
    rw [hid] at hheld
    simp only [setTarget, hheld, hid]
  | some held =>
    rw [hid] at hheld
    simp only [setTarget, hheld, hid]
    cases x with
    | board => rfl
    | target other t' =>
      have hother : other ≠ id := fun heq => hne (heq ▸ rfl)
      have hlt : ¬(other = id ∧ id < h.targets.size) := fun heq => hother heq.1
      simp only [replace, target?, join_setIfInBounds, if_neg hlt]
      rw [Array.setIfInBounds_comm _ _ hother]

end Host

/-- The realm with other contents in the place of a thing. -/
def Realm.replace (r : Realm) (x : Replacement) : Realm := { r with host := r.host.replace x }

namespace World

/-- The world with other contents in the place of a thing. -/
def replace (w : World) (x : Replacement) : World := { w with host := w.host.replace x }

variable {w : World} {x : Replacement} {v : Value} {o : Object}

/-- An object gives no access to a thing: if it is a handle on it, then it is stale. -/
def ShutObject (w : World) (thing : Thing) (o : Object) : Prop :=
  ∀ loan, o.loan? = some loan → loan.thing = thing → w.Stale loan

/-- A value gives no access to a thing. -/
def Shut (w : World) (thing : Thing) (v : Value) : Prop :=
  ∀ o, w.heap.object? v = some o → w.ShutObject thing o

/-- No value of a row gives access to a thing, or the first one is a stale handle. -/
def Withheld (w : World) (thing : Thing) (vs : List Value) : Prop :=
  (∀ v ∈ vs, w.Shut thing v) ∨ ∃ v o loan, vs.head? = some v ∧ w.Refuses v o loan

theorem Refuses.shut {loan : Loan} {thing : Thing} (h : w.Refuses v o loan) : w.Shut thing v := by
  intro o' ho' loan' hloan' _
  obtain rfl := Option.some.inj (h.object.symm.trans ho')
  obtain rfl := Option.some.inj (h.lent.symm.trans hloan')
  exact h.stale

theorem Withheld.head {vs : List Value} (h : w.Withheld x.thing vs) (hv : vs.head? = some v) :
    w.Shut x.thing v := by
  obtain hall | ⟨u, o, loan, hu, hrefuses⟩ := h
  · exact hall v (List.mem_of_head? hv)
  · obtain rfl : u = v := Option.some.inj (hu.symm.trans hv)
    exact hrefuses.shut

theorem shut_nil {thing : Thing} : w.Shut thing .nil := fun _ ho => nomatch ho

/-- The first operand of an operation. -/
theorem Withheld.headD {vs : List Value} (h : w.Withheld x.thing vs) :
    w.Shut x.thing (vs.headD .nil) := by
  cases vs with
  | nil => exact shut_nil
  | cons v vs => exact h.head rfl

/-- Leaving out values but the first one. -/
theorem Withheld.drop {thing : Thing} {vs : List Value} (h : w.Withheld thing vs) (n : Nat) :
    w.Withheld thing (vs.headD .nil :: vs.drop n) := by
  obtain hall | ⟨v, o, loan, hv, hrefuses⟩ := h
  · refine .inl (List.forall_mem_cons.mpr ⟨?_, fun v hv => hall v (List.mem_of_mem_drop hv)⟩)
    cases vs with
    | nil => exact shut_nil
    | cons v vs => exact hall v List.mem_cons_self
  · obtain ⟨vs, rfl⟩ := List.head?_eq_some_iff.mp hv
    exact .inr ⟨v, o, loan, rfl, hrefuses⟩

/-! ### Access -/

theorem stale_replace (loan : Loan) : (w.replace x).Stale loan ↔ w.Stale loan :=
  or_congr_right (not_congr (w.host.has_replace x))

theorem board_replace {h : BoardHandle}
    (hshut : h.loan.thing = x.thing → w.Stale h.loan) : (w.replace x).board h = w.board h := by
  by_cases hthing : h.loan.thing = x.thing
  · have hstale := hshut hthing
    rw [Realm.board_of_stale hstale, Realm.board_of_stale ((stale_replace h.loan).mpr hstale)]
  · have hboard := w.host.board?_replace x (Ne.symm hthing)
    unfold Realm.board
    rw [show (w.replace x).host.board? h.board = w.host.board? h.board from hboard]
    rfl

theorem group_replace {h : GroupHandle} (hshut : w.ShutObject x.thing (.group h)) :
    (w.replace x).group h = w.group h := by
  unfold Realm.group
  rw [board_replace (hshut _ rfl)]

theorem key_replace {h : KeyHandle} (hshut : w.ShutObject x.thing (.key h)) :
    (w.replace x).key h = w.key h := by
  unfold Realm.key
  rw [board_replace (hshut _ rfl)]

theorem hostTarget_replace {h : TargetHandle} (hshut : w.ShutObject x.thing (.target h)) :
    (w.replace x).hostTarget h = w.hostTarget h := by
  have hshut := hshut _ rfl
  by_cases hthing : h.loan.thing = x.thing
  · have hstale := hshut hthing
    rw [Realm.hostTarget_of_stale hstale,
      Realm.hostTarget_of_stale ((stale_replace h.loan).mpr hstale)]
  · have htarget := w.host.target?_replace x (Ne.symm hthing)
    unfold Realm.hostTarget
    rw [show (w.replace x).host.target? h.target = w.host.target? h.target from htarget]
    rfl

theorem readTarget_replace {h : TargetHandle} (hshut : w.ShutObject x.thing (.target h)) :
    (w.replace x).readTarget h = w.readTarget h := by
  unfold Realm.readTarget
  rw [hostTarget_replace hshut]

/-- Writing a target that is not the thing, or through a stale handle. -/
theorem writeTarget_replace {h : TargetHandle} (hshut : w.ShutObject x.thing (.target h))
    (change : RenderTarget → Option RenderTarget) :
    (w.replace x).writeTarget h change =
      (w.writeTarget h change).map (Option.map fun r => r.replace x) := by
  by_cases hstale : w.Stale h.loan
  · rw [Realm.writeTarget_of_stale hstale,
      Realm.writeTarget_of_stale ((stale_replace h.loan).mpr hstale)]
    rfl
  · have hne : x.thing ≠ .target h.target := fun heq => hstale (hshut _ rfl heq.symm)
    unfold Realm.writeTarget
    rw [hostTarget_replace hshut]
    cases w.hostTarget h with
    | error e => rfl
    | ok held =>
      simp only [bind, Except.bind]
      split
      · simp only [Except.map, Option.map_map, replace, Host.setTarget_replace _ x hne]
        rfl
      · rfl

/-! ### Reading -/

theorem objectText_replace (hshut : w.ShutObject x.thing o) :
    (w.replace x).objectText o = w.objectText o := by
  cases o with
  | board h =>
    simp only [objectText]
    rw [board_replace (hshut _ rfl)]
  | group h =>
    simp only [objectText]
    rw [group_replace hshut]
  | key h =>
    simp only [objectText]
    rw [key_replace hshut]
  | target h =>
    simp only [objectText]
    rw [readTarget_replace hshut]
  | color | fade | thread | suspension => rfl

/-- **The text of a value.** -/
theorem text_replace (hshut : w.Shut x.thing v) : (w.replace x).text v = w.text v := by
  cases v with
  | object id =>
    simp only [text, show (w.replace x).heap = w.heap from rfl]
    cases ho : w.heap.objects[id]? with
    | none => rfl
    | some o => simp only [objectText_replace (hshut o ho)]
  | nil | bool | int | float | text | table | closure | builtin => rfl

theorem field?_replace (hshut : w.ShutObject x.thing o) (name : String) :
    (w.replace x).field? o name = w.field? o name := by
  cases o with
  | group h =>
    simp only [field?]
    rw [group_replace hshut]
  | key h =>
    simp only [field?]
    rw [key_replace hshut]
  | color | fade | thread | suspension | board | target => rfl

theorem item_replace (hshut : w.ShutObject x.thing o) (key : Value) :
    (w.replace x).item o key = w.item o key := by
  cases o with
  | board h =>
    simp only [item, boardItem]
    rw [board_replace (hshut _ rfl)]
  | group h =>
    simp only [item, groupItem]
    rw [group_replace hshut]
  | target h =>
    simp only [item, targetItem]
    rw [readTarget_replace hshut]
    rfl
  | color | fade | thread | key | suspension => rfl

theorem objectIndex_replace (hshut : w.ShutObject x.thing o) (key : Value) :
    (w.replace x).objectIndex o key = w.objectIndex o key := by
  have hfield : (w.replace x).field? o = w.field? o := funext (field?_replace hshut)
  unfold objectIndex
  rw [hfield, item_replace hshut]

/-- **What a value holds at a key**, whatever the key is. -/
theorem index_replace (hshut : w.Shut x.thing v) (key : Value) :
    (w.replace x).index v key = w.index v key := by
  cases v with
  | object id =>
    simp only [index, show (w.replace x).heap = w.heap from rfl]
    cases ho : w.heap.objects[id]? with
    | none => rfl
    | some o => exact objectIndex_replace (hshut o ho) key
  | nil | bool | int | float | text | table | closure | builtin => rfl

theorem objectLength_replace (hshut : w.ShutObject x.thing o) :
    (w.replace x).objectLength o = w.objectLength o := by
  cases o with
  | board h =>
    simp only [objectLength]
    rw [board_replace (hshut _ rfl)]
  | group h =>
    simp only [objectLength]
    rw [group_replace hshut]
  | target h =>
    simp only [objectLength]
    rw [readTarget_replace hshut]
  | color | fade | thread | key | suspension => rfl

/-- **The length of a value.** -/
theorem length_replace (hshut : w.Shut x.thing v) : (w.replace x).length v = w.length v := by
  cases v with
  | object id =>
    simp only [length, show (w.replace x).heap = w.heap from rfl]
    cases ho : w.heap.object? (.object id) with
    | none => rfl
    | some o => exact objectLength_replace (hshut o ho)
  | nil | bool | int | float | text | table | closure | builtin => rfl

/-! ### Writing -/

theorem putSlot_replace {h : TargetHandle} (hshut : w.ShutObject x.thing (.target h))
    (key v : Value) :
    (w.replace x).putSlot h key v = (w.putSlot h key v).map fun w => w.replace x := by
  unfold putSlot
  rw [show (w.replace x).slotColor v 3 = w.slotColor v 3 from rfl,
    show (w.replace x).targetSlot key 2 = w.targetSlot key 2 from rfl]
  cases w.slotColor v 3 with
  | error e => rfl
  | ok c =>
    cases w.targetSlot key 2 with
    | error e => rfl
    | ok slot =>
      cases slot with
      | none => rfl
      | some slot =>
        simp only [bind, Except.bind, writeTarget_replace hshut]
        cases w.writeTarget h (·.set? slot c) with
        | error e => rfl
        | ok written => cases written <;> rfl

/-- **Giving a value a new one at a key.** -/
theorem put_replace (hshut : w.Shut x.thing v) (key u : Value) :
    (w.replace x).put v key u = (w.put v key u).map fun w => w.replace x := by
  cases v with
  | object id =>
    simp only [put, show (w.replace x).heap = w.heap from rfl]
    cases ho : w.heap.object? (.object id) with
    | none => rfl
    | some o =>
      cases o with
      | target h =>
        simp only [putSlot_replace (hshut _ ho)]
        cases w.putSlot h key u <;> rfl
      | color | fade | thread | suspension | board | group | key => rfl
  | table id =>
    simp only [put, show (w.replace x).heap = w.heap from rfl]
    cases (w.heap.readTable id).put? key u <;> rfl
  | nil | bool | int | float | text | closure | builtin => rfl

/-! ### Methods -/

section Methods

variable {args : List Value}

/-- What a method is called on is its first argument. -/
theorem shutObject_of_receiver {α : Type} [Exposed α] {m : Method} {a : α}
    (hargs : ∀ v, args.head? = some v → w.Shut x.thing v) (h : w.receiver m args = .ok a) :
    w.ShutObject x.thing (Exposed.wrap a) := by
  unfold receiver at h
  cases args with
  | nil => cases h
  | cons v args =>
    simp only at h
    split at h
    · rename_i b hunwrap
      obtain rfl := Except.ok.inj h
      obtain ⟨o, ho, hwrap⟩ := Option.bind_eq_some_iff.mp hunwrap
      exact (Exposed.unwrap?_eq_some o b).mp hwrap ▸ hargs v rfl o ho
    · cases h

/-- The receiver of a method is found in the heap. -/
theorem receiver_replace {α : Type} [Exposed α] (w : World) (x : Replacement) (m : Method)
    (args : List Value) :
    (w.replace x).receiver m args = (w.receiver m args : Except Fault α) := rfl

theorem hasKey_replace {h : GroupHandle} (hshut : w.ShutObject x.thing (.group h))
    (k : KeyHandle) : (w.replace x).hasKey h k = w.hasKey h k := by
  unfold hasKey
  rw [group_replace hshut]

variable (hargs : ∀ v, args.head? = some v → w.Shut x.thing v)
include hargs

theorem readMethod_replace (m : Method) :
    (w.replace x).readMethod m args = w.readMethod m args := by
  cases m with
  | findKeyCode =>
    simp only [readMethod, receiver_replace]
    cases hreceiver : (w.receiver .findKeyCode args : Except Fault BoardHandle) with
    | error f => rfl
    | ok h =>
      have hshut : w.ShutObject x.thing (.board h) := shutObject_of_receiver hargs hreceiver
      simp only [bind, Except.bind, board_replace (hshut _ rfl)]
  | group =>
    simp only [readMethod, receiver_replace]
    cases hreceiver : (w.receiver .group args : Except Fault BoardHandle) with
    | error f => rfl
    | ok h =>
      have hshut : w.ShutObject x.thing (.board h) := shutObject_of_receiver hargs hreceiver
      simp only [bind, Except.bind, board_replace (hshut _ rfl)]
  | contains =>
    simp only [readMethod, receiver_replace]
    cases hreceiver : (w.receiver .contains args : Except Fault GroupHandle) with
    | error f => rfl
    | ok h =>
      have hshut : w.ShutObject x.thing (.group h) := shutObject_of_receiver hargs hreceiver
      simp only [bind, Except.bind, hasKey_replace hshut]
      rfl
  | blend | value | «at» | fill => rfl

theorem fill_replace : (w.replace x).fill args = (w.fill args).map fun w => w.replace x := by
  unfold fill
  rw [receiver_replace]
  cases hreceiver : (w.receiver .fill args : Except Fault TargetHandle) with
  | error f => rfl
  | ok h =>
    have hshut : w.ShutObject x.thing (.target h) := shutObject_of_receiver hargs hreceiver
    rw [show (w.replace x).slotColor (argument args 2) 2 = w.slotColor (argument args 2) 2 from rfl]
    cases w.slotColor (argument args 2) 2 with
    | error e => rfl
    | ok c =>
      simp only [bind, Except.bind, Except.mapError_ok, writeTarget_replace hshut]
      cases w.writeTarget h fun t => some (t.fill c) with
      | error e => rfl
      | ok written => cases written <;> rfl

/-- **Calling a method on a value**, whatever the other arguments are. -/
theorem callMethod_replace (m : Method) :
    (w.replace x).callMethod m args =
      ((w.callMethod m args).1, (w.callMethod m args).2.replace x) := by
  have hread (m : Method) : (w.replace x).realizeResult ((w.replace x).readMethod m args) =
      ((w.realizeResult (w.readMethod m args)).1,
        (w.realizeResult (w.readMethod m args)).2.replace x) := by
    rw [readMethod_replace hargs]
    cases w.readMethod m args with
    | error f => rfl
    | ok datum => cases datum <;> rfl
  cases m with
  | fill =>
    simp only [callMethod, fill_replace hargs]
    cases w.fill args <;> rfl
  | blend | value | «at» | findKeyCode | group | contains => exact hread _

end Methods

/-! ### Functions of the host -/

/-- The texts of values are not read beyond a stale handle. -/
theorem joinTexts_replace {vs : List Value} (hvs : w.Withheld x.thing vs) :
    Capability.joinTexts (w.replace x) vs = Capability.joinTexts w vs := by
  obtain hall | ⟨v, o, loan, hv, hrefuses⟩ := hvs
  · induction vs with
    | nil => rfl
    | cons v vs ih =>
      obtain ⟨hv, hvs⟩ := List.forall_mem_cons.mp hall
      simp only [Capability.joinTexts, text_replace hv, ih hvs]
  · obtain ⟨vs, rfl⟩ := List.head?_eq_some_iff.mp hv
    simp only [Capability.joinTexts, text_replace hrefuses.shut, hrefuses.text]
    rfl

theorem attached?_replace (w : World) (x : Replacement) :
    (w.replace x).attached? = w.attached? := by
  have hsame : (w.replace x).host.controller? = w.host.controller? :=
    funext (w.host.controller?_replace x)
  unfold Realm.attached?
  rw [hsame]
  rfl

theorem controller?_replace (w : World) (x : Replacement) :
    (w.replace x).controller? = w.controller? :=
  congrArg (Except.map Prod.snd) (w.attached?_replace x)

/-- What a function of the host makes of its arguments. -/
theorem effect_replace (c : Capability) {args : List Value} (hargs : w.Withheld x.thing args) :
    c.effect (w.replace x) (.ofArguments args) = c.effect w (.ofArguments args) := by
  cases c with
  | print =>
    have htexts : Capability.joinTexts (w.replace x) (Stack.ofArguments args).values =
        Capability.joinTexts w (Stack.ofArguments args).values := joinTexts_replace hargs
    simp only [Capability.effect, attached?_replace, htexts]
  | tocolor =>
    simp only [Capability.effect, Capability.describedColor, controller?_replace]
  | fade =>
    have hend (v : Option Value) (position : Nat) :
        Capability.endpointColor (w.replace x) v position =
          Capability.endpointColor w v position := by
      unfold Capability.endpointColor
      rw [controller?_replace]
      rfl
    simp only [Capability.effect, Capability.describedFade, Capability.endpoints, hend]
    rfl
  | thread | wait | now => rfl

/-- **Calling a function of the host.** -/
theorem entryPoint_replace (c : Capability) {args : List Value}
    (hargs : w.Withheld x.thing args) :
    entryPoint c.body (w.replace x) args =
      ((entryPoint c.body w args).1, (entryPoint c.body w args).2.replace x) := by
  rw [entryPoint_body, entryPoint_body, effect_replace c hargs]
  cases c.effect w (.ofArguments args) with
  | error f => rfl
  | ok effect => cases effect <;> rfl

end World

end KeyLight
