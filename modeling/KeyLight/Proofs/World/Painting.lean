import KeyLight.Proofs.Number.Integer
import KeyLight.Proofs.World.Asking
import KeyLight.Proofs.World.Plain

/-!
# What paints a render target

A value paints a colour if it is one, or if it is a fade between colours (`World.Paints`). A key
denotes a slot of a render target if it is a key of the board or a number, and the target has the
slot (`World.Slot`). Otherwise there is something wrong with the value (`World.LacksColor`) or with
the key (`World.LacksSlot`), and writing the slot tells what it is, for the value first. Nothing is
written before both are found, and then all of it is: the world is repainted (`World.repaint`).
-/

namespace KeyLight

/-! ### Colours of a target -/

namespace RenderTarget

/-- A target that is filled has one colour everywhere. -/
theorem get?_fill (t : RenderTarget) (c : Rgba) (i : Nat) :
    (t.fill c).get? i = if i < t.size then some c else none := by
  simp only [get?, fill, List.getElem?_map]
  split
  · rename_i hi
    rw [List.getElem?_eq_getElem (show i < t.colors.length from hi), Option.map_some]
  · rename_i hi
    rw [List.getElem?_eq_none (Nat.le_of_not_lt hi), Option.map_none]

end RenderTarget

/-- A fade between colours yields a colour at any time. -/
theorem Interpolator.exists_valueAt_eq_color {f : Interpolator} {a b : Rgba}
    (hf : f.endpoints = .color a b) (now : Float) : ∃ c, f.valueAt now = .color c := by
  unfold valueAt valueAfter
  rw [hf]
  exact ⟨_, rfl⟩

/-- A fade between numbers yields a number at any time. -/
theorem Interpolator.exists_valueAt_eq_number {f : Interpolator} {a b : Float}
    (hf : f.endpoints = .number a b) (now : Float) : ∃ x, f.valueAt now = .number x := by
  unfold valueAt valueAfter
  rw [hf]
  exact ⟨_, rfl⟩

namespace World

variable {w : World} {h : TargetHandle} {t v key : Value} {position size : Nat} {c : Rgba}

/-! ### What paints -/

/-- The colour that a value paints: its own if it is a colour, and the present one if it is a fade
between colours. -/
inductive Paints (w : World) (v : Value) : Rgba → Prop
  | color {c : Rgba} (ho : w.heap.object? v = some (.color c)) : Paints w v c
  | fade {f : Interpolator} {c : Rgba} (ho : w.heap.object? v = some (.fade f))
      (hc : f.valueAt w.context.clock = .color c) : Paints w v c

/-- What is wrong with a value that paints nothing. -/
inductive LacksColor (w : World) (v : Value) (position : Nat) : CallError → Prop
  | numbers {f : Interpolator} {a b : Float} (ho : w.heap.object? v = some (.fade f))
      (hf : f.endpoints = .number a b) :
      LacksColor w v position
        (.argument "__newindex" position "interpolator does not produce colors")
  | other (hcolor : ∀ c, w.heap.object? v ≠ some (.color c))
      (hfade : ∀ f, w.heap.object? v ≠ some (.fade f)) :
      LacksColor w v position
        (.typeMismatch position "RGBAColor or Interpolator" (Value.describe (some v)))

/-- A value paints a colour, or there is something wrong with it. -/
theorem paints_cases (w : World) (v : Value) (position : Nat) :
    (∃ c, w.Paints v c) ∨ ∃ e, w.LacksColor v position e := by
  by_cases hcolor : ∃ c, w.heap.object? v = some (.color c)
  · obtain ⟨c, ho⟩ := hcolor
    exact .inl ⟨c, .color ho⟩
  · by_cases hfade : ∃ f, w.heap.object? v = some (.fade f)
    · obtain ⟨f, ho⟩ := hfade
      cases hf : f.endpoints with
      | color a b =>
        obtain ⟨c, hc⟩ := f.exists_valueAt_eq_color hf w.context.clock
        exact .inl ⟨c, .fade ho hc⟩
      | number a b => exact .inr ⟨_, .numbers ho hf⟩
    · exact .inr ⟨_, .other (not_exists.mp hcolor) (not_exists.mp hfade)⟩

theorem Paints.slotColor (hv : w.Paints v c) (position : Nat) :
    w.slotColor v position = .ok c := by
  cases hv with
  | color ho => simp only [World.slotColor, ho]
  | fade ho hc => simp only [World.slotColor, ho, hc]

theorem LacksColor.slotColor {e : CallError} (hv : w.LacksColor v position e) :
    w.slotColor v position = .error e := by
  cases hv with
  | @numbers f a b ho hf =>
    obtain ⟨x, hx⟩ := f.exists_valueAt_eq_number hf w.context.clock
    simp only [World.slotColor, ho, hx]
  | other hcolor hfade =>
    unfold World.slotColor
    split
    · rename_i c ho
      exact absurd ho (hcolor c)
    · rename_i f ho
      exact absurd ho (hfade f)
    · rfl

/-- The slot of a target of some size that a key denotes. -/
inductive Slot (w : World) (size : Nat) (key : Value) : Nat → Prop
  | number {slot : Nat} (hnumber : key.number?.isSome) (hi : key.index? = some slot)
      (hlt : slot < size) : Slot w size key slot
  | key {k : KeyHandle} (hk : w.heap.object? key = some (.key k)) (hlt : k.index < size) :
      Slot w size key k.index

/-- What is wrong with a key that denotes no slot. -/
inductive LacksSlot (w : World) (size : Nat) (key : Value) : CallError → Prop
  | outside (hkey : w.SlotKey key) (hno : ∀ slot, ¬w.Slot size key slot) :
      LacksSlot w size key (.argument "__newindex" 2 "key index out of range")
  | other (hkey : ¬w.SlotKey key) :
      LacksSlot w size key (.typeMismatch 2 "integer or Key" (Value.describe (some key)))

theorem Slot.lt {slot : Nat} (hslot : w.Slot size key slot) : slot < size := by
  cases hslot <;> assumption

/-- **A number denotes the slot that it counts from one.** -/
theorem slot_iff {slot : Nat} (hexact : slot + 1 < Binary64.exactBound) :
    w.Slot size key slot ↔ slot < size ∧ (key.IsInteger (slot + 1 : Nat) ∨
      ∃ k, w.heap.object? key = some (.key k) ∧ k.index = slot) := by
  constructor
  · intro hslot
    cases hslot with
    | number _ hi hlt => exact ⟨hlt, .inl ((Value.index?_eq_some_iff hexact).mp hi)⟩
    | key hk hlt => exact ⟨hlt, .inr ⟨_, hk, rfl⟩⟩
  · rintro ⟨hlt, hinteger | ⟨k, hk, rfl⟩⟩
    · exact .number hinteger.isSome_number? ((Value.index?_eq_some_iff hexact).mpr hinteger) hlt
    · exact .key hk hlt

/-- A key denotes a slot, or it is told what is wrong with it. -/
theorem slot_cases (w : World) (size : Nat) (key : Value) :
    (∃ slot, w.Slot size key slot) ∨ ∃ e, w.LacksSlot size key e := by
  by_cases hslot : ∃ slot, w.Slot size key slot
  · exact .inl hslot
  · by_cases hkey : w.SlotKey key
    · exact .inr ⟨_, .outside hkey (not_exists.mp hslot)⟩
    · exact .inr ⟨_, .other hkey⟩

theorem Slot.targetSlot {slot : Nat} (hslot : w.Slot size key slot) (position : Nat) :
    w.targetSlot key position = .ok (some slot) := by
  cases hslot with
  | number hnumber hi => rw [targetSlot_number hnumber, hi]
  | key hk => exact targetSlot_key hk position

theorem Slot.slotKey {slot : Nat} (hslot : w.Slot size key slot) : w.SlotKey key := by
  cases hslot with
  | number hnumber => exact .inl hnumber
  | key hk => exact .inr ⟨_, hk⟩

theorem slot_of_targetSlot {slot : Nat} (hslot : w.targetSlot key position = .ok (some slot))
    (hlt : slot < size) : w.Slot size key slot := by
  unfold World.targetSlot at hslot
  split at hslot
  · rename_i k hk
    cases hslot
    exact .key hk hlt
  · split at hslot
    · exact .number rfl (Except.ok.inj hslot) hlt
    · exact .number rfl (Except.ok.inj hslot) hlt
    · cases hslot

/-- A key of the wrong type is told which types a target takes. -/
theorem targetSlot_of_not_slotKey (hkey : ¬w.SlotKey key) (position : Nat) :
    w.targetSlot key position =
      .error (.typeMismatch position "integer or Key" (Value.describe (some key))) := by
  unfold World.targetSlot
  split
  · rename_i k hk
    exact absurd (.inr ⟨k, hk⟩) hkey
  · cases key with
    | int | float => exact absurd (.inl rfl) hkey
    | nil | bool | text | table | closure | builtin | object => rfl

/-! ### Painted worlds -/

/-- The world with other colours on a render target. -/
def repaint (w : World) (id : Nat) (target : RenderTarget) : World :=
  w.withRealm { w.toRealm with host := w.host.setTarget id target }

variable {target target' : RenderTarget}

/-- The target is repainted, and the host uses it as before. -/
theorem hostTarget_repaint {held : HostTarget} (hheld : w.hostTarget h = .ok held)
    (target : RenderTarget) :
    (w.repaint h.target target).hostTarget h = .ok { held with target } := by
  have hlive : w.host.target? h.target = some held ∧ w.isLive h.lease := by
    unfold Realm.hostTarget at hheld
    split at hheld
    · split at hheld
      · cases hheld
        exact ⟨‹_›, ‹_›⟩
      · cases hheld
    · cases hheld
  have hfound : (w.repaint h.target target).host.target? h.target = some { held with target } := by
    refine (Host.target?_setTarget w.host h.target h.target target).trans ?_
    rw [if_pos rfl, hlive.1, Option.map_some]
  exact Realm.hostTarget_of_live (beq_iff_eq.mp hlive.2) hfound

/-- Other targets keep their colours. -/
theorem target?_repaint_of_ne {id other : Nat} (hne : other ≠ id) (target : RenderTarget) :
    (w.repaint id target).host.target? other = w.host.target? other := by
  refine (Host.target?_setTarget w.host id other target).trans ?_
  rw [if_neg hne]

theorem writeTarget_of_free (hheld : w.hostTarget h = .ok ⟨target, .free⟩)
    (change : RenderTarget → Option RenderTarget) :
    w.writeTarget h change = .ok ((change target).map fun t =>
      { w.toRealm with host := w.host.setTarget h.target t }) := by
  simp only [Realm.writeTarget, hheld, bind, Except.bind, if_true]

/-- What is wrong with the value is told first. -/
theorem putSlot_of_lacksColor {e : CallError} (hv : w.LacksColor v 3 e) :
    w.putSlot h key v = .error e := by
  rw [putSlot, hv.slotColor]
  rfl

/-- What is wrong with the key is told after that. -/
theorem putSlot_of_lacksSlot (hheld : w.hostTarget h = .ok ⟨target, .free⟩) (hv : w.Paints v c)
    {e : CallError} (hkey : w.LacksSlot target.size key e) : w.putSlot h key v = .error e := by
  cases hkey with
  | other hkey =>
    rw [putSlot, hv.slotColor, targetSlot_of_not_slotKey hkey]
    rfl
  | outside hkey hno =>
    -- the key denotes a slot that the target does not have, or none at all
    obtain ⟨slot, hslot⟩ | ⟨hnumber, hi⟩ := targetSlot_of_slotKey hkey 2
    · have hout : target.set? slot c = none := by
        refine RenderTarget.set?_eq_none.mpr (Nat.le_of_not_lt fun hlt => hno slot ?_)
        exact slot_of_targetSlot hslot hlt
      rw [putSlot_of_slot hslot (hv.slotColor 3), writeTarget_of_free hheld, hout]
      rfl
    · rw [putSlot, hv.slotColor, targetSlot_number hnumber, hi]
      rfl

/-- A colour and a slot are found, and the target is repainted. -/
theorem putSlot_of_paints (hheld : w.hostTarget h = .ok ⟨target, .free⟩) (hv : w.Paints v c)
    {slot : Nat} (hslot : w.Slot target.size key slot) : ∃ target',
      target.set? slot c = some target' ∧ w.putSlot h key v = .ok (w.repaint h.target target') := by
  cases hset : target.set? slot c with
  | none => exact absurd (RenderTarget.set?_eq_none.mp hset) (Nat.not_le_of_lt hslot.lt)
  | some target' =>
    refine ⟨target', rfl, ?_⟩
    rw [putSlot_of_slot (hslot.targetSlot 2) (hv.slotColor 3), writeTarget_of_free hheld, hset]
    rfl

/-- Filling tells what is wrong with the value, too. -/
theorem fill_of_lacksColor (ho : w.heap.object? t = some (.target h)) {e : CallError}
    (hv : w.LacksColor v 2 e) (more : List Value) :
    w.fill (t :: v :: more) = .error (.call e) := by
  have hreceiver : w.receiver .fill (t :: v :: more) = .ok h := receiver_cons _ _ ho
  have hcolor : w.slotColor (argument (t :: v :: more) 2) 2 = .error e := hv.slotColor
  simp only [fill, hreceiver, hcolor, bind, Except.bind]
  rfl

theorem Slot.repaint {slot : Nat} (hslot : w.Slot size key slot) (id : Nat)
    (target : RenderTarget) : (w.repaint id target).Slot size key slot := by
  cases hslot with
  | number hnumber hi hlt => exact .number hnumber hi hlt
  | key hk hlt => exact .key hk hlt

/-- A slot that is read gives its colour. -/
theorem index_of_slot (ho : w.heap.object? t = some (.target h))
    (hheld : w.hostTarget h = .ok ⟨target, .free⟩) {slot : Nat}
    (hslot : w.Slot target.size key slot) :
    w.index t key = .ok (.ofOption ((target.get? slot).map .color)) := by
  have hread : w.readTarget h = .ok target := Realm.readTarget_of_hold hheld nofun
  rw [index_target ho hslot.slotKey, targetItem, hslot.targetSlot, hread]
  rfl

/-! ### Worlds with one more colour -/

/-- A new colour is no key, so it denotes no slot. -/
theorem targetSlot_newObject_color (w : World) (c : Rgba) (key : Value) (position : Nat) :
    (w.newObject (.color c)).2.targetSlot key position = w.targetSlot key position := by
  cases key with
  | object id =>
    have hobject : (w.newObject (.color c)).2.heap.object? (.object id) =
        if id = w.heap.objects.size then some (.color c) else w.heap.object? (.object id) :=
      Array.getElem?_push
    by_cases hid : id = w.heap.objects.size
    -- what is not there yet is of the wrong type, as the colour is
    · have hnew : w.heap.object? (.object id) = none :=
        Array.getElem?_eq_none (Nat.le_of_eq hid.symm)
      rw [if_pos hid] at hobject
      simp only [World.targetSlot, hobject, hnew]
    · rw [if_neg hid] at hobject
      simp only [World.targetSlot, hobject]
  | nil | bool | int | float | text | table | closure | builtin => rfl

/-- Writing a target has nothing to do with the objects of scripts. -/
theorem writeTarget_newObject (w : World) (o : Object) (h : TargetHandle)
    (change : RenderTarget → Option RenderTarget) :
    (w.newObject o).2.writeTarget h change = (w.writeTarget h change).map
      (Option.map fun r => { r with heap := r.heap.addObject o }) := by
  have hhost : (w.newObject o).2.hostTarget h = w.hostTarget h := rfl
  simp only [Realm.writeTarget, hhost]
  cases w.hostTarget h with
  | error e => rfl
  | ok held =>
    simp only [bind, Except.bind]
    split
    · cases change held.target <;> rfl
    · rfl

theorem paints_newObject_color (w : World) (c : Rgba) :
    (w.newObject (.color c)).2.Paints (w.newObject (.color c)).1 c :=
  .color (Heap.object?_addObject w.heap (.color c))

/-- **Writing a slot does the same with a new colour** as with the value that paints this colour. -/
theorem putSlot_newObject_color (hv : w.Paints v c) (h : TargetHandle) (key : Value) :
    (w.newObject (.color c)).2.putSlot h key (w.newObject (.color c)).1 =
      (w.putSlot h key v).map (·.updateHeap (·.addObject (.color c))) := by
  rw [putSlot, putSlot, (w.paints_newObject_color c).slotColor, hv.slotColor,
    targetSlot_newObject_color]
  simp only [bind, Except.bind]
  cases w.targetSlot key 2 with
  | error e => rfl
  | ok slot? =>
    cases slot? with
    | none => rfl
    | some slot =>
      simp only [writeTarget_newObject]
      cases w.writeTarget h (·.set? slot c) with
      | error e => rfl
      | ok written => cases written <;> rfl

/-- **So does filling.** -/
theorem fill_newObject_color (ho : w.heap.object? t = some (.target h)) (hv : w.Paints v c)
    (more : List Value) :
    (w.newObject (.color c)).2.fill (t :: (w.newObject (.color c)).1 :: more) =
      (w.fill (t :: v :: more)).map (·.updateHeap (·.addObject (.color c))) := by
  have ho' := object?_newObject_of_some ho (.color c)
  rw [fill_target ho' ((w.paints_newObject_color c).slotColor 2), fill_target ho (hv.slotColor 2),
    writeTarget_newObject]
  cases w.writeTarget h fun t => some (t.fill c) with
  | error e => rfl
  | ok written => cases written <;> rfl

end World

end KeyLight
