import KeyLight.Environment.Basic
import KeyLight.Proofs.Machine.Refusal
import KeyLight.Proofs.World.Painting

/-!
# Painting render targets

A script paints a slot of a render target by giving the target a value at a key, and all of its
slots by the method `fill`. Either the target is painted, or the script is told what is wrong with
the value or, after that, with the key, and the target stays as it was
(`Machine.painting_is_exact_and_atomic`).

A fade paints what its method `value` gives at the same time. The two ways of reading it are written
apart, and differ only by the colour object that the method makes (`Machine.access_put_made`,
`Machine.access_fill_made`).
-/

namespace KeyLight.Machine

variable {place : Place} {w : World} {scope : Scope} {frames : List Frame}
variable {t v key : Value} {h : TargetHandle} {target : RenderTarget} {c : Rgba}

/-! ### One slot and all slots -/

/-- **Painting a slot is exact and atomic.** -/
theorem access_put_cases (ho : w.heap.object? t = some (.target h))
    (hheld : w.hostTarget h = .ok ⟨target, .free⟩) (place : Place) (scope : Scope)
    (frames : List Frame) (key v : Value) :
    (∃ c slot target', w.Paints v c ∧ w.Slot target.size key slot ∧
      target.set? slot c = some target' ∧
      access place w scope frames (.put t key v) =
        .running (w.repaint h.target target') .proceed frames) ∨
    ∃ e, (w.LacksColor v 3 e ∨ (∃ c, w.Paints v c) ∧ w.LacksSlot target.size key e) ∧
      access place w scope frames (.put t key v) = .running w (.raise (.call e)) frames := by
  rw [access_put, World.put_target ho]
  -- the value is looked at before the key is, and the target is written last
  obtain ⟨c, hv⟩ | ⟨e, hv⟩ := w.paints_cases v 3
  · obtain ⟨slot, hslot⟩ | ⟨e, hkey⟩ := w.slot_cases target.size key
    · obtain ⟨target', hset, hput⟩ := World.putSlot_of_paints hheld hv hslot
      exact .inl ⟨c, slot, target', hv, hslot, hset, by rw [hput]; rfl⟩
    · refine .inr ⟨e, .inr ⟨⟨c, hv⟩, hkey⟩, ?_⟩
      rw [World.putSlot_of_lacksSlot hheld hv hkey]
      rfl
  · refine .inr ⟨e, .inl hv, ?_⟩
    rw [World.putSlot_of_lacksColor hv]
    rfl

/-- **Filling is exact and atomic.** -/
theorem access_fill_cases (ho : w.heap.object? t = some (.target h))
    (hheld : w.hostTarget h = .ok ⟨target, .free⟩) (place : Place) (scope : Scope)
    (frames : List Frame) (v : Value) (more : List Value) :
    (∃ c, w.Paints v c ∧ access place w scope frames (.call .fill t v more) =
      .running (w.repaint h.target (target.fill c)) (.give .nil) frames) ∨
    ∃ e, w.LacksColor v 2 e ∧ access place w scope frames (.call .fill t v more) =
      .running w (.raise (.call e)) frames := by
  rw [access_fill]
  obtain ⟨c, hv⟩ | ⟨e, hv⟩ := w.paints_cases v 2
  · refine .inl ⟨c, hv, ?_⟩
    rw [World.fill_target ho (hv.slotColor 2), World.writeTarget_of_free hheld]
    rfl
  · refine .inr ⟨e, hv, ?_⟩
    rw [World.fill_of_lacksColor ho hv]

/-- The slot that was painted gives its colour. -/
theorem access_index_repaint (ho : w.heap.object? t = some (.target h))
    (hheld : w.hostTarget h = .ok ⟨target, .free⟩) {slot : Nat} {target' : RenderTarget}
    (hslot : w.Slot target.size key slot) (hset : target.set? slot c = some target') :
    let w' := w.repaint h.target target'
    access place w' scope frames (.index t key) =
      .running (w'.newObject (.color c)).2 (.give (w'.newObject (.color c)).1) frames := by
  intro w'
  -- the key denotes the same slot as before: painting changes neither objects nor sizes
  have hheld' : w'.hostTarget h = .ok ⟨target', .free⟩ := World.hostTarget_repaint hheld target'
  have hslot' : w'.Slot target'.size key slot := by
    rw [RenderTarget.size_of_set? hset]
    exact hslot.repaint h.target target'
  have hcolor : target'.get? slot = some c := by
    rw [RenderTarget.get?_of_set? hset, if_pos rfl]
  rw [access_index, World.index_of_slot (w := w') ho hheld' hslot', hcolor]
  rfl

/-! ### Fades -/

/-- The method `value` of a fade makes the colour that the fade paints. -/
theorem operate_value {f : Interpolator} (ho : w.heap.object? v = some (.fade f))
    (hc : f.valueAt w.context.clock = .color c) :
    operate place w .apply [v, .builtin (.method .value)] scope frames =
      .running (w.newObject (.color c)).2 (.give (w.newObject (.color c)).1) frames := by
  have hreceiver : w.receiver .value [v] = .ok f := World.receiver_cons _ _ ho
  have hread : w.readMethod .value [v] = .ok (.object (.color c)) := by
    simp only [World.readMethod, hreceiver, bind, Except.bind, hc]
    rfl
  change reply (w.callMethod .value [v]).2 frames (w.callMethod .value [v]).1 = _
  simp only [World.callMethod, hread]
  rfl

/-- **Painting a slot with a new colour** does the same as painting it with the value that paints
this colour. -/
theorem access_put_made (ho : w.heap.object? t = some (.target h)) (hv : w.Paints v c)
    (key : Value) :
    access place (w.newObject (.color c)).2 scope frames (.put t key (w.newObject (.color c)).1) =
      (access place w scope frames (.put t key v)).mapWorld
        (·.updateHeap (·.addObject (.color c))) := by
  have ho' := World.object?_newObject_of_some ho (.color c)
  rw [access_put, access_put, World.put_target ho', World.put_target ho,
    World.putSlot_newObject_color hv]
  cases w.putSlot h key v <;> rfl

/-- **So does filling.** -/
theorem access_fill_made (ho : w.heap.object? t = some (.target h)) (hv : w.Paints v c)
    (more : List Value) :
    access place (w.newObject (.color c)).2 scope frames
        (.call .fill t (w.newObject (.color c)).1 more) =
      (access place w scope frames (.call .fill t v more)).mapWorld
        (·.updateHeap (·.addObject (.color c))) := by
  rw [access_fill, access_fill, World.fill_newObject_color ho hv]
  cases w.fill (t :: v :: more) <;> rfl

/-! ### Painting -/

/-- **Painting a render target is exact and atomic.** Take a handle on a render target that gives
access while the host is not using the target, and any key and any value.

Giving the target the value at the key either sets the slot that the key denotes to the colour that
the value paints, and nothing else: the size and the other slots stay, as well as the other targets,
and the key gives the colour after that. Or the script is told what is wrong with the value or with
the key, and the world stays as it was. A key denotes the slot that it counts from one, if it is a
number, and the slot of the key of the board that it is otherwise. (Numbers that are not less than
`2 ^ 53` are rounded; no target has as many slots.)

Likewise the method `fill` either sets all slots or tells what is wrong with the value.

A fade between colours has a colour at present, which its method `value` makes. Painting with this
new colour leads to the same as painting with the fade. -/
theorem painting_is_exact_and_atomic (ho : w.heap.object? t = some (.target h))
    (hheld : w.hostTarget h = .ok ⟨target, .free⟩) (place : Place) (scope : Scope)
    (frames : List Frame) (key v : Value) (more : List Value) :
    ((∃ c slot target', w.Paints v c ∧ w.Slot target.size key slot ∧
        access place w scope frames (.put t key v) =
          .running (w.repaint h.target target') .proceed frames ∧
        target'.size = target.size ∧
        (∀ i, target'.get? i = if i = slot then some c else target.get? i) ∧
        let w' := w.repaint h.target target'
        w'.hostTarget h = .ok ⟨target', .free⟩ ∧
        (∀ id ≠ h.target, w'.host.target? id = w.host.target? id) ∧
        access place w' scope frames (.index t key) =
          .running (w'.newObject (.color c)).2 (.give (w'.newObject (.color c)).1) frames) ∨
      ∃ e, (w.LacksColor v 3 e ∨ (∃ c, w.Paints v c) ∧ w.LacksSlot target.size key e) ∧
        access place w scope frames (.put t key v) = .running w (.raise (.call e)) frames) ∧
    (∀ slot, slot + 1 < Binary64.exactBound →
      (w.Slot target.size key slot ↔ slot < target.size ∧ (key.IsInteger (slot + 1 : Nat) ∨
        ∃ k, w.heap.object? key = some (.key k) ∧ k.index = slot))) ∧
    ((∃ c target', w.Paints v c ∧
        access place w scope frames (.call .fill t v more) =
          .running (w.repaint h.target target') (.give .nil) frames ∧
        target'.size = target.size ∧ (∀ i < target.size, target'.get? i = some c) ∧
        let w' := w.repaint h.target target'
        w'.hostTarget h = .ok ⟨target', .free⟩ ∧
        ∀ id ≠ h.target, w'.host.target? id = w.host.target? id) ∨
      ∃ e, w.LacksColor v 2 e ∧
        access place w scope frames (.call .fill t v more) =
          .running w (.raise (.call e)) frames) ∧
    ∀ f a b, w.heap.object? v = some (.fade f) → f.endpoints = .color a b →
      ∃ c, f.valueAt w.context.clock = .color c ∧
        let w' := (w.newObject (.color c)).2
        let v' := (w.newObject (.color c)).1
        operate place w .apply [v, .builtin (.method .value)] scope frames =
          .running w' (.give v') frames ∧
        access place w' scope frames (.put t key v') =
          (access place w scope frames (.put t key v)).mapWorld
            (·.updateHeap (·.addObject (.color c))) ∧
        access place w' scope frames (.call .fill t v' more) =
          (access place w scope frames (.call .fill t v more)).mapWorld
            (·.updateHeap (·.addObject (.color c))) := by
  refine ⟨?_, fun slot hexact => World.slot_iff hexact, ?_, fun f a b hv hf => ?_⟩
  · obtain ⟨c, slot, target', hv, hslot, hset, hput⟩ | hrefused :=
      access_put_cases ho hheld place scope frames key v
    · exact .inl ⟨c, slot, target', hv, hslot, hput, RenderTarget.size_of_set? hset,
        RenderTarget.get?_of_set? hset, World.hostTarget_repaint hheld target',
        fun id hne => World.target?_repaint_of_ne hne target',
        access_index_repaint ho hheld hslot hset⟩
    · exact .inr hrefused
  · obtain ⟨c, hv, hfill⟩ | hrefused :=
      access_fill_cases ho hheld place scope frames v more
    · exact .inl ⟨c, target.fill c, hv, hfill, RenderTarget.size_fill target c,
        fun i hi => (RenderTarget.get?_fill target c i).trans (if_pos hi),
        World.hostTarget_repaint hheld _, fun id hne => World.target?_repaint_of_ne hne _⟩
    · exact .inr hrefused
  · obtain ⟨c, hc⟩ := f.exists_valueAt_eq_color hf w.context.clock
    have hpaints : w.Paints v c := .fade hv hc
    exact ⟨c, hc, operate_value hv hc, access_put_made ho hpaints key,
      access_fill_made ho hpaints more⟩

/-- A world in which a script has a handle on a render target of two slots, and a colour. -/
def easel : World :=
  let e := (Environment.start .empty {}).withHost (Host.empty.addTarget (.blank 2)).2
  ((e.giveObject "t" (.target ⟨0, 0⟩)).giveObject "c" (.color ⟨255, 0, 0, 128⟩)).world

/-- The colour goes to the second slot alone. There is no third slot, and a number is no colour. -/
theorem painting_is_exact_and_atomic_easel :
    (∃ target', access .main easel [] [] (.put (.object 0) (.int 2) (.object 1)) =
        .running (easel.repaint 0 target') .proceed [] ∧
      target'.get? 0 = some .clear ∧ target'.get? 1 = some ⟨255, 0, 0, 128⟩) ∧
    access .main easel [] [] (.put (.object 0) (.int 3) (.object 1)) =
      .running easel (.raise (.call (.argument "__newindex" 2 "key index out of range"))) [] ∧
    access .main easel [] [] (.call .fill (.object 0) (.int 7) []) =
      .running easel
        (.raise (.call (.typeMismatch 2 "RGBAColor or Interpolator" "integer"))) [] := by
  have hheld : easel.hostTarget ⟨0, 0⟩ = .ok ⟨.blank 2, .free⟩ := rfl
  have hcolor : easel.heap.object? (.object 1) = some (.color ⟨255, 0, 0, 128⟩) := rfl
  have painting (key v : Value) := painting_is_exact_and_atomic (t := .object 0) rfl hheld
    .main [] [] key v []
  have slot_of_int (m : Int64) {slot : Nat} (hslot : easel.Slot 2 (.int m) slot) :
      slot < 2 ∧ m.toInt = (slot + 1 : Nat) := by
    have hlt : slot < 2 := hslot.lt
    have hexact : slot + 1 < Binary64.exactBound := Nat.lt_trans (Nat.succ_lt_succ hlt) (by decide)
    obtain ⟨-, hinteger | ⟨k, hk, -⟩⟩ := ((painting (.int m) .nil).2.1 slot hexact).mp hslot
    · exact ⟨hlt, Value.isInteger_int_iff.mp hinteger⟩
    · cases hk
  have colored : ∀ e, ¬easel.LacksColor (.object 1) 3 e := fun e h => by
    cases h with
    | numbers ho => cases ho
    | other hno => exact hno _ hcolor
  refine ⟨?_, ?_, ?_⟩
  · obtain ⟨c, slot, target', hpaints, hslot, hput, -, hget, -⟩ | ⟨e, hlacks | ⟨-, hlacks⟩, -⟩ :=
      (painting (.int 2) (.object 1)).1
    · obtain ⟨-, hinteger⟩ := slot_of_int 2 hslot
      obtain rfl : slot = 1 := by
        rw [show (2 : Int64).toInt = 2 by decide] at hinteger
        omega
      obtain rfl : c = ⟨255, 0, 0, 128⟩ := by
        cases hpaints with
        | color ho => cases ho; rfl
        | fade ho => cases ho
      exact ⟨target', hput, (hget 0).trans rfl, (hget 1).trans rfl⟩
    · exact absurd hlacks (colored e)
    · cases hlacks with
      | outside _ hno =>
        exact absurd (((painting (.int 2) .nil).2.1 1 (by decide)).mpr ⟨by decide, .inl (.int 2)⟩)
          (hno 1)
      | other hno => exact absurd (.inl rfl) hno
  · obtain ⟨c, slot, target', -, hslot, -⟩ | ⟨e, hlacks | ⟨-, hlacks⟩, hput⟩ :=
      (painting (.int 3) (.object 1)).1
    · obtain ⟨hlt, hinteger⟩ := slot_of_int 3 hslot
      rw [show (3 : Int64).toInt = 3 by decide] at hinteger
      omega
    · exact absurd hlacks (colored e)
    · cases hlacks with
      | outside => exact hput
      | other hno => exact absurd (.inl rfl) hno
  · obtain ⟨c, target', hpaints, -⟩ | ⟨e, hlacks, hfill⟩ := (painting .nil (.int 7)).2.2.1
    · cases hpaints with
      | color ho | fade ho => cases ho
    · cases hlacks with
      | numbers ho => cases ho
      | other => exact hfill

end KeyLight.Machine
