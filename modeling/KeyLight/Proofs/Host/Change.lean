import KeyLight.Proofs.Host.Rows

/-!
# What the host does with its things

The host adds, drops and uses the things in its rows (`Host.Change`). A number that was given to a
thing stays with it: what is dropped never comes back under its number, and a board stays the board
that it is as long as the host has it (`Host.Change.evolves`).

All boards of a host that began with none are normal (`Host.Change.normal`), so every entry of a
group denotes a key.
-/

namespace KeyLight

/-! ### Normal boards -/

namespace Keyboard

/-- The keys are numbered by their positions, and the groups have positions of keys only. -/
structure Normal (k : Keyboard) : Prop where
  numbered : ∀ i key, k.key? i = some key → key.index = i
  pruned : ∀ g ∈ k.groups, ∀ i ∈ g.keys, i < k.size

theorem normal_normal (keys : List Key) (groups : List KeyGroup) : (normal keys groups).Normal where
  numbered := fun _ _ h => index_of_key?_normal h
  pruned := fun _ hg _ hi => lt_size_of_mem_normal hg hi

variable {k : Keyboard}

/-- The numbers by which a board names its keys: their own ones, and those in its groups. -/
def Names (k : Keyboard) (i : Nat) : Prop :=
  (∃ key ∈ k.keys, key.index = i) ∨ ∃ g ∈ k.groups, i ∈ g.keys

/-- A normal board has the keys that it names. -/
theorem Normal.exists_key? (hk : k.Normal) {i : Nat} (h : k.Names i) :
    ∃ key, k.key? i = some key := by
  obtain ⟨key, hkey, rfl⟩ | ⟨g, hg, hi⟩ := h
  · obtain ⟨i, hi⟩ := List.getElem?_of_mem hkey
    exact ⟨key, by rwa [hk.numbered i key hi]⟩
  · exact ⟨_, List.getElem?_eq_getElem (hk.pruned g hg i hi)⟩

end Keyboard

/-- A thing of the host that handles give access to. -/
inductive Thing
  | board (id : Nat)
  | target (id : Nat)
  deriving DecidableEq

namespace Host

variable {h h' h'' : Host}

/-- Whether the host has a thing. -/
def Has (h : Host) : Thing → Prop
  | .board id => (h.board? id).isSome = true
  | .target id => (h.target? id).isSome = true

/-- Whether a thing has been given its number. -/
def Named (h : Host) : Thing → Prop
  | .board id => id < h.boards.size
  | .target id => id < h.targets.size

/-- All boards are normal. -/
def Normal (h : Host) : Prop := ∀ id k, h.board? id = some k → k.Normal

theorem Has.named {x : Thing} (hx : h.Has x) : h.Named x := by
  cases x with
  | board id =>
    obtain ⟨k, hk⟩ := Option.isSome_iff_exists.mp hx
    exact lt_size_of_join hk
  | target id =>
    obtain ⟨t, ht⟩ := Option.isSome_iff_exists.mp hx
    exact lt_size_of_join ht

theorem normal_empty : empty.Normal := fun id k hk => by
  simp [empty, board?] at hk

/-- One thing that the host does. It reads the boards that it adds, so they are normal. -/
inductive Change (h : Host) : Host → Prop
  | addController (c : Controller) : Change h (h.addController c).2
  | dropController (id : Nat) : Change h (h.dropController id)
  | addBoard (keys : List Key) (groups : List KeyGroup) :
      Change h (h.addBoard (.normal keys groups)).2
  | dropBoard (id : Nat) : Change h (h.dropBoard id)
  | addTarget (t : RenderTarget) : Change h (h.addTarget t).2
  | dropTarget (id : Nat) : Change h (h.dropTarget id)
  | setTarget (id : Nat) (t : RenderTarget) : Change h (h.setTarget id t)
  | holdTarget (id : Nat) (hold : Hold) : Change h (h.holdTarget id hold)

/-! ### What lasts -/

/-- What lasts while the host goes on: numbers, boards, and the lack of what is gone. -/
structure Evolves (h h' : Host) : Prop where
  named : ∀ x, h.Named x → h'.Named x
  gone : ∀ x, h.Named x → ¬h.Has x → ¬h'.Has x
  board : ∀ id k, h.Named (.board id) → h'.board? id = some k → h.board? id = some k

namespace Evolves

protected theorem refl (h : Host) : h.Evolves h :=
  ⟨fun _ hx => hx, fun _ _ hx => hx, fun _ _ _ hk => hk⟩

protected theorem trans (h₁ : h.Evolves h') (h₂ : h'.Evolves h'') : h.Evolves h'' where
  named := fun x hx => h₂.named x (h₁.named x hx)
  gone := fun x hx hlost => h₂.gone x (h₁.named x hx) (h₁.gone x hx hlost)
  board := fun id k hid hk => h₁.board id k hid (h₂.board id k (h₁.named _ hid) hk)

/-- Rows that keep their size evolve if what is gone stays gone. -/
theorem of_rows (hboards : h.boards.size ≤ h'.boards.size)
    (htargets : h.targets.size ≤ h'.targets.size)
    (hboard : ∀ id k, id < h.boards.size → h'.board? id = some k → h.board? id = some k)
    (htarget : ∀ id, id < h.targets.size → (h'.target? id).isSome → (h.target? id).isSome) :
    h.Evolves h' where
  named := fun x hx => by
    cases x with
    | board id => exact Nat.lt_of_lt_of_le hx hboards
    | target id => exact Nat.lt_of_lt_of_le hx htargets
  gone := fun x hx hlost hfound => by
    cases x with
    | board id =>
      obtain ⟨k, hk⟩ := Option.isSome_iff_exists.mp hfound
      exact hlost (Option.isSome_iff_exists.mpr ⟨k, hboard id k hx hk⟩)
    | target id => exact hlost (htarget id hx hfound)
  board := hboard

end Evolves

theorem size_targets_setTarget (h : Host) (id : Nat) (t : RenderTarget) :
    (h.setTarget id t).targets.size = h.targets.size := by
  unfold setTarget
  split
  · exact Array.size_setIfInBounds
  · rfl

theorem evolves_setTarget (h : Host) (id : Nat) (t : RenderTarget) :
    h.Evolves (h.setTarget id t) := by
  refine .of_rows (Nat.le_of_eq (congrArg Array.size (h.boards_setTarget id t).symm))
    (Nat.le_of_eq (h.size_targets_setTarget id t).symm) (fun other k _ hk => ?_)
    fun other _ hfound => ?_
  · rwa [board?, boards_setTarget] at hk
  · rw [target?_setTarget] at hfound
    split at hfound
    · rename_i heq
      rwa [heq, ← Option.isSome_map]
    · exact hfound

/-- **What the host does keeps numbers and boards**, and what is gone stays gone. -/
theorem Change.evolves (hchange : h.Change h') : h.Evolves h' := by
  have kept : h.Evolves h := .refl h
  cases hchange with
  | addController | dropController => exact ⟨kept.named, kept.gone, kept.board⟩
  | addBoard keys groups =>
    refine .of_rows (by simp [Host.addBoard]) (Nat.le_refl _) (fun id k hid hk => ?_)
      fun _ _ ht => ht
    simpa [Host.addBoard, board?, Array.getElem?_push, Nat.ne_of_lt hid] using hk
  | dropBoard id =>
    refine .of_rows (by simp [Host.dropBoard]) (Nat.le_refl _) (fun other k _ hk => ?_)
      fun _ _ ht => ht
    simp only [Host.dropBoard, board?, join_setIfInBounds] at hk
    split at hk
    · cases hk
    · exact hk
  | addTarget t =>
    refine .of_rows (Nat.le_refl _) (by simp [Host.addTarget]) (fun _ _ _ hk => hk)
      fun id hid ht => ?_
    simpa [Host.addTarget, target?, Array.getElem?_push, Nat.ne_of_lt hid] using ht
  | dropTarget id =>
    refine .of_rows (Nat.le_refl _) (by simp [Host.dropTarget]) (fun _ _ _ hk => hk)
      fun other _ ht => ?_
    simp only [Host.dropTarget, target?, join_setIfInBounds] at ht
    split at ht
    · cases ht
    · exact ht
  | setTarget id t => exact h.evolves_setTarget id t
  | holdTarget id hold =>
    unfold Host.holdTarget
    split
    · rename_i held hheld
      refine .of_rows (Nat.le_refl _) (by simp) (fun _ _ _ hk => hk) fun other _ ht => ?_
      simp only [target?, join_setIfInBounds] at ht
      split at ht
      · rename_i heq
        rw [heq.1, hheld]
        rfl
      · exact ht
    · exact kept

/-- All boards stay normal. -/
theorem Change.normal (hchange : h.Change h') (hnormal : h.Normal) : h'.Normal := by
  intro id k hk
  by_cases hid : h.Named (.board id)
  · exact hnormal id k (hchange.evolves.board id k hid hk)
  · -- a number that was not given before is that of the board that is added
    cases hchange with
    | addBoard keys groups =>
      simp only [Host.addBoard, board?, Array.getElem?_push] at hk
      split at hk
      · obtain rfl := Option.some.inj hk
        exact Keyboard.normal_normal keys groups
      · exact hnormal id k hk
    | dropBoard other =>
      have hlt := lt_size_of_join hk
      exact absurd (show id < h.boards.size by simpa [Host.dropBoard] using hlt) hid
    | setTarget other t =>
      have hlt := lt_size_of_join hk
      exact absurd (show id < h.boards.size by rwa [boards_setTarget] at hlt) hid
    | holdTarget other hold =>
      have hboards : (h.holdTarget other hold).boards = h.boards := by
        unfold Host.holdTarget
        split <;> rfl
      rw [board?, hboards] at hk
      exact hnormal id k hk
    | addController | dropController | addTarget | dropTarget => exact hnormal id k hk

end Host

end KeyLight
