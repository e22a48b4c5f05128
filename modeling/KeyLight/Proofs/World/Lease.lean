import KeyLight.Proofs.Machine.Confinement
import KeyLight.Proofs.Scheduler.Tick
import KeyLight.Proofs.World.Footprint
import KeyLight.Proofs.World.Stale
import KeyLight.World.Thread

/-!
# How long leases last

`World.Leases first` says of all handles in a world that they were leased in no later generation
than the present one, those from the object `first` on in the present one, and that each of them
stands for something as long as the host has the thing. Scripts can make handles only where a live
one gives access, so whatever moves a world without the host taking part keeps this
(`Moves.leases`). What is lent and is over, because of its generation or because the thing is
dropped, stays over from one world to every later one (`Expired.later`).
-/

namespace KeyLight

open Relation

/-! ### Handles and the host -/

/-- What can be said of a handle whenever it was leased. -/
structure Realm.Backs (r : Realm) (o : Object) (loan : Loan) : Prop where
  lease : loan.lease ≤ r.context.generation
  named : r.host.Named loan.thing
  found : r.host.Has loan.thing → ∃ x, r.host.referent? o = some x

/-- If an object is a handle, it gives access to something now. -/
def Realm.Lends (r : Realm) (o : Object) : Prop :=
  ∀ loan, o.loan? = some loan →
    loan.lease = r.context.generation ∧ r.host.Has loan.thing ∧ ∃ x, r.host.referent? o = some x

namespace World

variable {w w' w'' : World} {o : Object} {loan : Loan} {first : Nat}

/-- What a later world has kept of an earlier one. -/
structure Outlasts (w w' : World) : Prop where
  generation : w.context.generation ≤ w'.context.generation
  host : w.host.Evolves w'.host
  objects : w.heap.Keeps w'.heap

protected theorem Outlasts.refl (w : World) : w.Outlasts w :=
  ⟨Nat.le_refl _, .refl _, .refl _⟩

protected theorem Outlasts.trans (h₁ : w.Outlasts w') (h₂ : w'.Outlasts w'') : w.Outlasts w'' :=
  ⟨Nat.le_trans h₁.generation h₂.generation, h₁.host.trans h₂.host, h₁.objects.trans h₂.objects⟩

/-- A handle goes on standing for what it stood for. -/
theorem Outlasts.backs (h : w.Outlasts w') (hloan : o.loan? = some loan)
    (hbacks : w.Backs o loan) : w'.Backs o loan where
  lease := Nat.le_trans hbacks.lease h.generation
  named := h.host.named _ hbacks.named
  found := fun hhas => by
    have hhad : w.host.Has loan.thing :=
      Classical.byContradiction fun hlost => h.host.gone _ hbacks.named hlost hhas
    obtain ⟨x, hx⟩ := hbacks.found hhad
    have hboard {b : BoardHandle} {k : Keyboard} (hb : o.loan? = some b.loan)
        (hk : w.host.board? b.board = some k) : w'.host.board? b.board = some k := by
      obtain rfl := Option.some.inj (hloan.symm.trans hb)
      obtain ⟨k', hk'⟩ := Option.isSome_iff_exists.mp hhas
      obtain rfl := Option.some.inj (hk.symm.trans (h.host.board _ _ hbacks.named hk'))
      exact hk'
    cases o with
    | board b =>
      obtain ⟨k, hk, rfl⟩ := Option.map_eq_some_iff.mp hx
      exact ⟨.board k, Option.map_eq_some_iff.mpr ⟨k, hboard rfl hk, rfl⟩⟩
    | group g =>
      obtain ⟨found, hg, rfl⟩ := Option.map_eq_some_iff.mp hx
      obtain ⟨k, hk, hg⟩ := Option.bind_eq_some_iff.mp hg
      refine ⟨.group found, Option.map_eq_some_iff.mpr ⟨found, ?_, rfl⟩⟩
      exact Option.bind_eq_some_iff.mpr ⟨k, hboard rfl hk, hg⟩
    | key key =>
      obtain ⟨found, hkey, rfl⟩ := Option.map_eq_some_iff.mp hx
      obtain ⟨k, hk, hkey⟩ := Option.bind_eq_some_iff.mp hkey
      refine ⟨.key found, Option.map_eq_some_iff.mpr ⟨found, ?_, rfl⟩⟩
      exact Option.bind_eq_some_iff.mpr ⟨k, hboard rfl hk, hkey⟩
    | target t =>
      obtain rfl := Option.some.inj hloan
      obtain ⟨held, hheld⟩ := Option.isSome_iff_exists.mp hhas
      exact ⟨.target held, Option.map_eq_some_iff.mpr ⟨held, hheld, rfl⟩⟩
    | color | fade | thread | suspension => cases hloan

/-- What a script can make gives access. -/
theorem Makes.lends {known : Node → Prop} (h : w.Makes known o) (hnormal : w.host.Normal) :
    w.Lends o := by
  intro loan hloan
  have live {b : BoardHandle} {k : Keyboard} (hk : w.board b = .ok k) :
      b.loan.lease = w.context.generation ∧ w.host.Has b.loan.thing ∧
        w.host.board? b.board = some k := by
    have hlive : ¬w.Stale b.loan := fun hstale => by
      rw [Realm.board_of_stale hstale] at hk
      cases hk
    obtain ⟨hlease, hhas⟩ := Realm.not_stale_iff.mp hlive
    obtain ⟨k', hk'⟩ := Option.isSome_iff_exists.mp hhas
    obtain rfl := Except.ok.inj (hk.symm.trans (Realm.board_of_live hlease hk'))
    exact ⟨hlease, hhas, hk'⟩
  cases o with
  | group g =>
    obtain rfl := Option.some.inj hloan
    obtain ⟨k, hk, hindex⟩ := h
    obtain ⟨hlease, hhas, hboard⟩ := live hk
    refine ⟨hlease, hhas, .group k.groups[g.index], Option.map_eq_some_iff.mpr ⟨_, ?_, rfl⟩⟩
    exact Option.bind_eq_some_iff.mpr ⟨k, hboard, List.getElem?_eq_getElem hindex⟩
  | key key =>
    obtain rfl := Option.some.inj hloan
    obtain ⟨k, hk, hnames⟩ := h
    obtain ⟨hlease, hhas, hboard⟩ := live hk
    obtain ⟨found, hfound⟩ := (hnormal _ k hboard).exists_key? hnames
    refine ⟨hlease, hhas, .key found, Option.map_eq_some_iff.mpr ⟨found, ?_, rfl⟩⟩
    exact Option.bind_eq_some_iff.mpr ⟨k, hboard, hfound⟩
  | board | target => exact h.elim
  | color | fade | thread | suspension => cases hloan

/-! ### All handles of a world -/

/-- What can be said of all handles of a world. Those from some object on were leased in the present
generation. -/
structure Leases (w : World) (first : Nat) : Prop where
  normal : w.host.Normal
  home : w.home < w.heap.tables.size
  backs : ∀ (n : Nat) (o : Object) (loan : Loan), w.heap.objects[n]? = some o →
    o.loan? = some loan → w.Backs o loan
  recent : ∀ (n : Nat) (o : Object) (loan : Loan), first ≤ n → w.heap.objects[n]? = some o →
    o.loan? = some loan → loan.lease = w.context.generation

/-- No object is made yet from the next number on. -/
theorem Leases.now (hw : w.Leases first) : w.Leases w.heap.objects.size :=
  { hw with
    recent := fun _ _ _ hn ho _ =>
      absurd (Array.getElem?_eq_some_iff.mp ho).1 (Nat.not_lt.mpr hn) }

/-- A later world in which the handles that are new give access to something. -/
theorem Leases.later (hw : w.Leases first) (h : w.Outlasts w')
    (hgeneration : w'.context.generation = w.context.generation) (hnormal : w'.host.Normal)
    (hhome : w'.home < w'.heap.tables.size)
    (hmade : ∀ (n : Nat) (o : Object), w'.heap.objects[n]? = some o →
      w.heap.objects[n]? = some o ∨ w'.Lends o) : w'.Leases first where
  normal := hnormal
  home := hhome
  backs := fun n o loan ho hloan => by
    obtain hold | hlends := hmade n o ho
    · exact h.backs hloan (hw.backs n o loan hold hloan)
    · obtain ⟨hlease, hhas, hx⟩ := hlends loan hloan
      exact ⟨Nat.le_of_eq hlease, hhas.named, fun _ => hx⟩
  recent := fun n o loan hn ho hloan => by
    obtain hold | hlends := hmade n o ho
    · exact (hw.recent n o loan hn hold hloan).trans hgeneration.symm
    · exact (hlends loan hloan).1

/-! ### Moves -/

/-- A change of a world without the host taking part: what a script does, with whatever it can get
at, or a change of neither the objects nor what the host has. -/
inductive Stir (w : World) : World → Prop
  | act {w' : World} (h : w.Act (fun _ => True) w') : Stir w w'
  | rest {w' : World} (hheap : w'.heap = w.heap) (hhost : w'.host = w.host)
      (hhome : w'.home = w.home) (hgeneration : w'.context.generation = w.context.generation) :
      Stir w w'

/-- A change of a world in one generation: one without the host, a handle that the host leases, or
something that the host does with what it has. -/
inductive Move (w : World) : World → Prop
  | stir {w' : World} (h : w.Stir w') : Move w w'
  | lend {o : Object} (ho : w.Lends o) : Move w (w.updateHeap (·.addObject o))
  | host {host : Host} (h : w.host.Change host) : Move w { w with host := host }

/-- Changes without the host taking part. -/
def Stirs (w w' : World) : Prop := ReflTransGen Stir w w'

/-- Changes in one generation. Every world in the course of a script comes about so. -/
def Moves (w w' : World) : Prop := ReflTransGen Move w w'

theorem Stirs.refl (w : World) : w.Stirs w := ReflTransGen.refl

theorem Stirs.trans (h₁ : w.Stirs w') (h₂ : w'.Stirs w'') : w.Stirs w'' :=
  ReflTransGen.trans h₁ h₂

theorem Stir.stirs (h : w.Stir w') : w.Stirs w' := ReflTransGen.single h

theorem Moves.refl (w : World) : w.Moves w := ReflTransGen.refl

theorem Moves.trans (h₁ : w.Moves w') (h₂ : w'.Moves w'') : w.Moves w'' :=
  ReflTransGen.trans h₁ h₂

theorem Move.moves (h : w.Move w') : w.Moves w' := ReflTransGen.single h

theorem Stirs.moves (h : w.Stirs w') : w.Moves w' :=
  ReflTransGen.mono (fun _ _ => Move.stir) _ _ h

theorem Acts.stirs (h : w.Acts (fun _ => True) w') : w.Stirs w' :=
  ReflTransGen.mono (fun _ _ => Stir.act) _ _ h

theorem Act.evolves {known : Node → Prop} (h : w.Act known w') : w.host.Evolves w'.host := by
  cases h with
  | @target id handle change r hid ho hr =>
    obtain ⟨held, t, -, -, -, rfl⟩ := exists_of_writeTarget hr
    exact w.host.evolves_setTarget handle.target t
  | setVariable | addVariable | setTable | addTable | addClosure | make | global | print
  | start => exact .refl w.host

theorem Stir.generation (h : w.Stir w') : w'.context.generation = w.context.generation := by
  cases h with
  | act h => rw [h.spares.context]
  | rest _ _ _ hgeneration => exact hgeneration

/-- The host has the things that it had. -/
theorem Stirs.has (h : w.Stirs w') {x : Thing} (hx : w.host.Has x) : w'.host.Has x := by
  induction h with
  | refl => exact hx
  | tail _ hstir ih =>
    cases hstir with
    | rest _ hhost => exact hhost ▸ ih
    | act h =>
      cases x with
      | board id =>
        unfold Host.Has Host.board?
        rw [h.spares.boards]
        exact ih
      | target id =>
        have hholds := congrArg Option.isSome (h.spares.holds id)
        rw [Option.isSome_map, Option.isSome_map] at hholds
        exact hholds.trans ih

theorem Stir.outlasts (h : w.Stir w') : w.Outlasts w' := by
  have hgeneration := Nat.le_of_eq h.generation.symm
  cases h with
  | act h => exact ⟨hgeneration, h.evolves, h.spares.objects⟩
  | rest hheap hhost => exact ⟨hgeneration, hhost ▸ .refl w.host, hheap ▸ .refl w.heap⟩

theorem Move.outlasts (h : w.Move w') : w.Outlasts w' := by
  cases h with
  | stir h => exact h.outlasts
  | lend => exact ⟨Nat.le_refl _, .refl w.host, Heap.keeps_addObject w.heap _⟩
  | host h => exact ⟨Nat.le_refl _, h.evolves, .refl w.heap⟩

theorem Moves.outlasts (h : w.Moves w') : w.Outlasts w' := by
  induction h with
  | refl => exact .refl w
  | tail _ hmove ih => exact ih.trans hmove.outlasts

theorem Stir.leases (h : w.Stir w') (hw : w.Leases first) : w'.Leases first := by
  have houtlasts := h.outlasts
  cases h with
  | act h =>
    have hnormal : w'.host.Normal := fun id k hk =>
      hw.normal id k (by rwa [Host.board?, h.spares.boards] at hk)
    refine hw.later houtlasts (by rw [h.spares.context]) hnormal ?_ fun n o ho => ?_
    · rw [h.spares.home]
      exact Nat.lt_of_lt_of_le hw.home h.spares.larger.tables
    · obtain hold | hmade := h.spares.made n o ho
      · exact .inl hold
      · -- a script leaves the boards as they are, so what gave access still does
        have hmakes := hmade.congr h.spares.context h.spares.boards
        exact .inr (hmakes.lends hnormal)
  | rest hheap hhost hhome hgeneration =>
    refine hw.later houtlasts hgeneration (hhost ▸ hw.normal) ?_ fun n o ho => .inl (hheap ▸ ho)
    rw [hheap, hhome]
    exact hw.home

theorem Move.leases (h : w.Move w') (hw : w.Leases first) : w'.Leases first := by
  have houtlasts := h.outlasts
  cases h with
  | stir h => exact h.leases hw
  | lend ho =>
    refine hw.later houtlasts rfl hw.normal hw.home fun n x hx => ?_
    simp only [updateHeap, Heap.addObject, Array.getElem?_push] at hx
    split at hx
    · exact .inr (Option.some.inj hx ▸ ho)
    · exact .inl hx
  | host h => exact hw.later houtlasts rfl (h.normal hw.normal) hw.home fun _ _ => .inl

/-- **Handles are as they should be wherever scripts take a world.** -/
theorem Moves.leases (h : w.Moves w') (hw : w.Leases first) : w'.Leases first := by
  induction h with
  | refl => exact hw
  | tail _ hmove ih => exact hmove.leases ih

/-! ### Ticks -/

section Ticks

variable {r r' : Realm} {s s' : Scheduler Coroutine} {fuel : Nat}

theorem stirs_withScheduler (r : Realm) (s s' : Scheduler Coroutine) :
    Stirs ⟨r, s⟩ ⟨r, s'⟩ := by
  have hrest : Stir ⟨r, s⟩ ⟨r, s'⟩ := .rest rfl rfl rfl rfl
  exact hrest.stirs

/-- The turn of a thread. -/
theorem stirs_resumeThread {id : ThreadId} {routine : Coroutine} {o : Outcome Coroutine}
    (h : resumeThread fuel id routine r s = some (o, r', s')) : Stirs ⟨r, s⟩ ⟨r', s'⟩ := by
  unfold resumeThread at h
  cases hrun : Machine.runCoroutine fuel ⟨r, s⟩ routine with
  | none => simp [hrun] at h
  | some stop =>
    obtain ⟨halt, w⟩ := stop
    simp only [hrun, Option.some.injEq, Prod.mk.injEq] at h
    obtain ⟨rfl, rfl, rfl⟩ := h
    have hacts := (Machine.acts_runCoroutine (within_true _) (fun _ _ => trivial) hrun).1
    refine hacts.stirs.trans (Stir.stirs ?_)
    cases outcome w.heap halt <;> exact .rest rfl rfl rfl rfl

/-- The turns of the threads of an agenda. -/
theorem stirs_resumeAll {now : Float} {agenda : List (ThreadId × Coroutine)} {n : TickSummary}
    {answer : Except Violation TickSummary}
    (h : Scheduler.resumeAll (resumeThread fuel) now agenda n r s = some (answer, r', s')) :
    Stirs ⟨r, s⟩ ⟨r', s'⟩ := by
  induction agenda generalizing n r s with
  | nil =>
    obtain ⟨-, rfl, rfl⟩ : _ ∧ r = r' ∧ s = s' := by simpa [Scheduler.resumeAll] using h
    exact .refl _
  | cons task agenda ih =>
    obtain ⟨id, routine⟩ := task
    simp only [Scheduler.resumeAll] at h
    cases hresume : resumeThread fuel id routine r (s.setState id .running) with
    | none => simp [hresume] at h
    | some result =>
      obtain ⟨o, r₁, s₁⟩ := result
      have hturn : Stirs ⟨r, s⟩ ⟨r₁, s₁.settle now id o⟩ :=
        ((stirs_withScheduler r s _).trans (stirs_resumeThread hresume)).trans
          (stirs_withScheduler r₁ s₁ _)
      simp only [hresume] at h
      cases o with
      | stray found =>
        obtain ⟨-, rfl, rfl⟩ : _ ∧ r₁ = r' ∧ s₁.settle now id (.stray found) = s' := by
          simpa using h
        exact hturn
      | finished | failed | suspended => exact hturn.trans (ih h)

/-- **A tick goes on without the host taking part.** -/
theorem stirs_tick {now : Float} {answer : Except Violation TickSummary}
    (h : w.tick fuel now = some (answer, w')) : w.Stirs w' := by
  obtain ⟨⟨answer, r', s'⟩, htick, heq⟩ := Option.map_eq_some_iff.mp h
  obtain ⟨-, rfl⟩ := Prod.mk.inj heq
  obtain ⟨-, -, -, rfl, rfl⟩ | ⟨-, t, hall, rfl⟩ := Scheduler.resumeAll_of_tick htick
  · exact .refl w
  · exact ((stirs_withScheduler w.toRealm w.scheduler _).trans (stirs_resumeAll hall)).trans
      (stirs_withScheduler r' t _)

end Ticks

/-! ### What is over -/

/-- The generation of a loan is over, or the thing has been dropped. -/
def Expired (w : World) (loan : Loan) : Prop :=
  loan.lease < w.context.generation ∨ w.host.Named loan.thing ∧ ¬w.host.Has loan.thing

theorem Expired.stale (h : w.Expired loan) : w.Stale loan :=
  h.imp Nat.ne_of_lt And.right

/-- **What is over stays over.** -/
theorem Expired.later (h : w.Expired loan) (hlater : w.Outlasts w') : w'.Expired loan := by
  obtain hover | ⟨hnamed, hlost⟩ := h
  · exact .inl (Nat.lt_of_lt_of_le hover hlater.generation)
  · exact .inr ⟨hlater.host.named _ hnamed, hlater.host.gone _ hnamed hlost⟩

end World

end KeyLight
