import KeyLight.Proofs.Scheduler.Update
import KeyLight.World.Collection

/-!
# What can be reached

`Linked links roots` is what links lead to from some roots: the least property that the roots have
and that links pass on (`Linked.least`). The search of a collection adds what is new in rounds, and
it stops when nothing is new or when the rounds it was given are used up. In each round but the last
one it comes upon one more of the things that link to something, so as many rounds as there are
things, and two more, find everything (`mem_spread_iff`).
-/

namespace KeyLight

/-- What links lead to from some roots. -/
inductive Linked (links : Node → List Node) (roots : List Node) : Node → Prop
  | root {n : Node} (h : n ∈ roots) : Linked links roots n
  | step {n m : Node} (h : Linked links roots n) (hm : m ∈ links n) : Linked links roots m

namespace Linked

variable {links links' : Node → List Node} {roots : List Node} {n : Node}

/-- What is linked is what any property holds of that the roots have and that links pass on. -/
theorem least {P : Node → Prop} (hroots : ∀ n ∈ roots, P n)
    (hlinks : ∀ n, P n → ∀ m ∈ links n, P m) (h : Linked links roots n) : P n := by
  induction h with
  | root h => exact hroots _ h
  | step _ hm ih => exact hlinks _ ih _ hm

/-- What the links of some things lead to can be left out if none of these is found without them. -/
theorem cut {dropped : Node → Prop} (hsame : ∀ n, ¬dropped n → links' n = links n)
    (hcut : ∀ n, Linked links' roots n → ¬dropped n) (h : Linked links roots n) : ¬dropped n := by
  refine hcut n (h.least (fun _ hn => .root hn) fun m hm k hk => hm.step ?_)
  rwa [hsame m (hcut m hm)]

end Linked

namespace World

/-! ### Rounds of a search -/

section Spread

variable {links : Node → List Node} {seen all : List Node} {n : Node} {fuel : Nat}

/-- What one round of a search adds. -/
def unseen (links : Node → List Node) (seen : List Node) : List Node :=
  ((seen.flatMap links).filter fun n => !seen.contains n).eraseDups

theorem mem_unseen : n ∈ unseen links seen ↔ (∃ m ∈ seen, n ∈ links m) ∧ n ∉ seen := by
  simp [unseen, List.mem_eraseDups]

theorem spread_succ (links : Node → List Node) (fuel : Nat) (seen : List Node) :
    spread links (fuel + 1) seen = if (unseen links seen).isEmpty then seen
      else spread links fuel (seen ++ unseen links seen) := rfl

theorem subset_spread (links : Node → List Node) (fuel : Nat) (seen : List Node) :
    seen ⊆ spread links fuel seen := by
  induction fuel generalizing seen with
  | zero => exact List.Subset.refl _
  | succ fuel ih =>
    rw [spread_succ]
    split
    · exact List.Subset.refl _
    · exact List.Subset.trans (List.subset_append_left _ _) (ih _)

/-- A search finds only what links lead to. -/
theorem linked_of_mem_spread (h : n ∈ spread links fuel seen) : Linked links seen n := by
  induction fuel generalizing seen with
  | zero => exact .root h
  | succ fuel ih =>
    rw [spread_succ] at h
    split at h
    · exact .root h
    · refine (ih h).least (fun m hm => ?_) fun _ hm _ hk => hm.step hk
      obtain hm | hm := List.mem_append.mp hm
      · exact .root hm
      · obtain ⟨⟨k, hk, hm⟩, -⟩ := mem_unseen.mp hm
        exact (Linked.root hk).step hm

/-- Nothing is new where a search stops of itself. -/
theorem closed_of_unseen_eq_nil (h : unseen links seen = []) :
    ∀ n ∈ seen, ∀ m ∈ links n, m ∈ seen := by
  intro n hn m hm
  by_cases hseen : m ∈ seen
  · exact hseen
  · have hnew : m ∈ unseen links seen := mem_unseen.mpr ⟨⟨n, hn, hm⟩, hseen⟩
    rw [h] at hnew
    cases hnew

/-- The number of things in a list that a search has yet to come upon gets smaller when it comes
upon one of them. -/
theorem length_filter_lt (hall : n ∈ all) (hnew : n ∈ unseen links seen) :
    (all.filter fun m => !(seen ++ unseen links seen).contains m).length <
      (all.filter fun m => !seen.contains m).length := by
  have hsplit : (all.filter fun m => !(seen ++ unseen links seen).contains m) =
      (all.filter fun m => !seen.contains m).filter fun m => !(unseen links seen).contains m := by
    rw [List.filter_filter]
    refine List.filter_congr fun m _ => ?_
    simp only [List.contains_append, Bool.not_or, Bool.and_comm]
  rw [hsplit, List.length_filter_lt_length_iff_exists]
  have hunseen : n ∉ seen := (mem_unseen.mp hnew).2
  refine ⟨n, List.mem_filter.mpr ⟨hall, by simpa using hunseen⟩, by simpa using hnew⟩

/-- A search of enough rounds ends with nothing new. If a round comes upon nothing that links to
something, then the next round stops. -/
theorem closed_spread (hall : ∀ n, links n ≠ [] → n ∈ all)
    (hfuel : (all.filter fun m => !seen.contains m).length + 2 ≤ fuel) :
    ∀ n ∈ spread links fuel seen, ∀ m ∈ links n, m ∈ spread links fuel seen := by
  induction fuel generalizing seen with
  | zero => omega
  | succ fuel ih =>
    rw [spread_succ]
    split
    · rename_i hnone
      exact closed_of_unseen_eq_nil (List.isEmpty_iff.mp hnone)
    by_cases hnew : ∃ n ∈ unseen links seen, n ∈ all
    · obtain ⟨n, hn, hmem⟩ := hnew
      have hlt := length_filter_lt hmem hn
      exact ih (by omega)
    · have hbare : ∀ n ∈ unseen links seen, links n = [] := fun n hn =>
        Decidable.byContradiction fun hlinks => hnew ⟨n, hn, hall n hlinks⟩
      have hnone : unseen links (seen ++ unseen links seen) = [] := by
        refine List.eq_nil_iff_forall_not_mem.mpr fun m hm => ?_
        obtain ⟨⟨n, hn, hm⟩, hfresh⟩ := mem_unseen.mp hm
        obtain hn | hn := List.mem_append.mp hn
        · by_cases hseen : m ∈ seen
          · exact hfresh (List.mem_append_left _ hseen)
          · exact hfresh (List.mem_append_right _ (mem_unseen.mpr ⟨⟨n, hn, hm⟩, hseen⟩))
        · rw [hbare n hn] at hm
          cases hm
      obtain ⟨fuel, rfl⟩ := Nat.exists_eq_succ_of_ne_zero (show fuel ≠ 0 by omega)
      rw [Nat.succ_eq_add_one, spread_succ, if_pos (List.isEmpty_iff.mpr hnone)]
      exact closed_of_unseen_eq_nil hnone

/-- **A search of enough rounds finds what links lead to.** -/
theorem mem_spread_iff (hall : ∀ n, links n ≠ [] → n ∈ all) (hfuel : all.length + 2 ≤ fuel) :
    n ∈ spread links fuel seen ↔ Linked links seen n := by
  refine ⟨linked_of_mem_spread, fun h => ?_⟩
  refine h.least (fun m hm => subset_spread links fuel seen hm) (closed_spread hall ?_)
  have hle := List.length_filter_le (fun m => !seen.contains m) all
  omega

end Spread

/-! ### What a collection reaches -/

/-- All things that there are. -/
def things (w : World) : List Node :=
  (List.range w.heap.cells.size).map .cell ++ (List.range w.heap.tables.size).map .table ++
    (List.range w.heap.closures.size).map .closure ++
    (List.range w.heap.objects.size).map .object ++
    (List.range w.scheduler.threads.size).map fun i => .thread (i + 1)

theorem length_things (w : World) : w.things.length = w.nodeCount := by
  simp only [things, nodeCount, List.length_append, List.length_map, List.length_range]

/-- What links to something is there. -/
theorem mem_things_of_links {w : World} {n : Node} (h : w.links n ≠ []) : n ∈ w.things := by
  have hlt {α : Type} {row : Array α} {id : Nat} {f : Option α → List Node} (hnone : f none = [])
      (hf : f row[id]? ≠ []) : id < row.size := by
    refine Decidable.byContradiction fun hle => hf ?_
    rw [Array.getElem?_eq_none (Nat.not_lt.mp hle), hnone]
  simp only [things, List.mem_append, List.mem_map, List.mem_range]
  cases n with
  | cell id =>
    refine .inl (.inl (.inl (.inl ⟨id, ?_, rfl⟩)))
    exact hlt (f := fun v : Option Value => (v.getD .nil).nodes) rfl h
  | table id =>
    refine .inl (.inl (.inl (.inr ⟨id, ?_, rfl⟩)))
    exact hlt (f := fun t : Option Table => (t.getD .empty).nodes) rfl h
  | closure id =>
    refine .inl (.inl (.inr ⟨id, ?_, rfl⟩))
    exact hlt (f := fun c => (c.map fun c : Closure => Scope.nodes c.scope).getD []) rfl h
  | object id =>
    refine .inl (.inr ⟨id, ?_, rfl⟩)
    refine Decidable.byContradiction fun hle => h ?_
    simp [links, Array.getElem?_eq_none (Nat.not_lt.mp hle)]
  | thread id =>
    refine .inr ⟨id - 1, ?_⟩
    cases ht : w.scheduler.thread? id with
    | none => simp [links, ht] at h
    | some t =>
      have hpos : 0 < id := Scheduler.pos_of_thread? ht
      have hle : id ≤ w.scheduler.threads.size := Scheduler.le_size_of_thread? ht
      exact ⟨Nat.lt_of_lt_of_le (Nat.sub_one_lt_of_lt hpos) hle,
        congrArg Node.thread (Nat.sub_add_cancel hpos)⟩

/-- **A collection finds what can be reached** from the roots, and from more values if there are
more that are held. -/
theorem mem_spread_roots {w : World} {n : Node} (roots : List Node) :
    n ∈ spread w.links (w.nodeCount + 2) roots ↔ Linked w.links roots n :=
  mem_spread_iff (fun _ => mem_things_of_links) (Nat.le_of_eq (by rw [length_things]))

end World

end KeyLight
