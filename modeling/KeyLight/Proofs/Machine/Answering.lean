import KeyLight.Proofs.Machine.Refusal
import KeyLight.Proofs.Number.Integer

/-!
# What handles on keys and groups give access to

A handle on a key or on a group names a place of a board. As long as something is found there, no
access to the handle reports a stale handle, whatever the arguments of the access are
(`Machine.not_reportsStale_key`, `Machine.not_reportsStale_group`). The number of a key, counted
from one, is a position of the board, and what the board holds there is the key
(`World.index_board_key`).
-/

namespace KeyLight

/-! ### Positions -/

/-- A number that is counted from one denotes its place. -/
theorem Value.index?_ofNat {n : Nat} (h : n + 1 < Binary64.exactBound) :
    (ofNat (n + 1)).index? = some n := by
  have hint : (Int64.ofNat (n + 1)).toInt = ((n + 1 : Nat) : Int) :=
    Int64.toInt_ofNat_of_lt (Nat.lt_trans h (by decide))
  exact (index?_eq_some_iff h).mpr (hint ▸ .int _)

namespace World

variable {w : World} {v : Value} {n : Nat}

/-- **A board holds its keys at their numbers.** -/
theorem index_board_key {b : BoardHandle} {k : Keyboard} {key : Key}
    (ho : w.heap.object? v = some (.board b)) (hb : w.board b = .ok k)
    (hkey : k.key? n = some key) (hn : n + 1 < Binary64.exactBound) :
    w.index v (.ofNat (n + 1)) = .ok (.object (.key (b.key key.index))) := by
  have hfound : boardKey? k (.ofNat (n + 1)) = some key := by
    have hplace : (Value.ofNat (n + 1)).index? = some n := Value.index?_ofNat hn
    simp only [Value.ofNat] at hplace
    simp only [boardKey?, Value.ofNat, hplace, Option.bind_some, hkey]
  rw [index_number ho rfl]
  simp only [item, boardItem, hb, bind, Except.bind, hfound]
  rfl

theorem index_key_field {h : KeyHandle} {key : Key} (ho : w.heap.object? v = some (.key h))
    (hkey : w.key h = .ok key) {name : String} (hname : name ∈ keyFieldNames) :
    w.index v (.ofString name) = .ok (.value ((keyField? key name).getD .nil)) := by
  have hread : w.field? (.key h) name =
      some ((w.key h).map fun k => (keyField? k name).getD .nil) := by
    rw [field?, List.contains_eq_mem, decide_eq_true hname, if_pos rfl]
  rw [index_field ho (name?_of_mem_keyFieldNames name hname) hread, hkey]
  rfl

end World

/-! ### Methods of other types -/

/-- An argument holds a value of the type, or it is told which type it should have. -/
theorem Heap.check_cases (h : Heap) (α : Type) [Exposed α] (argument : Option Value)
    (position : Nat) :
    (∃ a : α, h.check argument position = .ok a) ∨
      ∃ found, (h.check argument position : Except CallError α) =
        .error (.typeMismatch position (Exposed.type α).name found) := by
  unfold check
  split
  · exact .inl ⟨_, rfl⟩
  · exact .inr ⟨_, rfl⟩

namespace World

variable {w : World} {v : Value} {o : Object}

/-- A method takes objects of its own type only. -/
theorem receiver_of_type_ne {α : Type} [Exposed α] (ho : w.heap.object? v = some o)
    (htype : Exposed.type α ≠ o.type) (m : Method) (args : List Value) :
    (w.receiver m (v :: args) : Except Fault α) =
      .error (m.selfFault "userdata is not expected type") := by
  have hunwrap : (Exposed.unwrap? o : Option α) = none := by
    cases hsome : (Exposed.unwrap? o : Option α) with
    | none => rfl
    | some a =>
      obtain rfl := (Exposed.unwrap?_eq_some o a).mp hsome
      exact absurd (Exposed.type_wrap a).symm htype
  simp only [receiver, ho, Option.bind_some, hunwrap]

theorem groupName_cases (m : Method) (args : List Value) :
    (∃ name, groupName m args = .ok name) ∨
      ∃ text, groupName m args = .error (.conversion text) := by
  unfold groupName textArgument
  split
  · exact .inl ⟨_, rfl⟩
  · split
    · exact .inr ⟨_, rfl⟩
    · split
      · exact .inl ⟨_, rfl⟩
      · exact .inr ⟨_, rfl⟩

/-- A method that is called on an object of another type cannot convert it. -/
theorem readMethod_of_owner_ne (ho : w.heap.object? v = some o) {m : Method}
    (hm : m.owner ≠ o.type) (hfill : m ≠ .fill) (args : List Value) :
    ∃ text, w.readMethod m (v :: args) = .error (.conversion text) := by
  have refused (α : Type) [Exposed α] (htype : Exposed.type α = m.owner) :
      (w.receiver m (v :: args) : Except Fault α) =
        .error (m.selfFault "userdata is not expected type") :=
    receiver_of_type_ne ho (htype ▸ hm) m args
  cases m with
  | blend => exact ⟨_, by simp only [readMethod, refused Rgba rfl]; rfl⟩
  | value | «at» => exact ⟨_, by simp only [readMethod, refused Interpolator rfl]; rfl⟩
  | findKeyCode => exact ⟨_, by simp only [readMethod, refused BoardHandle rfl]; rfl⟩
  | contains => exact ⟨_, by simp only [readMethod, refused GroupHandle rfl]; rfl⟩
  | group =>
    obtain ⟨name, hname⟩ | ⟨text, hname⟩ := groupName_cases .group (v :: args)
    · exact ⟨_, by simp only [readMethod, hname, refused BoardHandle rfl]; rfl⟩
    · exact ⟨text, by simp only [readMethod, hname]; rfl⟩
  | fill => exact absurd rfl hfill

end World

namespace Machine

variable {place : Place} {w : World} {scope : Scope} {frames : List Frame} {v : Value} {o : Object}

/-! ### Any access -/

/-- A method that is called on an object of another type reports no stale handle. -/
theorem not_reportsStale_call (ho : w.heap.object? v = some o) {m : Method}
    (hm : m.owner ≠ o.type) (arg : Value) (more : List Value) :
    ¬ReportsStale (access place w scope frames (.call m v arg more)) := by
  by_cases hfill : m = .fill
  · subst hfill
    have hrefused : w.fill (v :: arg :: more) =
        .error (Method.fill.selfFault "userdata is not expected type") := by
      have hreceiver : (w.receiver .fill (v :: arg :: more) : Except Fault TargetHandle) = _ :=
        World.receiver_of_type_ne ho hm .fill (arg :: more)
      rw [World.fill, hreceiver]
      rfl
    rw [access_fill, hrefused]
    exact id
  · obtain ⟨text, hread⟩ := World.readMethod_of_owner_ne ho hm hfill (arg :: more)
    rw [access_call hfill, hread]
    exact id

/-- Nor does writing to an object other than a render target. -/
theorem not_reportsStale_put (ho : w.heap.object? v = some o) (htype : o.type ≠ .target)
    (key new : Value) : ¬ReportsStale (access place w scope frames (.put v key new)) := by
  have hrefused : w.put v key new = .error .interpreter := by
    cases v with
    | object id =>
      cases o with
      | target h => exact absurd rfl htype
      | color | fade | thread | suspension | board | group | key => simp only [World.put, ho]
    | nil | bool | int | float | text | table | closure | builtin => cases ho
  rw [access_put, hrefused]
  exact id

/-- Nor does reading an object at a key, if all of its fields are within reach and what its type
decides is no such report. -/
theorem not_reportsStale_index (ho : w.heap.object? v = some o)
    (hfield : ∀ name read, w.field? o name = some read → ∃ u, read = .ok u) (key : Value)
    (hitem : ¬ReportsStale (replyDatum w frames (w.item o key))) :
    ¬ReportsStale (access place w scope frames (.index v key)) := by
  have hindex : w.index v key = w.objectIndex o key := by
    cases v with
    | object id => simp only [World.index, show w.heap.objects[id]? = some o from ho]
    | nil | bool | int | float | text | table | closure | builtin => cases ho
  rw [access_index, hindex, World.objectIndex]
  split
  · rename_i read hread
    obtain ⟨name, -, hread⟩ := Option.bind_eq_some_iff.mp hread
    obtain ⟨u, rfl⟩ := hfield name read hread
    exact id
  · split
    · exact id
    · exact hitem

/-- **No access to a key that is found reports a stale handle.** -/
theorem not_reportsStale_key {h : KeyHandle} {key : Key} {a : Access}
    (ho : w.heap.object? a.subject = some (.key h)) (hkey : w.key h = .ok key) :
    ¬ReportsStale (access place w scope frames a) := by
  cases a with
  | length v =>
    rw [access_length, World.length_object (v := v) ho]
    exact id
  | index v key =>
    refine not_reportsStale_index ho (fun name read hread => ?_) key ?_
    · simp only [World.field?, hkey] at hread
      split at hread
      · exact ⟨_, (Option.some.inj hread).symm⟩
      · cases hread
    · unfold World.item
      simp only
      split <;> exact id
  | put v key new => exact not_reportsStale_put ho (fun htype => by cases htype) key new
  | call m v arg more =>
    have howner : m.owner ≠ .key := by cases m <;> decide
    exact not_reportsStale_call ho howner arg more
  | text v =>
    rw [access_text, World.text_object (v := v) ho, World.objectText, hkey]
    exact id

/-- **No access to a group that is found reports a stale handle.** -/
theorem not_reportsStale_group {h : GroupHandle} {g : KeyGroup} {a : Access}
    (ho : w.heap.object? a.subject = some (.group h)) (hg : w.group h = .ok g) :
    ¬ReportsStale (access place w scope frames a) := by
  cases a with
  | length v =>
    rw [access_length, World.length_object (v := v) ho, World.objectLength, hg]
    exact id
  | index v key =>
    refine not_reportsStale_index ho (fun name read hread => ?_) key ?_
    · simp only [World.field?, hg] at hread
      split at hread
      · exact ⟨_, (Option.some.inj hread).symm⟩
      · cases hread
    · simp only [World.item, World.groupItem, hg]
      split <;> exact not_reportsStale_replyDatum _
  | put v key new => exact not_reportsStale_put ho (fun htype => by cases htype) key new
  | call m v arg more =>
    by_cases hm : m = .contains
    · subst hm
      have hreceiver : w.receiver .contains (v :: arg :: more) = .ok h :=
        World.receiver_cons .contains (arg :: more) ho
      rw [access_call (m := .contains) (fun hm => by cases hm)]
      obtain ⟨k, hcheck⟩ | ⟨found, hcheck⟩ :=
        w.heap.check_cases KeyHandle (some (World.argument (v :: arg :: more) 2)) 2
      · obtain ⟨b, hb⟩ : ∃ b, w.hasKey h k = .ok b := by
          rw [World.hasKey, hg]
          split <;> exact ⟨_, rfl⟩
        have hread : w.readMethod .contains (v :: arg :: more) = .ok (.value (.bool b)) := by
          simp only [World.readMethod, hreceiver, bind, Except.bind, hcheck, Except.mapError_ok, hb]
        rw [hread]
        exact id
      · simp only [World.readMethod, hreceiver, bind, Except.bind, hcheck]
        exact id
    · have howner : m.owner ≠ .group := by
        cases m with
        | contains => exact absurd rfl hm
        | blend | value | «at» | findKeyCode | group | fill => decide
      exact not_reportsStale_call ho howner arg more
  | text v =>
    rw [access_text, World.text_object (v := v) ho, World.objectText, hg]
    exact id

end Machine

end KeyLight
