import KeyLight.Proofs.World.Asking
import KeyLight.Environment.Basic

/-!
# Which accesses refuse a stale handle

An `Access` is what a script does with a value that can be a handle: it asks for its length or its
text, reads or writes it at a key, or calls a method on it. `Access.Typed` are the accesses to
handles of each type, with arguments of the types that they take.

Such an access asks for what the handle stands for before it does anything else, so a stale handle
is reported and nothing changes (`Machine.asks_access`), with two exceptions. One is an access that
is decided before it gets to ask (`Access.Strays`): a group or a render target at a number that is
no position, a board that is asked for a key code that is none, and a group that is asked for a key
of another board. The other one is a key that is the argument of an access. It denotes a place and
is not asked for at all, so a stale one does what a live one does (`Machine.access_withArgument`).
-/

namespace KeyLight

/-- What a script does with a value that can be a handle. -/
inductive Access
  | length (v : Value)
  | index (v key : Value)
  | put (v key new : Value)
  | call (m : Method) (v arg : Value) (more : List Value)
  | text (v : Value)

namespace Access

/-- The value that an access is made on. -/
def subject : Access → Value
  | length v | index v _ | put v _ _ | call _ v _ _ | text v => v

/-- The value that says what is wanted of the first one. -/
def argument? : Access → Option Value
  | index _ key | put _ key _ => some key
  | call _ _ arg _ => some arg
  | length _ | text _ => none

/-- The access with another argument. -/
def withArgument (key : Value) : Access → Access
  | index v _ => index v key
  | put v _ new => put v key new
  | call m v _ more => call m v key more
  | a => a

/-- The operation of a script that an access is. -/
def operation : Access → Operation
  | length _ => .length
  | index .. => .index
  | put .. => .put
  | call .. => .apply
  | text _ => .call

/-- The operands of the operation. -/
def operands : Access → List Value
  | length v => [v]
  | index v key => [v, key]
  | put v key new => [v, key, new]
  | call m v arg more => v :: .builtin (.method m) :: arg :: more
  | text v => [.builtin .tostring, v]

/-- The accesses to a handle, with arguments of the types that they take. A name that is that of a
method does not name a key of a board. -/
inductive Typed (w : World) : Object → Access → Prop
  | boardLength {h v} : w.heap.object? v = some (.board h) → Typed w (.board h) (.length v)
  | boardItem {h v key} : w.heap.object? v = some (.board h) → key.number?.isSome →
      Typed w (.board h) (.index v key)
  | boardNamed {h v bytes} : w.heap.object? v = some (.board h) →
      (Utf8.decode? bytes).bind (Method.find? .board) = none →
      Typed w (.board h) (.index v (.text bytes))
  | findKeyCode {h v arg more} : w.heap.object? v = some (.board h) → arg.number?.isSome →
      Typed w (.board h) (.call .findKeyCode v arg more)
  | group {h v arg more name} : w.heap.object? v = some (.board h) →
      World.textArgument .group 2 arg = .ok name → Typed w (.board h) (.call .group v arg more)
  | groupLength {h v} : w.heap.object? v = some (.group h) → Typed w (.group h) (.length v)
  | groupItem {h v key} : w.heap.object? v = some (.group h) → key.number?.isSome →
      Typed w (.group h) (.index v key)
  | groupName {h v} : w.heap.object? v = some (.group h) →
      Typed w (.group h) (.index v (.ofString "name"))
  | contains {h v arg more k} : w.heap.object? v = some (.group h) →
      w.heap.object? arg = some (.key k) → Typed w (.group h) (.call .contains v arg more)
  | keyField {h v name} : w.heap.object? v = some (.key h) → name ∈ World.keyFieldNames →
      Typed w (.key h) (.index v (.ofString name))
  | targetLength {h v} : w.heap.object? v = some (.target h) → Typed w (.target h) (.length v)
  | targetItem {h v key} : w.heap.object? v = some (.target h) → w.SlotKey key →
      Typed w (.target h) (.index v key)
  | targetPut {h v key new c} : w.heap.object? v = some (.target h) → w.SlotKey key →
      w.slotColor new 3 = .ok c → Typed w (.target h) (.put v key new)
  | fill {h v arg more c} : w.heap.object? v = some (.target h) →
      w.slotColor arg 2 = .ok c → Typed w (.target h) (.call .fill v arg more)
  | text {o v loan} : w.heap.object? v = some o → o.loan? = some loan → Typed w o (.text v)

theorem Typed.object {w : World} {o : Object} {a : Access} (h : a.Typed w o) :
    w.heap.object? a.subject = some o := by
  cases h <;> assumption

/-- The accesses that are decided before the handle is asked for, and what they come to. -/
inductive Strays (w : World) : Object → Access → Control → Prop
  | findKeyCode {h v arg more} : w.heap.object? v = some (.board h) → arg.number?.isSome →
      (∀ code, World.keyCode arg ≠ .ok code) →
      Strays w (.board h) (.call .findKeyCode v arg more)
        (.raise (.call (.argument "find_key_code" 2 "key code must be an unsigned integer")))
  | groupItem {h v key} : w.heap.object? v = some (.group h) → key.number?.isSome →
      key.index? = none → Strays w (.group h) (.index v key) (.give .nil)
  | contains {h v arg more k} : w.heap.object? v = some (.group h) →
      w.heap.object? arg = some (.key k) → k.board.board ≠ h.board.board →
      Strays w (.group h) (.call .contains v arg more) (.give (.bool false))
  | targetItem {h v key} : w.heap.object? v = some (.target h) → key.number?.isSome →
      key.index? = none → Strays w (.target h) (.index v key) (.give .nil)
  | targetPut {h v key new c} : w.heap.object? v = some (.target h) → key.number?.isSome →
      key.index? = none → w.slotColor new 3 = .ok c →
      Strays w (.target h) (.put v key new)
        (.raise (.call (.argument "__newindex" 2 "key index out of range")))

end Access

namespace Machine

variable {place : Place} {w : World} {scope : Scope} {frames : List Frame} {a : Access}
variable {o : Object} {asked : Except CallError Referent} {next : Next}

/-! ### What an access leads to -/

/-- What an access leads to. -/
def access (place : Place) (w : World) (scope : Scope) (frames : List Frame) (a : Access) : Next :=
  operate place w a.operation a.operands scope frames

theorem access_length (v : Value) : access place w scope frames (.length v) =
    reply w frames ((w.length v).map .ofNat) := rfl

theorem access_index (v key : Value) : access place w scope frames (.index v key) =
    replyDatum w frames (w.index v key) := rfl

theorem access_put (v key new : Value) : access place w scope frames (.put v key new) =
    continueWith w frames (w.put v key new) := rfl

theorem access_text (v : Value) : access place w scope frames (.text v) =
    reply w frames (((w.text v).map .text).mapError .call) := rfl

/-- Calling a method that reads. -/
theorem access_call {m : Method} (hm : m ≠ .fill) (v arg : Value) (more : List Value) :
    access place w scope frames (.call m v arg more) =
      replyDatum w frames (w.readMethod m (v :: arg :: more)) := by
  have hcall : w.callMethod m (v :: arg :: more) =
      w.realizeResult (w.readMethod m (v :: arg :: more)) := by
    cases m <;> first | rfl | exact absurd rfl hm
  change reply (w.callMethod m (v :: arg :: more)).2 frames
    (w.callMethod m (v :: arg :: more)).1 = _
  rw [hcall]
  cases w.readMethod m (v :: arg :: more) <;> rfl

/-- Calling the method that writes. -/
theorem access_fill (v arg : Value) (more : List Value) :
    access place w scope frames (.call .fill v arg more) =
      match w.fill (v :: arg :: more) with
      | .ok w => .running w (.give .nil) frames
      | .error f => .running w (.raise f) frames := by
  change reply (w.callMethod .fill (v :: arg :: more)).2 frames
    (w.callMethod .fill (v :: arg :: more)).1 = _
  simp only [World.callMethod]
  cases w.fill (v :: arg :: more) <;> rfl

/-! ### Asking for a handle -/

/-- What is next is to report a stale handle. -/
def ReportsStale : Next → Prop
  | .running _ (.raise (.call (.staleHandle _))) _ => True
  | _ => False

/-- What comes after a handle was asked for: if it gives no access, then the error is raised and
nothing changes; if it does, then no stale handle is reported. -/
structure Asks (w : World) (frames : List Frame) (asked : Except CallError Referent)
    (next : Next) : Prop where
  refused : ∀ e, asked = .error e → next = .running w (.raise (.call e)) frames
  granted : ∀ x, asked = .ok x → ¬ReportsStale next

theorem asks_error (e : CallError) :
    Asks w frames (.error e) (.running w (.raise (.call e)) frames) :=
  ⟨fun _ h => congrArg (fun e => Next.running w (.raise (.call e)) frames) (Except.error.inj h),
    nofun⟩

theorem asks_ok {x : Referent} (h : ¬ReportsStale next) : Asks w frames (.ok x) next :=
  ⟨nofun, fun _ _ => h⟩

theorem not_reportsStale_replyDatum (datum : Datum) :
    ¬ReportsStale (replyDatum w frames (.ok datum)) := by
  cases datum <;> exact id

/-- An access to a board asks for the board. -/
theorem asks_board {h : BoardHandle} (htyped : a.Typed w (.board h))
    (hstrays : ∀ c, ¬a.Strays w (.board h) c) :
    Asks w frames ((w.board h).map .board) (access place w scope frames a) := by
  cases htyped with
  | boardLength ho =>
    simp only [access_length, World.length_object ho, World.objectLength]
    cases w.board h with
    | error e => exact asks_error e
    | ok k => exact asks_ok id
  | boardItem ho hnumber =>
    simp only [access_index, World.index_number ho hnumber, World.item, World.boardItem]
    cases w.board h with
    | error e => exact asks_error e
    | ok k => exact asks_ok (not_reportsStale_replyDatum _)
  | @boardNamed _ _ bytes ho hname =>
    have hfield : (Value.text bytes).name?.bind (w.field? (.board h)) = none :=
      Option.bind_eq_none_iff.mpr fun _ _ => rfl
    simp only [access_index, World.index_item ho hfield hname, World.item, World.boardItem]
    cases w.board h with
    | error e => exact asks_error e
    | ok k => exact asks_ok (not_reportsStale_replyDatum _)
  | @findKeyCode _ _ arg _ ho hnumber =>
    rw [access_call (m := .findKeyCode) nofun, World.readMethod_findKeyCode ho]
    cases hcode : World.keyCode arg with
    | error e =>
      have hno (code : Nat) : World.keyCode arg ≠ .ok code := by
        rw [hcode]
        nofun
      exact absurd (.findKeyCode ho hnumber hno) (hstrays _)
    | ok code =>
      cases w.board h with
      | error e => exact asks_error e
      | ok k => exact asks_ok (not_reportsStale_replyDatum _)
  | group ho hname =>
    rw [access_call (m := .group) nofun, World.readMethod_group ho hname]
    cases w.board h with
    | error e => exact asks_error e
    | ok k => exact asks_ok (not_reportsStale_replyDatum _)
  | text ho =>
    rw [access_text, World.text_object ho, World.objectText]
    cases w.board h with
    | error e => exact asks_error e
    | ok _ => exact asks_ok id

/-- An access to a group asks for the group. -/
theorem asks_group {h : GroupHandle} (htyped : a.Typed w (.group h))
    (hstrays : ∀ c, ¬a.Strays w (.group h) c) :
    Asks w frames ((w.group h).map .group) (access place w scope frames a) := by
  cases htyped with
  | groupLength ho =>
    simp only [access_length, World.length_object ho, World.objectLength]
    cases w.group h with
    | error e => exact asks_error e
    | ok g => exact asks_ok id
  | @groupItem _ _ key ho hnumber =>
    simp only [access_index, World.index_number ho hnumber, World.item, World.groupItem]
    cases hi : key.index? with
    | none => exact absurd (.groupItem ho hnumber hi) (hstrays _)
    | some i =>
      cases w.group h with
      | error e => exact asks_error e
      | ok g => exact asks_ok (not_reportsStale_replyDatum _)
  | groupName ho =>
    have hread : w.field? (.group h) "name" = some ((w.group h).map fun g => .ofString g.name) := by
      rw [World.field?, if_pos rfl]
    rw [access_index, World.index_field ho (by decide) hread]
    cases w.group h with
    | error e => exact asks_error e
    | ok g => exact asks_ok id
  | @contains _ _ _ _ k ho hk =>
    have hsame : k.board.board = h.board.board :=
      Classical.not_not.mp fun hne => hstrays _ (.contains ho hk hne)
    rw [access_call (m := .contains) nofun, World.readMethod_contains ho hk, World.hasKey, hsame,
      beq_self_eq_true, if_pos rfl]
    cases w.group h with
    | error e => exact asks_error e
    | ok g => exact asks_ok id
  | text ho =>
    rw [access_text, World.text_object ho, World.objectText]
    cases w.group h with
    | error e => exact asks_error e
    | ok _ => exact asks_ok id

/-- An access to a key asks for the key. -/
theorem asks_key {h : KeyHandle} (htyped : a.Typed w (.key h)) :
    Asks w frames ((w.key h).map .key) (access place w scope frames a) := by
  cases htyped with
  | @keyField _ _ name ho hname =>
    have hread : w.field? (.key h) name =
        some ((w.key h).map fun k => (World.keyField? k name).getD .nil) := by
      rw [World.field?, List.contains_eq_mem, decide_eq_true hname, if_pos rfl]
    rw [access_index, World.index_field ho (World.name?_of_mem_keyFieldNames _ hname) hread]
    cases w.key h with
    | error e => exact asks_error e
    | ok k => exact asks_ok id
  | text ho =>
    rw [access_text, World.text_object ho, World.objectText]
    cases w.key h with
    | error e => exact asks_error e
    | ok _ => exact asks_ok id

/-- An access to a render target asks for the target. -/
theorem asks_target {h : TargetHandle} (htyped : a.Typed w (.target h))
    (hstrays : ∀ c, ¬a.Strays w (.target h) c) :
    Asks w frames ((w.hostTarget h).map .target) (access place w scope frames a) := by
  cases htyped with
  | targetLength ho =>
    simp only [access_length, World.length_object ho, World.objectLength]
    obtain ⟨e, hlost, hread⟩ | ⟨held, hheld, hread | hread⟩ := w.readTarget_cases h
    · rw [hlost, hread]
      exact asks_error e
    · rw [hheld, hread]
      exact asks_ok id
    · rw [hheld, hread]
      exact asks_ok id
  | targetItem ho hkey =>
    rw [access_index, World.index_target ho hkey]
    obtain ⟨slot, hslot⟩ | ⟨hnumber, hi⟩ := World.targetSlot_of_slotKey hkey 2
    · simp only [World.targetItem, hslot]
      obtain ⟨e, hlost, hread⟩ | ⟨held, hheld, hread | hread⟩ := w.readTarget_cases h
      · rw [hlost, hread]
        exact asks_error e
      · rw [hheld, hread]
        exact asks_ok (not_reportsStale_replyDatum _)
      · rw [hheld, hread]
        exact asks_ok id
    · exact absurd (.targetItem ho hnumber hi) (hstrays _)
  | @targetPut _ _ _ _ c ho hkey hnew =>
    rw [access_put, World.put_target ho]
    obtain ⟨slot, hslot⟩ | ⟨hnumber, hi⟩ := World.targetSlot_of_slotKey hkey 2
    · rw [World.putSlot_of_slot hslot hnew]
      obtain ⟨e, hlost, hwrite⟩ | ⟨held, hheld, ⟨written, hwrite⟩ | hwrite⟩ :=
        w.writeTarget_cases h (·.set? slot c)
      · rw [hlost, hwrite]
        exact asks_error e
      · rw [hheld, hwrite]
        cases written <;> exact asks_ok id
      · rw [hheld, hwrite]
        exact asks_ok id
    · exact absurd (.targetPut ho hnumber hi hnew) (hstrays _)
  | @fill _ _ _ _ c ho hc =>
    rw [access_fill, World.fill_target ho hc]
    obtain ⟨e, hlost, hwrite⟩ | ⟨held, hheld, ⟨written, hwrite⟩ | hwrite⟩ :=
      w.writeTarget_cases h fun t => some (t.fill c)
    · rw [hlost, hwrite]
      exact asks_error e
    · rw [hheld, hwrite]
      exact asks_ok id
    · rw [hheld, hwrite]
      exact asks_ok id
  | text ho =>
    rw [access_text, World.text_object ho, World.objectText]
    obtain ⟨e, hlost, hread⟩ | ⟨held, hheld, hread | hread⟩ := w.readTarget_cases h
    · rw [hlost, hread]
      exact asks_error e
    · rw [hheld, hread]
      exact asks_ok id
    · rw [hheld, hread]
      exact asks_ok id

/-- **An access asks for the handle that it is made on**, unless it strays. -/
theorem asks_access (htyped : a.Typed w o) (hstrays : ∀ c, ¬a.Strays w o c)
    (hasked : w.resolve? o = some asked) :
    Asks w frames asked (access place w scope frames a) := by
  cases o with
  | board h =>
    obtain rfl := Option.some.inj hasked
    exact asks_board htyped hstrays
  | group h =>
    obtain rfl := Option.some.inj hasked
    exact asks_group htyped hstrays
  | key h =>
    obtain rfl := Option.some.inj hasked
    exact asks_key htyped
  | target h =>
    obtain rfl := Option.some.inj hasked
    exact asks_target htyped hstrays
  | color | fade | thread | suspension => cases hasked

/-! ### Accesses that stray -/

/-- **An access that strays asks for nothing** and changes nothing. -/
theorem access_of_strays {c : Control} (hstrays : a.Strays w o c) :
    access place w scope frames a = .running w c frames := by
  cases hstrays with
  | @findKeyCode h v arg more ho hnumber hno =>
    obtain ⟨code, hcode⟩ | hcode := World.keyCode_cases arg
    · exact absurd hcode (hno code)
    · rw [access_call (m := .findKeyCode) nofun, World.readMethod_findKeyCode ho, hcode]
      rfl
  | groupItem ho hnumber hi =>
    simp only [access_index, World.index_number ho hnumber, World.item, World.groupItem, hi]
    rfl
  | contains ho hk hne =>
    rw [access_call (m := .contains) nofun, World.readMethod_contains ho hk, World.hasKey,
      if_neg fun heq => hne (eq_of_beq heq)]
    rfl
  | targetItem ho hnumber hi =>
    simp only [access_index, World.index_target ho (.inl hnumber), World.targetItem,
      World.targetSlot_number hnumber, hi]
    rfl
  | targetPut ho hnumber hi hnew =>
    simp only [access_put, World.put_target ho, World.putSlot, hnew,
      World.targetSlot_number hnumber, hi]
    rfl

theorem not_reportsStale_of_strays {c : Control} (hstrays : a.Strays w o c) :
    ¬ReportsStale (access place w scope frames a) := by
  rw [access_of_strays hstrays]
  cases hstrays <;> exact id

/-! ### Keys as arguments -/

/-- **A key that is an argument is not asked for**: all handles on one key do the same. -/
theorem access_withArgument {key key' : Value} {k k' : KeyHandle} (htyped : a.Typed w o)
    (hkey : a.argument? = some key) (hk : w.heap.object? key = some (.key k))
    (hk' : w.heap.object? key' = some (.key k')) (hindex : k'.index = k.index)
    (hboard : k'.board.board = k.board.board) :
    access place w scope frames (a.withArgument key') = access place w scope frames a := by
  have hobject : ∃ id, key = .object id := by
    cases key <;> first | exact ⟨_, rfl⟩ | cases hk
  obtain ⟨id, rfl⟩ := hobject
  have hsame (h : GroupHandle) : w.hasKey h k' = w.hasKey h k := by
    rw [World.hasKey, World.hasKey, hboard, hindex]
  cases htyped with
  | boardLength | groupLength | targetLength | text => cases hkey
  | boardNamed | groupName | keyField => cases hkey
  | boardItem ho hnumber | groupItem ho hnumber =>
    obtain rfl := Option.some.inj hkey
    cases hnumber
  | findKeyCode ho hnumber =>
    obtain rfl := Option.some.inj hkey
    cases hnumber
  | group ho hname =>
    obtain rfl := Option.some.inj hkey
    cases hname
  | fill ho hc =>
    obtain rfl := Option.some.inj hkey
    simp only [World.slotColor, hk] at hc
    cases hc
  | contains ho hk₀ =>
    obtain rfl := Option.some.inj hkey
    obtain rfl := Object.key.inj (Option.some.inj (hk₀.symm.trans hk))
    rw [Access.withArgument, access_call (m := .contains) nofun, access_call (m := .contains) nofun,
      World.readMethod_contains ho hk', World.readMethod_contains ho hk, hsame]
  | targetItem ho hslot =>
    obtain rfl := Option.some.inj hkey
    rw [Access.withArgument, access_index, access_index, World.index_target ho (.inr ⟨k', hk'⟩),
      World.index_target ho hslot, World.targetItem, World.targetItem,
      World.targetSlot_key hk', World.targetSlot_key hk, hindex]
  | targetPut ho hslot hnew =>
    obtain rfl := Option.some.inj hkey
    rw [Access.withArgument, access_put, access_put, World.put_target ho, World.put_target ho,
      World.putSlot_of_slot (World.targetSlot_key hk' 2) hnew,
      World.putSlot_of_slot (World.targetSlot_key hk 2) hnew, hindex]

/-! ### What is reported -/

/-- **What an access to a handle leads to.** An access with arguments of the types that it takes
raises the error of a stale handle and changes nothing, if the handle is stale and the access does
not stray. If it strays, then it comes to what it would come to with a live handle, and changes
nothing. An access to a handle that can be resolved reports no stale handle, and a key that is its
argument can be replaced by any other handle on the same key, stale or not. A method is found by its
name through a stale handle, too, and is then called in an access of its own. -/
theorem access_reports_stale_unless_strays (htyped : a.Typed w o) :
    (∀ loan, o.loan? = some loan → w.Stale loan → (∀ c, ¬a.Strays w o c) →
      access place w scope frames a =
        .running w (.raise (.call (.staleHandle loan.thing.type))) frames) ∧
    (∀ c, a.Strays w o c → access place w scope frames a = .running w c frames) ∧
    (∀ x, w.resolve? o = some (.ok x) → ¬ReportsStale (access place w scope frames a)) ∧
    (∀ key k key' k', a.argument? = some key → w.heap.object? key = some (.key k) →
      w.heap.object? key' = some (.key k') → k'.index = k.index →
      k'.board.board = k.board.board →
      access place w scope frames (a.withArgument key') = access place w scope frames a) ∧
    ∀ m es, m.owner = o.type → operate place w (.send m.name es) [a.subject] scope frames =
      .running w (.give (.builtin (.method m)))
        (.operands .apply [a.subject] es scope :: frames) := by
  refine ⟨fun loan hloan hstale hstrays => ?_, fun c => access_of_strays, fun x hx => ?_,
    fun _ _ _ _ => access_withArgument htyped, fun m es hm => ?_⟩
  · exact (asks_access htyped hstrays (Realm.resolve?_of_stale hloan hstale)).refused _ rfl
  · by_cases hstrays : ∃ c, a.Strays w o c
    · obtain ⟨c, hstrays⟩ := hstrays
      exact not_reportsStale_of_strays hstrays
    · exact (asks_access htyped (not_exists.mp hstrays) hx).granted x rfl
  · have ho : w.heap.object? a.subject = some o := htyped.object
    simp only [operate, List.headD_cons, World.index_method ho hm]
    rfl

/-- A world in which a script has handles on a board and on a group and a key of it that went stale
when the controller was detached, and a handle on a render target that it was given since. -/
def outdated : World :=
  let board := Keyboard.normal [⟨0, 1, "Esc", .zero⟩] [⟨"all", [0]⟩]
  let e := ((Environment.start .empty {}).withHost (Host.empty.addBoard board).2).setBoard 0
  let e := (e.giveObject "g" (.group ⟨⟨0, 0⟩, 0⟩)).giveObject "k" (.key ⟨⟨0, 0⟩, 0⟩)
  let e := e.detach.2
  let e := e.withHost (e.world.host.addTarget (.blank 1)).2
  (e.giveObject "t" (.target ⟨0, 1⟩)).world

/-- The stale board refuses its length, the stale group is silent about a number that is no
position, and the stale key denotes a slot of the render target. -/
theorem access_reports_stale_unless_strays_outdated :
    access .main outdated [] [] (.length (.object 0)) =
      .running outdated (.raise (.call (.staleHandle .board))) [] ∧
    access .main outdated [] [] (.index (.object 1) (.int 0)) =
      .running outdated (.give .nil) [] ∧
    ¬ReportsStale (access .main outdated [] [] (.index (.object 3) (.object 2))) := by
  have hboard : Access.Typed outdated (.board ⟨0, 0⟩) (.length (.object 0)) := .boardLength rfl
  have hgroup : Access.Typed outdated (.group ⟨⟨0, 0⟩, 0⟩) (.index (.object 1) (.int 0)) :=
    .groupItem rfl rfl
  have htarget : Access.Typed outdated (.target ⟨0, 1⟩) (.index (.object 3) (.object 2)) :=
    .targetItem rfl (.inr ⟨_, rfl⟩)
  obtain ⟨hrefused, -⟩ := access_reports_stale_unless_strays hboard
  obtain ⟨-, hsilent, -⟩ := access_reports_stale_unless_strays hgroup
  obtain ⟨-, -, hfound, -⟩ := access_reports_stale_unless_strays htarget
  exact ⟨hrefused _ rfl (.inl (by decide)) nofun, hsilent _ (.groupItem rfl rfl (by decide)),
    hfound (.target ⟨.blank 1, .free⟩) rfl⟩

/-- **Not every access that uses a stale handle reports it.** -/
theorem not_forall_uses_report_stale :
    ¬∀ (w : World) (a : Access) (o used : Object) (v : Value) (loan : Loan), a.Typed w o →
      (v = a.subject ∨ a.argument? = some v) → w.heap.object? v = some used →
      used.loan? = some loan → w.Stale loan → ∀ place scope frames, ∃ type,
        access place w scope frames a =
          .running w (.raise (.call (.staleHandle type))) frames := by
  intro h
  have htyped : Access.Typed outdated (.target ⟨0, 1⟩) (.index (.object 3) (.object 2)) :=
    .targetItem rfl (.inr ⟨_, rfl⟩)
  have hstale : outdated.Stale (BoardHandle.loan ⟨0, 0⟩) := .inl (by decide)
  obtain ⟨type, hreported⟩ := h outdated _ _ (.key ⟨⟨0, 0⟩, 0⟩) (.object 2) _ htyped (.inr rfl) rfl
    rfl hstale .main [] []
  cases hreported

end Machine

end KeyLight
