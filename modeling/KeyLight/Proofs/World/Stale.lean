import KeyLight.Proofs.Host.Change
import KeyLight.World.Text

/-!
# Handles and what they stand for

A handle on a board, a group, a key or a render target is a `Loan` of a thing of the host: it names
the thing and the generation in which it was leased. `Realm.resolve?` asks for what a handle stands
for, as every access does. That fails just if the handle is stale, that is, if its generation is
over or the host has dropped the thing, and otherwise gives what the host has at the place that the
handle names (`resolve?_of_stale`, `resolve?_of_live`).
-/

namespace KeyLight

/-- A thing of the host, lent in one generation. -/
structure Loan where
  thing : Thing
  lease : Nat

/-- The type of the handles on a thing itself. -/
def Thing.type : Thing → ObjectType
  | .board _ => .board
  | .target _ => .target

/-- The loan of a handle on a board. -/
def BoardHandle.loan (h : BoardHandle) : Loan := ⟨.board h.board, h.lease⟩

/-- The loan of a handle on a render target. -/
def TargetHandle.loan (h : TargetHandle) : Loan := ⟨.target h.target, h.lease⟩

/-- The loan that an object is, if it is a handle on something of the host. -/
def Object.loan? : Object → Option Loan
  | .board h => some h.loan
  | .group h => some h.board.loan
  | .key h => some h.board.loan
  | .target h => some h.loan
  | .color _ | .fade _ | .thread _ | .suspension _ => none

/-- What a handle stands for. -/
inductive Referent
  | board (k : Keyboard)
  | group (g : KeyGroup)
  | key (k : Key)
  | target (t : HostTarget)

/-- What the host has at the place that a handle names. -/
def Host.referent? (h : Host) : Object → Option Referent
  | .board b => (h.board? b.board).map .board
  | .group g => ((h.board? g.board.board).bind (·.group? g.index)).map .group
  | .key k => ((h.board? k.board.board).bind (·.key? k.index)).map .key
  | .target t => (h.target? t.target).map .target
  | .color _ | .fade _ | .thread _ | .suspension _ => none

namespace Realm

/-- What a handle gives access to, or why it does not. -/
def resolve? (r : Realm) : Object → Option (Except CallError Referent)
  | .board h => some ((r.board h).map .board)
  | .group h => some ((r.group h).map .group)
  | .key h => some ((r.key h).map .key)
  | .target h => some ((r.hostTarget h).map .target)
  | .color _ | .fade _ | .thread _ | .suspension _ => none

/-- The generation of a loan is over, or the host has dropped the thing. -/
def Stale (r : Realm) (loan : Loan) : Prop :=
  loan.lease ≠ r.context.generation ∨ ¬r.host.Has loan.thing

variable {r : Realm} {o : Object} {loan : Loan} {x : Referent}

theorem not_stale_iff : ¬r.Stale loan ↔
    loan.lease = r.context.generation ∧ r.host.Has loan.thing := by
  rw [Stale, not_or, Classical.not_not, Classical.not_not]

/-! ### Stale handles -/

theorem board_of_stale {h : BoardHandle} (hstale : r.Stale h.loan) :
    r.board h = .error (.staleHandle .board) := by
  unfold board
  split
  · rename_i k hk
    obtain hover | hlost := hstale
    · simp [isLive, show h.lease ≠ r.context.generation from hover]
    · exact absurd (Option.isSome_iff_exists.mpr ⟨k, hk⟩) hlost
  · rfl

theorem group_of_stale {h : GroupHandle} (hstale : r.Stale h.board.loan) :
    r.group h = .error (.staleHandle .board) := by
  unfold group
  rw [board_of_stale hstale]
  rfl

theorem key_of_stale {h : KeyHandle} (hstale : r.Stale h.board.loan) :
    r.key h = .error (.staleHandle .board) := by
  unfold key
  rw [board_of_stale hstale]
  rfl

theorem hostTarget_of_stale {h : TargetHandle} (hstale : r.Stale h.loan) :
    r.hostTarget h = .error (.staleHandle .target) := by
  unfold hostTarget
  split
  · rename_i t ht
    obtain hover | hlost := hstale
    · simp [isLive, show h.lease ≠ r.context.generation from hover]
    · exact absurd (Option.isSome_iff_exists.mpr ⟨t, ht⟩) hlost
  · rfl

theorem readTarget_of_stale {h : TargetHandle} (hstale : r.Stale h.loan) :
    r.readTarget h = .error (.staleHandle .target) := by
  unfold readTarget
  rw [hostTarget_of_stale hstale]
  rfl

theorem writeTarget_of_stale {h : TargetHandle} (hstale : r.Stale h.loan)
    (change : RenderTarget → Option RenderTarget) :
    r.writeTarget h change = .error (.staleHandle .target) := by
  unfold writeTarget
  rw [hostTarget_of_stale hstale]
  rfl

/-- **Nothing is found through a stale handle.** -/
theorem resolve?_of_stale (hloan : o.loan? = some loan) (hstale : r.Stale loan) :
    r.resolve? o = some (.error (.staleHandle loan.thing.type)) := by
  cases o with
  | board h =>
    obtain rfl := Option.some.inj hloan
    exact congrArg (fun found => some (Except.map Referent.board found)) (board_of_stale hstale)
  | group h =>
    obtain rfl := Option.some.inj hloan
    exact congrArg (fun found => some (Except.map Referent.group found)) (group_of_stale hstale)
  | key h =>
    obtain rfl := Option.some.inj hloan
    exact congrArg (fun found => some (Except.map Referent.key found)) (key_of_stale hstale)
  | target h =>
    obtain rfl := Option.some.inj hloan
    exact congrArg (fun found => some (Except.map Referent.target found))
      (hostTarget_of_stale hstale)
  | color | fade | thread | suspension => cases hloan

/-! ### Live handles -/

theorem board_of_live {h : BoardHandle} {k : Keyboard}
    (hlive : h.lease = r.context.generation) (hk : r.host.board? h.board = some k) :
    r.board h = .ok k := by
  simp [board, hk, isLive, hlive]

theorem hostTarget_of_live {h : TargetHandle} {t : HostTarget}
    (hlive : h.lease = r.context.generation) (ht : r.host.target? h.target = some t) :
    r.hostTarget h = .ok t := by
  simp [hostTarget, ht, isLive, hlive]

theorem group_of_live {h : GroupHandle} {k : Keyboard} {g : KeyGroup}
    (hlive : h.board.lease = r.context.generation) (hk : r.host.board? h.board.board = some k)
    (hg : k.group? h.index = some g) : r.group h = .ok g := by
  simp only [group, board_of_live hlive hk, bind, Except.bind, hg]

theorem key_of_live {h : KeyHandle} {k : Keyboard} {key : Key}
    (hlive : h.board.lease = r.context.generation) (hk : r.host.board? h.board.board = some k)
    (hkey : k.key? h.index = some key) : r.key h = .ok key := by
  simp only [Realm.key, board_of_live hlive hk, bind, Except.bind, hkey]

/-- **A live handle gives access to what the host has at its place.** -/
theorem resolve?_of_live (hloan : o.loan? = some loan) (hlive : loan.lease = r.context.generation)
    (hx : r.host.referent? o = some x) : r.resolve? o = some (.ok x) := by
  cases o with
  | board h =>
    obtain rfl := Option.some.inj hloan
    obtain ⟨k, hk, rfl⟩ := Option.map_eq_some_iff.mp hx
    exact congrArg (fun found => some (Except.map Referent.board found)) (board_of_live hlive hk)
  | group h =>
    obtain rfl := Option.some.inj hloan
    obtain ⟨g, hg, rfl⟩ := Option.map_eq_some_iff.mp hx
    obtain ⟨k, hk, hg⟩ := Option.bind_eq_some_iff.mp hg
    exact congrArg (fun found => some (Except.map Referent.group found)) (group_of_live hlive hk hg)
  | key h =>
    obtain rfl := Option.some.inj hloan
    obtain ⟨key, hkey, rfl⟩ := Option.map_eq_some_iff.mp hx
    obtain ⟨k, hk, hkey⟩ := Option.bind_eq_some_iff.mp hkey
    exact congrArg (fun found => some (Except.map Referent.key found)) (key_of_live hlive hk hkey)
  | target h =>
    obtain rfl := Option.some.inj hloan
    obtain ⟨t, ht, rfl⟩ := Option.map_eq_some_iff.mp hx
    exact congrArg (fun found => some (Except.map Referent.target found))
      (hostTarget_of_live hlive ht)
  | color | fade | thread | suspension => cases hloan

end Realm

namespace World

variable {w : World} {v : Value} {o : Object} {loan : Loan}

/-- A value is a stale handle. -/
structure Refuses (w : World) (v : Value) (o : Object) (loan : Loan) : Prop where
  object : w.heap.object? v = some o
  lent : o.loan? = some loan
  stale : w.Stale loan

/-- **A stale handle has no text.** -/
theorem Refuses.text (h : w.Refuses v o loan) :
    w.text v = .error (.staleHandle loan.thing.type) := by
  obtain ⟨ho, hloan, hstale⟩ := h
  have hobject : w.objectText o = .error (.staleHandle loan.thing.type) := by
    cases o with
    | board h =>
      obtain rfl := Option.some.inj hloan
      simp only [objectText, Realm.board_of_stale hstale]
      rfl
    | group h =>
      obtain rfl := Option.some.inj hloan
      simp only [objectText, Realm.group_of_stale hstale]
      rfl
    | key h =>
      obtain rfl := Option.some.inj hloan
      simp only [objectText, Realm.key_of_stale hstale]
      rfl
    | target h =>
      obtain rfl := Option.some.inj hloan
      simp only [objectText, Realm.readTarget_of_stale hstale]
      rfl
    | color | fade | thread | suspension => cases hloan
  cases v with
  | object id =>
    simp only [World.text, show w.heap.objects[id]? = some o from ho, hobject]
    rfl
  | nil | bool | int | float | text | table | closure | builtin => cases ho

end World

end KeyLight
