import KeyLight.Realm.Basic

/-!
# Access through handles

A handle gives access while its lease lasts, that is, in the generation in which it was made, and
while the host keeps the thing behind it. Every access asks again. A render target that the host is
using itself is busy: it can be read while the host reads it, and not at all while the host writes
it.

`Heap.check` reads a native value off an argument.
-/

namespace KeyLight

/-- The native value that an argument holds, which has to be of the type `α`. -/
def Heap.check {α : Type} [Exposed α] (h : Heap) (argument : Option Value) (position : Nat) :
    Except CallError α :=
  match (argument.bind h.object?).bind Exposed.unwrap? with
  | some a => .ok a
  | none => .error (.typeMismatch position (Exposed.type α).name (Value.describe argument))

namespace Realm

/-- Whether a lease lasts. -/
def isLive (r : Realm) (lease : Nat) : Bool := lease == r.context.generation

/-- The board behind a handle. -/
def board (r : Realm) (h : BoardHandle) : Except CallError Keyboard :=
  match r.host.board? h.board with
  | some k => if r.isLive h.lease then .ok k else .error (.staleHandle .board)
  | none => .error (.staleHandle .board)

/-- The group behind a handle. -/
def group (r : Realm) (h : GroupHandle) : Except CallError KeyGroup := do
  match (← r.board h.board).group? h.index with
  | some g => .ok g
  | none => .error (.staleHandle .group)

/-- The key behind a handle. -/
def key (r : Realm) (h : KeyHandle) : Except CallError Key := do
  match (← r.board h.board).key? h.index with
  | some k => .ok k
  | none => .error (.staleHandle .key)

/-- The render target behind a handle, whether or not the host is using it. -/
def hostTarget (r : Realm) (h : TargetHandle) : Except CallError HostTarget :=
  match r.host.target? h.target with
  | some t => if r.isLive h.lease then .ok t else .error (.staleHandle .target)
  | none => .error (.staleHandle .target)

/-- Reads the render target behind a handle. -/
def readTarget (r : Realm) (h : TargetHandle) : Except CallError RenderTarget := do
  let held ← r.hostTarget h
  if held.hold = .writing then .error (.handleBusy .target) else .ok held.target

/-- Changes the render target behind a handle; the host does not change if there is no change. -/
def writeTarget (r : Realm) (h : TargetHandle) (change : RenderTarget → Option RenderTarget) :
    Except CallError (Option Realm) := do
  let held ← r.hostTarget h
  if held.hold = .free then
    .ok ((change held.target).map fun t => { r with host := r.host.setTarget h.target t })
  else .error (.handleBusy .target)

end Realm

end KeyLight
