import KeyLight.Color.Palette
import KeyLight.Layout.Keyboard
import KeyLight.Layout.Target

/-!
# What the host owns

The host owns controllers, boards and render targets. Scripts reach them only through the attached
controller and through handles, and the host may drop any of them at any time. Each is named by its
place in a row that only grows, so a name is never given to a second thing; what is dropped is gone
from its place.
-/

namespace KeyLight

/-- The side of the device that an environment talks to. It receives the texts that scripts print
and resolves descriptions of colours, in whatever way it likes. -/
structure Controller where
  /-- The colour of a description. -/
  parseColor? : String → Option Rgba

namespace Controller

/-- A controller that resolves literals only. -/
def literal : Controller := ⟨Rgba.parse?⟩

/-- A controller that resolves the names of a palette, too. -/
def palette (p : Palette) : Controller := ⟨p.parse?⟩

@[simp] theorem parseColor?_palette (p : Palette) (text : String) :
    (palette p).parseColor? text = p.parse? text := rfl

end Controller

/-- How the host itself is using a render target. -/
inductive Hold
  | free
  | reading
  | writing
  deriving Repr, DecidableEq

/-- A render target and how the host is using it. -/
structure HostTarget where
  target : RenderTarget
  hold : Hold
  deriving Repr, DecidableEq

/-- The things of the host. -/
structure Host where
  controllers : Array (Option Controller)
  boards : Array (Option Keyboard)
  targets : Array (Option HostTarget)

namespace Host

def empty : Host := ⟨#[], #[], #[]⟩

/-- The controller of a number, if the host still has it. -/
def controller? (h : Host) (id : Nat) : Option Controller := h.controllers[id]?.join

/-- The board of a number, if the host still has it. -/
def board? (h : Host) (id : Nat) : Option Keyboard := h.boards[id]?.join

/-- The render target of a number, if the host still has it. -/
def target? (h : Host) (id : Nat) : Option HostTarget := h.targets[id]?.join

def addController (h : Host) (c : Controller) : Nat × Host :=
  (h.controllers.size, { h with controllers := h.controllers.push (some c) })

def dropController (h : Host) (id : Nat) : Host :=
  { h with controllers := h.controllers.setIfInBounds id none }

def addBoard (h : Host) (k : Keyboard) : Nat × Host :=
  (h.boards.size, { h with boards := h.boards.push (some k) })

def dropBoard (h : Host) (id : Nat) : Host :=
  { h with boards := h.boards.setIfInBounds id none }

def addTarget (h : Host) (t : RenderTarget) : Nat × Host :=
  (h.targets.size, { h with targets := h.targets.push (some ⟨t, .free⟩) })

def dropTarget (h : Host) (id : Nat) : Host :=
  { h with targets := h.targets.setIfInBounds id none }

/-- Gives a render target that the host has new colours. -/
def setTarget (h : Host) (id : Nat) (t : RenderTarget) : Host :=
  match h.target? id with
  | some held => { h with targets := h.targets.setIfInBounds id (some { held with target := t }) }
  | none => h

/-- Takes a render target into use by the host, or frees it. -/
def holdTarget (h : Host) (id : Nat) (hold : Hold) : Host :=
  match h.target? id with
  | some held => { h with targets := h.targets.setIfInBounds id (some { held with hold }) }
  | none => h

end Host

end KeyLight
