import KeyLight.Proofs.Native.Effect
import KeyLight.Proofs.World.Change
import KeyLight.World.Thread

/-!
# What does not depend on global variables

`World.withGlobals` binds all global variables anew. A capability is a value, and to call it no name
is looked up, neither its own nor that of anything it makes use of: the call comes to the same
value, fault or suspension of the caller, and changes the rest of the world in the same way,
whatever the names are bound to (`call_capability_withGlobals`).

The same goes for a thread whose routine is a capability, from its first turn to its last
(`resumeThread_withGlobals`), even if the names are bound anew while it waits.
-/

namespace KeyLight

variable {w : World} {g : List (String × Value)}

/-- The realm with other global variables. -/
def Realm.withGlobals (r : Realm) (g : List (String × Value)) : Realm := { r with globals := g }

namespace World

/-- The world with other global variables. -/
def withGlobals (w : World) (g : List (String × Value)) : World := { w with globals := g }

/-! ### Functions of the host -/

theorem text_withGlobals (v : Value) : (w.withGlobals g).text v = w.text v := by
  cases v with
  | object id =>
    simp only [text, show (w.withGlobals g).heap = w.heap from rfl]
    cases w.heap.objects[id]? with
    | none => rfl
    | some o => cases o <;> rfl
  | nil | bool | int | float | text | table | closure | builtin => rfl

theorem joinTexts_withGlobals (vs : List Value) :
    Capability.joinTexts (w.withGlobals g) vs = Capability.joinTexts w vs := by
  induction vs with
  | nil => rfl
  | cons v vs ih => simp only [Capability.joinTexts, text_withGlobals, ih]

/-- What a capability makes of its arguments. -/
theorem effect_withGlobals (c : Capability) (s : Stack) :
    c.effect (w.withGlobals g) s = c.effect w s := by
  cases c with
  | print =>
    simp only [Capability.effect, joinTexts_withGlobals]
    rfl
  | tocolor | fade | thread | wait | now => rfl

/-- What an effect does to the rest of the world. -/
theorem perform_withGlobals (effect : Effect) (s : Stack) :
    effect.perform (w.withGlobals g) s =
      ((effect.perform w s).1.withGlobals g, (effect.perform w s).2) := by
  cases effect <;> rfl

theorem entryPoint_withGlobals (c : Capability) (args : List Value) :
    entryPoint c.body (w.withGlobals g) args =
      ((entryPoint c.body w args).1, (entryPoint c.body w args).2.withGlobals g) := by
  rw [entryPoint_body, entryPoint_body, effect_withGlobals]
  cases c.effect w (.ofArguments args) with
  | error f => rfl
  | ok effect => simp only [perform_withGlobals]

/-- No capability binds a global variable. -/
theorem globals_entryPoint (c : Capability) (args : List Value) :
    (entryPoint c.body w args).2.globals = w.globals := by
  rw [entryPoint_body]
  cases c.effect w (.ofArguments args) with
  | error f => rfl
  | ok effect => cases effect <;> rfl

end World

namespace Machine

open World (withGlobals)

variable {place : Place} {frames : List Frame}

/-! ### Calls -/

/-- What the call of a capability comes to, in the world after it: a value or a fault for the
caller, or the suspension of the caller. -/
inductive Replies (w : World) (frames : List Frame) : Next → Prop
  | give (v : Value) : Replies w frames (.running w (.give v) frames)
  | raise (f : Fault) : Replies w frames (.running w (.raise f) frames)
  | yield (vs kept : List Value) : Replies w frames (.halted w (.yielded vs frames kept))

theorem replies_callCapability (place : Place) (w : World) (c : Capability) (args : List Value)
    (frames : List Frame) :
    Replies (entryPoint c.body w args).2 frames (callCapability place w c args frames) := by
  unfold callCapability
  obtain ⟨result, w'⟩ := entryPoint c.body w args
  cases result with
  | error f => exact .raise f
  | ok results =>
    cases c with
    | wait =>
      cases place with
      | main => exact .raise _
      | thread => exact .yield results args
    | print | tocolor | fade | thread | now => exact .give _

theorem Replies.world_eq {next : Next} (h : Replies w frames next) : next.world = w := by
  cases h <;> rfl

/-- **The call of a capability does not depend on global variables.** -/
theorem call_capability_withGlobals (c : Capability) (args : List Value) :
    call place (w.withGlobals g) (.builtin (.capability c)) args frames =
      (call place w (.builtin (.capability c)) args frames).mapWorld (·.withGlobals g) := by
  simp only [call, callCapability, World.entryPoint_withGlobals]
  obtain ⟨result, w'⟩ := entryPoint c.body w args
  cases result with
  | error f => rfl
  | ok results =>
    cases c with
    | wait => cases place <;> rfl
    | print | tocolor | fade | thread | now => rfl

/-- **And it leaves them as they are.** -/
theorem globals_call_capability (c : Capability) (args : List Value) :
    (call place w (.builtin (.capability c)) args frames).world.globals = w.globals := by
  have hworld := (replies_callCapability place w c args frames).world_eq
  exact (congrArg (·.globals) hworld).trans (World.globals_entryPoint c args)

/-- If there is nothing else to do, the run is over in one step. -/
theorem run_withGlobals {next : Next} (h : Replies w [] next) (fuel : Nat) :
    run place fuel (next.mapWorld (·.withGlobals g)) =
      (run place fuel next).map fun (halt, w) => (halt, w.withGlobals g) := by
  cases h with
  | give v | raise f =>
    cases fuel with
    | zero => rfl
    | succ fuel => cases fuel <;> rfl
  | yield vs kept => cases fuel <;> rfl

/-- Nothing is left to do after the suspension either. -/
theorem Replies.yielded_nil {next : Next} (h : Replies w [] next) {fuel : Nat}
    {vs kept : List Value} {w' : World}
    (hrun : run place fuel next = some (.yielded vs frames kept, w')) : frames = [] := by
  cases h with
  | give v | raise f =>
    cases fuel with
    | zero => cases hrun
    | succ fuel => cases fuel <;> cases hrun
  | yield vs kept =>
    cases fuel <;>
    · obtain ⟨hhalt, -⟩ := Prod.mk.inj (Option.some.inj hrun)
      exact (Halt.yielded.inj hhalt).2.1.symm

/-- A call from outside. -/
theorem runCall_withGlobals (c : Capability) (args : List Value) (fuel : Nat) :
    runCall fuel (w.withGlobals g) (.builtin (.capability c)) args =
      (runCall fuel w (.builtin (.capability c)) args).map
        fun (halt, w) => (halt, w.withGlobals g) := by
  unfold runCall
  rw [call_capability_withGlobals]
  exact run_withGlobals (replies_callCapability ..) fuel

end Machine

/-! ### Threads -/

/-- What is left to do for a thread whose routine is a capability: to call it, or to return after
it has waited. -/
inductive Coroutine.IsNative : Coroutine → Prop
  | fresh (c : Capability) (args : List Value) : IsNative (.fresh (.builtin (.capability c)) args)
  | waited (kept : List Value) : IsNative (.suspended [] kept)

namespace Coroutine.IsNative

variable {routine : Coroutine} {fuel : Nat}

theorem runCoroutine (h : routine.IsNative) (w : World) (g : List (String × Value)) (fuel : Nat) :
    ∃ w' next, Machine.Replies w' [] next ∧
      Machine.runCoroutine fuel w routine = Machine.run .thread fuel next ∧
      Machine.runCoroutine fuel (w.withGlobals g) routine =
        Machine.run .thread fuel (next.mapWorld (·.withGlobals g)) := by
  cases h with
  | fresh c args =>
    refine ⟨_, _, Machine.replies_callCapability .thread w c args [], ?_, ?_⟩
    · unfold Machine.runCoroutine
      rw [Coroutine.passed_fresh]
      rfl
    · unfold Machine.runCoroutine
      rw [Coroutine.passed_fresh]
      exact congrArg (Machine.run .thread fuel) (Machine.call_capability_withGlobals c args)
  | waited kept => exact ⟨w, _, .give .nil, rfl, rfl⟩

end Coroutine.IsNative

namespace World

variable {routine : Coroutine} {fuel : Nat} {id : ThreadId} {r : Realm}
  {s : Scheduler Coroutine}

/-- **The turn of such a thread does not depend on global variables.** -/
theorem resumeThread_withGlobals (h : routine.IsNative) :
    resumeThread fuel id routine (r.withGlobals g) s =
      (resumeThread fuel id routine r s).map fun (o, r, s) => (o, r.withGlobals g, s) := by
  obtain ⟨_, next, hreplies, hrun, hrun'⟩ := h.runCoroutine ⟨r, s⟩ g fuel
  have hrun' : Machine.runCoroutine fuel ⟨r.withGlobals g, s⟩ routine = _ :=
    hrun'.trans (Machine.run_withGlobals hreplies fuel)
  unfold resumeThread
  rw [hrun', hrun]
  cases Machine.run .thread fuel next with
  | none => rfl
  | some stop =>
    obtain ⟨halt, w⟩ := stop
    simp only [Option.map_some, show (w.withGlobals g).heap = w.heap from rfl]
    cases outcome w.heap halt <;> rfl

/-- If it suspends itself, it is such a thread when it goes on. -/
theorem isNative_of_resumeThread (h : routine.IsNative) {seconds : Float} {routine' : Coroutine}
    {r' : Realm} {s' : Scheduler Coroutine}
    (hresume : resumeThread fuel id routine r s = some (.suspended seconds routine', r', s')) :
    routine'.IsNative := by
  obtain ⟨w', next, hreplies, hrun, -⟩ := h.runCoroutine ⟨r, s⟩ [] fuel
  unfold resumeThread at hresume
  rw [hrun] at hresume
  cases hstop : Machine.run .thread fuel next with
  | none => simp [hstop] at hresume
  | some stop =>
    obtain ⟨halt, w⟩ := stop
    simp only [hstop, Option.some.injEq, Prod.mk.injEq] at hresume
    have hsuspended : outcome w.heap halt = .suspended seconds routine' := hresume.1
    cases halt with
    | returned v | raised f => cases hsuspended
    | yielded vs frames kept =>
      obtain rfl := hreplies.yielded_nil hstop
      simp only [outcome] at hsuspended
      split at hsuspended
      · obtain ⟨-, rfl⟩ := Outcome.suspended.inj hsuspended
        exact .waited kept
      · cases hsuspended

end World

end KeyLight
