import KeyLight.Proofs.Environment.Lease
import KeyLight.Proofs.Machine.Globals

/-!
# Global variables bound anew

The table of information is known to the realm and not found by its name, so attaching a controller
and giving a board write the table that the name `keyfx` was bound to at the start (`Service.home`),
whatever it is bound to now. Together with what is known of capabilities, nothing that the host
gives to scripts is changed by what they do to the names (`capabilities_ignore_globals`).
-/

namespace KeyLight

namespace World

variable {w w' : World}

theorem Stir.home (h : w.Stir w') : w'.home = w.home := by
  cases h with
  | act h => exact h.spares.home
  | rest _ _ hhome _ => exact hhome

theorem Moves.home (h : w.Moves w') : w'.home = w.home := by
  induction h with
  | refl => rfl
  | tail _ hmove ih =>
    refine Eq.trans ?_ ih
    cases hmove with
    | stir h => exact h.home
    | lend | host => rfl

end World

namespace Environment

variable {e e' : Environment} {g : List (String × Value)}

/-- The environment with other global variables. -/
def withGlobals (e : Environment) (g : List (String × Value)) : Environment :=
  { e with world := e.world.withGlobals g }

/-! ### The table of information -/

theorem Serves.home {call : HostCall} (h : e.Serves call e') : e'.world.home = e.world.home := by
  by_cases hcall : call = .detach
  · subst hcall
    cases h
    rfl
  · exact (h.moves hcall).home

/-- **The table of information stays the same one.** -/
theorem Service.home {calls : List HostCall} (h : e.Service calls e') :
    e'.world.home = e.world.home := by
  induction h with
  | nil => rfl
  | snoc _ hcall ih => exact hcall.home.trans ih

theorem publish_withGlobals (e : Environment) :
    (e.withGlobals g).publish = e.publish.withGlobals g := by
  obtain ⟨world, config, board, lastRender⟩ := e
  cases board with
  | none => rfl
  | some id =>
    simp only [publish, withGlobals, show (world.withGlobals g).host = world.host from rfl]
    split <;> rfl

theorem attach_withGlobals (e : Environment) (id : Nat) :
    (e.withGlobals g).attach id = (e.attach id).withGlobals g :=
  congrArg (fun e => e.withRealm (e.world.note .attached))
    (publish_withGlobals (e.withContext { e.world.context with controller := some id }))

theorem setBoard_withGlobals (e : Environment) (id : Nat) :
    (e.withGlobals g).setBoard id = (e.setBoard id).withGlobals g :=
  publish_withGlobals { e with board := some id }

/-- What scripts are shown is read off the table and not off its name. -/
theorem showsBoard_withGlobals {board? : Option Nat} :
    (e.withGlobals g).ShowsBoard board? ↔ e.ShowsBoard board? := Iff.rfl

/-- **What scripts do to the names of capabilities changes nothing for the capabilities.**

In every world, with all global variables bound anew, the call of a capability with the same
arguments comes to the same value, fault or suspension of the caller and leaves behind the same
heap, journal, host and threads, and the global variables as they are. The same goes for a call by
the host and for each turn of a thread whose routine is a capability, also after it has waited.

In every environment, attaching a controller and giving a board do the same, too: they show the
board in the table that the name `keyfx` was bound to at the start. -/
theorem capabilities_ignore_globals {config : Config} {calls : List HostCall}
    (h : (start .empty config).Service calls e) (g : List (String × Value)) :
    (∀ (w : World) (c : Capability) (args : List Value),
      (∀ place frames,
        Machine.call place (w.withGlobals g) (.builtin (.capability c)) args frames =
          (Machine.call place w (.builtin (.capability c)) args frames).mapWorld
            fun w => w.withGlobals g) ∧
      (∀ place frames, (Machine.call place w (.builtin (.capability c)) args frames).world.globals =
        w.globals) ∧
      ∀ fuel, Machine.runCall fuel (w.withGlobals g) (.builtin (.capability c)) args =
        (Machine.runCall fuel w (.builtin (.capability c)) args).map
          fun (halt, w) => (halt, w.withGlobals g)) ∧
    (∀ (routine : Coroutine), routine.IsNative → ∀ fuel id r s,
      World.resumeThread fuel id routine (r.withGlobals g) s =
        (World.resumeThread fuel id routine r s).map (fun (o, r, s) => (o, r.withGlobals g, s)) ∧
      ∀ seconds routine' r' s',
        World.resumeThread fuel id routine r s = some (.suspended seconds routine', r', s') →
        routine'.IsNative) ∧
    (start .empty config).world.global "keyfx" = .table e.world.home ∧
    (∀ id, (e.withGlobals g).attach id = (e.attach id).withGlobals g ∧
      (e.attach id).world.home = e.world.home ∧
      ((e.withGlobals g).attach id).ShowsBoard e.board) ∧
    ∀ id, (e.withGlobals g).setBoard id = (e.setBoard id).withGlobals g ∧
      (e.setBoard id).world.home = e.world.home ∧
      ((e.withGlobals g).setBoard id).ShowsBoard (some id) := by
  obtain ⟨first, hw⟩ := h.exists_leases (leases_start config)
  refine ⟨fun w c args => ⟨fun place frames => ?_, fun place frames => ?_, fun fuel => ?_⟩,
    fun routine hroutine fuel id r s => ⟨?_, fun seconds routine' r' s' hresume => ?_⟩, ?_,
    fun id => ⟨attach_withGlobals e id, ?_, ?_⟩, fun id => ⟨setBoard_withGlobals e id, ?_, ?_⟩⟩
  · exact Machine.call_capability_withGlobals c args
  · exact Machine.globals_call_capability c args
  · exact Machine.runCall_withGlobals c args fuel
  · exact World.resumeThread_withGlobals hroutine
  · exact World.isNative_of_resumeThread hroutine hresume
  · rw [h.home]
    rfl
  · exact (moves_publish (e.withContext { e.world.context with controller := some id })).home
  · rw [attach_withGlobals, showsBoard_withGlobals]
    exact showsBoard_publish (e := e.withContext { e.world.context with controller := some id })
      hw.home
  · exact (moves_publish { e with board := some id }).home
  · rw [setBoard_withGlobals, showsBoard_withGlobals]
    exact showsBoard_publish (e := { e with board := some id }) hw.home

/-- With other values under the names of the capability to print, of the conversion to text and of
the table, a value that is printed reaches the controller, and a board that is given shows in the
table. -/
theorem capabilities_ignore_globals_rebound :
    let e := (boarded.withHost (boarded.world.host.addController .literal).2).attach 0
    let g : List (String × Value) := [("print", .nil), ("tostring", .nil), ("keyfx", .bool false)]
    (Machine.call .main (e.world.withGlobals g) (.builtin (.capability .print)) [.bool true]
      []).world.journal = #[.attached, @Notice.printed 0 "true"] ∧
    ((e.withGlobals g).setBoard 0).ShowsBoard (some 0) := by
  intro e g
  have hservice := (service_boarded.snoc (.withHost (.addController .literal))).snoc (.attach 0)
  obtain ⟨hcalls, -, -, -, hboards⟩ := capabilities_ignore_globals hservice g
  obtain ⟨hcall, -, -⟩ := hcalls e.world .print [.bool true]
  refine ⟨?_, (hboards 0).2.2⟩
  rw [hcall .main [], Next.world_mapWorld]
  decide +kernel

end Environment

end KeyLight
