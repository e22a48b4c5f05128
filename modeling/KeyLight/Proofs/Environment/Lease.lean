import KeyLight.Proofs.Environment.Calls
import KeyLight.Proofs.Machine.Replace
import KeyLight.Proofs.World.Lease

/-!
# Handles in the hands of scripts

`Service` is a row of calls of the host, in which each call is told apart by what it means to the
handles that scripts hold: attaching or detaching a controller, giving a board, or none of these.
Every call but a detachment moves the world in one generation (`Serves.moves`), and a detachment
ends all leases (`Service.expired`).

So a handle that has become stale stays stale and gives no access, and one that was leased since the
last detachment stands for the thing that it names as long as the host has it
(`stale_handles_give_no_access`).
-/

namespace KeyLight

namespace Table

/-- A text is a field of a table, never one of its items. -/
theorem put?_text (t : Table) (name : Bytes) (v : Value) :
    t.put? (.text name) v = some { t with fields := putField t.fields (.text name) v } := by
  simp only [put?, key?, slot?]
  split
  · rename_i hextends
    simp [extends?, position] at hextends
  · rfl

/-- What is put at a text is found there. -/
theorem get_putField_text (t : Table) (name : Bytes) (v : Value) :
    Table.get { t with fields := putField t.fields (.text name) v } (.text name) = v := by
  simp only [get, key?, slot?, field, putField]
  split
  · rename_i hnil
    have hnone : (t.fields.filter (·.1 != .text name)).lookup (.text name) = none := by
      rw [List.lookup_eq_none_iff]
      intro entry hentry
      have hne := bne_iff_ne.mp (List.mem_filter.mp hentry).2
      exact bne_iff_ne.mpr (Ne.symm hne)
    rw [hnone, hnil]
    rfl
  · rw [List.lookup_cons_self, Option.getD_some]

end Table

namespace Environment

open World (Move Stir)

variable {e e' : Environment} {fuel first : Nat}

/-- What a call of the host means to handles. -/
inductive HostCall
  | attach
  | detach
  | setBoard (id : Nat)
  | other
  deriving DecidableEq

/-- The board that a call gives to scripts. -/
def HostCall.board? : HostCall → Option Nat
  | .setBoard id => some id
  | .attach | .detach | .other => none

/-- A call of the host. It passes on boards and render targets that it has, and the handles that it
gives scripts itself are leased then. -/
inductive Serves (e : Environment) : HostCall → Environment → Prop
  | attach (id : Nat) : Serves e .attach (e.attach id)
  | detach : Serves e .detach e.detach.2
  | setBoard {id : Nat} (hid : e.world.host.Has (.board id)) :
      Serves e (.setBoard id) (e.setBoard id)
  | withHost {host : Host} (h : e.world.host.Change host) : Serves e .other (e.withHost host)
  | setGlobal (name : String) (v : Value) : Serves e .other (e.setGlobal name v)
  | giveObject (name : String) {o : Object} (ho : e.world.Lends o) :
      Serves e .other (e.giveObject name o)
  | collect : Serves e .other e.collect
  | takeFailures : Serves e .other e.takeFailures.2
  | spawn {f v : Value} {args : List Value} {form : World.HandleForm} {w : World}
      (h : e.world.spawn f args form = .ok (v, w)) : Serves e .other { e with world := w }
  | load {fuel : Nat} {script : List Stmt} {result : Except HostError Unit} {e' : Environment}
      (h : e.load fuel script = some (result, e')) : Serves e .other e'
  | evaluate {fuel : Nat} {expr : Expr} {result : Except HostError Value} {e' : Environment}
      (h : e.evaluate fuel expr = some (result, e')) : Serves e .other e'
  | invoke {fuel : Nat} {name : String} {args : List Value} {result : Except HostError Bool}
      {e' : Environment} (h : e.invoke fuel name args = some (result, e')) : Serves e .other e'
  | resumeDue {fuel : Nat} {now : Float} {result : Except HostError TickSummary}
      {e' : Environment} (h : e.resumeDue fuel now = some (result, e')) : Serves e .other e'
  | tick {fuel : Nat} {now : Float} {result : Except HostError TickSummary} {e' : Environment}
      (h : e.tick fuel now = some (result, e')) : Serves e .other e'
  | render {fuel : Nat} {now : Float} {target : Nat} {result : Except HostError Bool}
      {e' : Environment} (htarget : e.world.host.Has (.target target))
      (h : e.render fuel now target = some (result, e')) : Serves e .other e'
  | keyEvent {fuel index : Nat} {pressed : Bool} {result : Except HostError Bool}
      {e' : Environment} (h : e.keyEvent fuel index pressed = some (result, e')) :
      Serves e .other e'

/-- Calls of the host, one after the other. -/
inductive Service (e : Environment) : List HostCall → Environment → Prop
  | nil : Service e [] e
  | snoc {calls : List HostCall} {call : HostCall} {e' e'' : Environment}
      (h : Service e calls e') (hcall : e'.Serves call e'') : Service e (calls ++ [call]) e''

/-! ### Calls move the world -/

theorem stirs_load {script : List Stmt} {result : Except HostError Unit}
    (h : e.load fuel script = some (result, e')) : e.world.Stirs e'.world := by
  obtain rfl | ⟨halt, w, hrun, rfl⟩ := load_cases h
  · exact .refl e'.world
  · exact (Machine.acts_runScript (World.within_true _) hrun).1.stirs

theorem stirs_evaluate {expr : Expr} {result : Except HostError Value}
    (h : e.evaluate fuel expr = some (result, e')) : e.world.Stirs e'.world := by
  obtain ⟨halt, w, hrun, rfl⟩ := evaluate_cases h
  exact (Machine.acts_evaluate (World.within_true _) hrun).1.stirs

theorem stirs_invoke {name : String} {args : List Value} {result : Except HostError Bool}
    (h : e.invoke fuel name args = some (result, e')) : e.world.Stirs e'.world := by
  obtain rfl | ⟨notice, rfl⟩ | ⟨halt, w, hrun, rfl⟩ := invoke_cases h
  · exact .refl e'.world
  · have hnote : e.world.Stir (e.withRealm (e.world.note notice)).world := .rest rfl rfl rfl rfl
    exact hnote.stirs
  · exact (Machine.acts_runCall (World.within_true _) (fun _ _ => trivial) (fun _ _ => trivial)
      hrun).1.stirs

theorem stirs_resumeDue {now : Float} {result : Except HostError TickSummary}
    (h : e.resumeDue fuel now = some (result, e')) : e.world.Stirs e'.world := by
  obtain ⟨⟨answer, w⟩, htick, heq⟩ := Option.map_eq_some_iff.mp h
  obtain ⟨-, rfl⟩ := Prod.mk.inj heq
  exact World.stirs_tick htick

theorem stirs_tick {now : Float} {result : Except HostError TickSummary}
    (h : e.tick fuel now = some (result, e')) : e.world.Stirs e'.world := by
  have hclock : e.world.Stir (e.withContext { e.world.context with clock := now }).world :=
    .rest rfl rfl rfl rfl
  exact hclock.stirs.trans (stirs_resumeDue h)

/-- A handle on a board that the host has, leased now. -/
theorem lends_board {r : Realm} {id : Nat} (hid : r.host.Has (.board id)) :
    r.Lends (.board (r.leaseBoard id)) := by
  intro loan hloan
  obtain rfl := Option.some.inj hloan
  obtain ⟨k, hk⟩ := Option.isSome_iff_exists.mp hid
  exact ⟨rfl, hid, .board k, Option.map_eq_some_iff.mpr ⟨k, hk, rfl⟩⟩

theorem lends_target {r : Realm} {id : Nat} (hid : r.host.Has (.target id)) :
    r.Lends (.target (r.leaseTarget id)) := by
  intro loan hloan
  obtain rfl := Option.some.inj hloan
  obtain ⟨t, ht⟩ := Option.isSome_iff_exists.mp hid
  exact ⟨rfl, hid, .target t, Option.map_eq_some_iff.mpr ⟨t, ht, rfl⟩⟩

theorem moves_offered (e : Environment) : e.world.Moves e.offered.2 := by
  unfold offered
  split
  · split
    · rename_i hhas
      exact (Move.lend (lends_board hhas)).moves
    · exact .refl e.world
  · exact .refl e.world

theorem moves_publish (e : Environment) : e.world.Moves e.publish.world := by
  rw [publish_eq]
  exact (moves_offered e).trans (World.Act.setTable trivial fun _ _ => trivial).acts.stirs.moves

theorem moves_render {now : Float} {target : Nat} {result : Except HostError Bool}
    (htarget : e.world.host.Has (.target target))
    (h : e.render fuel now target = some (result, e')) : e.world.Moves e'.world := by
  obtain ⟨⟨answer, e₁⟩, htick, h⟩ := Option.bind_eq_some_iff.mp h
  have hticked := stirs_tick htick
  cases answer with
  | error error =>
    obtain ⟨-, rfl⟩ := Prod.mk.inj (Option.some.inj h)
    exact hticked.moves
  | ok summary =>
    -- no script drops a target, so there is something to lease
    have hlends := lends_target (hticked.has htarget)
    exact (hticked.moves.trans (Move.lend hlends).moves).trans (stirs_invoke h).moves

theorem moves_keyEvent {index : Nat} {pressed : Bool} {result : Except HostError Bool}
    (h : e.keyEvent fuel index pressed = some (result, e')) : e.world.Moves e'.world := by
  unfold keyEvent at h
  split at h
  · obtain ⟨-, rfl⟩ := Prod.mk.inj (Option.some.inj h)
    exact .refl e.world
  rename_i id _
  split at h
  · rename_i hkey
    obtain ⟨key, hkey⟩ := Option.isSome_iff_exists.mp hkey
    obtain ⟨k, hk, hkey⟩ := Option.bind_eq_some_iff.mp hkey
    have hlends : e.world.Lends (.key ((e.world.leaseBoard id).key index)) := by
      intro loan hloan
      obtain rfl := Option.some.inj hloan
      refine ⟨rfl, Option.isSome_iff_exists.mpr ⟨k, hk⟩, .key key, ?_⟩
      exact Option.map_eq_some_iff.mpr ⟨key, Option.bind_eq_some_iff.mpr ⟨k, hk, hkey⟩, rfl⟩
    exact (Move.lend hlends).moves.trans (stirs_invoke h).moves
  · obtain ⟨-, rfl⟩ := Prod.mk.inj (Option.some.inj h)
    exact .refl e.world

/-- **Every call moves the world**, but for a detachment. -/
theorem Serves.moves {call : HostCall} (h : e.Serves call e') (hcall : call ≠ .detach) :
    e.world.Moves e'.world := by
  cases h with
  | attach id =>
    have hcontext : e.world.Stir
        (e.withContext { e.world.context with controller := some id }).world :=
      .rest rfl rfl rfl rfl
    have hnote (e : Environment) : e.world.Stir (e.withRealm (e.world.note .attached)).world :=
      .rest rfl rfl rfl rfl
    exact (hcontext.stirs.moves.trans (moves_publish _)).trans (hnote _).stirs.moves
  | detach => exact absurd rfl hcall
  | setBoard hid => exact moves_publish { e with board := some _ }
  | withHost h => exact (Move.host h).moves
  | setGlobal name v => exact (World.Act.global name fun _ _ => trivial).acts.stirs.moves
  | giveObject name ho =>
    exact (Move.lend ho).moves.trans (World.Act.global name fun _ _ => trivial).acts.stirs.moves
  | collect | takeFailures =>
    have hrest (s : Scheduler Coroutine) : e.world.Stir { e.world with scheduler := s } :=
      .rest rfl rfl rfl rfl
    exact (hrest _).stirs.moves
  | @spawn f v args form w h =>
    unfold World.spawn at h
    split at h
    · cases form with
      | object =>
        have hacts := ((World.within_true e.world).startThread
          fun n (_ : n ∈ (Coroutine.fresh f args).nodes) => trivial).1
        rw [Except.ok.inj h] at hacts
        exact hacts.stirs.moves
      | number => cases h
    · cases h
  | load h => exact (stirs_load h).moves
  | evaluate h => exact (stirs_evaluate h).moves
  | invoke h => exact (stirs_invoke h).moves
  | resumeDue h => exact (stirs_resumeDue h).moves
  | tick h => exact (stirs_tick h).moves
  | render htarget h => exact moves_render htarget h
  | keyEvent h => exact moves_keyEvent h

/-! ### The end of a generation -/

theorem outlasts_detach (e : Environment) : e.world.Outlasts e.detach.2.world :=
  ⟨Nat.le_succ _, .refl e.world.host, .refl e.world.heap⟩

/-- After a detachment no handle is of the present generation. -/
theorem leases_detach (hw : e.world.Leases first) :
    e.detach.2.world.Leases e.world.heap.objects.size where
  normal := hw.normal
  home := hw.home
  backs := fun n o loan ho hloan => e.outlasts_detach.backs hloan (hw.backs n o loan ho hloan)
  recent := fun _ _ _ hn ho _ =>
    absurd (Array.getElem?_eq_some_iff.mp ho).1 (Nat.not_lt.mpr hn)

theorem Serves.outlasts {call : HostCall} (h : e.Serves call e') :
    e.world.Outlasts e'.world := by
  by_cases hcall : call = .detach
  · subst hcall
    cases h
    exact e.outlasts_detach
  · exact (h.moves hcall).outlasts

theorem Serves.exists_leases {call : HostCall} (h : e.Serves call e')
    (hw : e.world.Leases first) : ∃ first', e'.world.Leases first' := by
  by_cases hcall : call = .detach
  · subst hcall
    cases h
    exact ⟨_, leases_detach hw⟩
  · exact ⟨first, (h.moves hcall).leases hw⟩

namespace Service

variable {calls : List HostCall}

theorem outlasts (h : e.Service calls e') : e.world.Outlasts e'.world := by
  induction h with
  | nil => exact .refl e.world
  | snoc _ hcall ih => exact ih.trans hcall.outlasts

theorem exists_leases (h : e.Service calls e') (hw : e.world.Leases first) :
    ∃ first', e'.world.Leases first' := by
  induction h with
  | nil => exact ⟨first, hw⟩
  | snoc _ hcall ih =>
    obtain ⟨first', hleases⟩ := ih
    exact hcall.exists_leases hleases

/-- Without a detachment the handles of the present generation go on being so. -/
theorem moves (h : e.Service calls e') (hcalls : .detach ∉ calls) : e.world.Moves e'.world := by
  induction h with
  | nil => exact .refl e.world
  | snoc _ hcall ih =>
    obtain ⟨hearlier, hlast⟩ := not_or.mp (mt List.mem_append.mpr hcalls)
    refine (ih hearlier).trans (hcall.moves ?_)
    exact fun heq => hlast (List.mem_singleton.mpr heq.symm)

/-- **A detachment ends all leases.** -/
theorem expired (h : e.Service calls e') (hw : e.world.Leases first) (hcalls : .detach ∈ calls)
    {n : Nat} {o : Object} {loan : Loan} (ho : e.world.heap.objects[n]? = some o)
    (hloan : o.loan? = some loan) : e'.world.Expired loan := by
  induction h with
  | nil => cases hcalls
  | snoc hrun hcall ih =>
    obtain hearlier | hlast := List.mem_append.mp hcalls
    · exact (ih hearlier).later hcall.outlasts
    · obtain rfl := List.mem_singleton.mp hlast
      cases hcall
      have hbacks := hrun.outlasts.backs hloan (hw.backs n o loan ho hloan)
      exact .inl (Nat.lt_succ_of_le hbacks.lease)

end Service

/-! ### The board that scripts are shown -/

theorem board_of_invoke {name : String} {args : List Value} {result : Except HostError Bool}
    (h : e.invoke fuel name args = some (result, e')) : e'.board = e.board := by
  obtain rfl | ⟨notice, rfl⟩ | ⟨halt, w, -, rfl⟩ := invoke_cases h <;> rfl

theorem board_of_resumeDue {now : Float} {result : Except HostError TickSummary}
    (h : e.resumeDue fuel now = some (result, e')) : e'.board = e.board := by
  obtain ⟨⟨answer, w⟩, -, heq⟩ := Option.map_eq_some_iff.mp h
  obtain ⟨-, rfl⟩ := Prod.mk.inj heq
  rfl

theorem board_of_tick {now : Float} {result : Except HostError TickSummary}
    (h : e.tick fuel now = some (result, e')) : e'.board = e.board :=
  board_of_resumeDue (e := e.withContext { e.world.context with clock := now }) h

theorem board_publish (e : Environment) : e.publish.board = e.board := by
  rw [publish_eq]

/-- The board of an environment is the one that it was given last. -/
theorem Serves.board_eq {call : HostCall} (h : e.Serves call e') :
    e'.board = call.board?.or e.board := by
  cases h with
  | attach id => exact board_publish (e.withContext { e.world.context with controller := some id })
  | setBoard hid => exact board_publish { e with board := some _ }
  | load h => obtain rfl | ⟨halt, w, -, rfl⟩ := load_cases h <;> rfl
  | evaluate h =>
    obtain ⟨halt, w, -, rfl⟩ := evaluate_cases h
    rfl
  | invoke h => exact board_of_invoke h
  | resumeDue h => exact board_of_resumeDue h
  | tick h => exact board_of_tick h
  | render _ h =>
    obtain ⟨answer, e₁, htick, hcases⟩ := render_cases h
    have hticked := board_of_tick htick
    obtain ⟨-, -, -, rfl⟩ | ⟨handle, passed, hinvoke⟩ := hcases
    · exact hticked
    · exact (board_of_invoke hinvoke).trans hticked
  | keyEvent h =>
    obtain rfl | ⟨key, hinvoke⟩ := keyEvent_cases h
    · rfl
    · have hboard := board_of_invoke hinvoke
      exact hboard
  | detach | withHost | setGlobal | giveObject | collect | takeFailures | spawn => rfl

/-- The board that a row of calls gave to scripts last. -/
def lastBoard? (calls : List HostCall) : Option Nat := (calls.filterMap HostCall.board?).getLast?

theorem Service.board_eq {calls : List HostCall} (h : e.Service calls e') :
    e'.board = (lastBoard? calls).or e.board := by
  induction h with
  | nil => rfl
  | @snoc calls call e₁ e₂ _ hcall ih =>
    rw [hcall.board_eq, ih, lastBoard?, lastBoard?, List.filterMap_append, List.getLast?_append,
      Option.or_assoc]
    cases call <;> rfl

/-- What scripts find under the name of the board in the table of information. -/
def shown (e : Environment) : Value :=
  (e.world.heap.readTable e.world.home).get (.ofString "db")

/-- Scripts are shown a live handle on a board, or nothing if there is none or it was dropped. -/
def ShowsBoard (e : Environment) (board? : Option Nat) : Prop :=
  match board? with
  | none => e.shown = .nil
  | some id =>
    match e.world.host.board? id with
    | none => e.shown = .nil
    | some k => ∃ h, e.world.heap.object? e.shown = some (.board h) ∧ h.board = id ∧
        e.world.board h = .ok k

theorem get_informed (w : World) (v : Value) (hhome : w.home < w.heap.tables.size) :
    ((informed w v).heap.readTable w.home).get (.ofString "db") = v := by
  have hput := Table.put?_text (w.heap.readTable w.home) (Utf8.encode "db") v
  simp only [informed, World.updateHeap, Value.ofString, hput, Option.getD_some]
  rw [Heap.readTable_setTable, if_pos ⟨rfl, hhome⟩]
  exact Table.get_putField_text _ _ v

/-- **Publishing the board shows scripts a new handle on it**, or nothing if it was dropped. -/
theorem showsBoard_publish (hhome : e.world.home < e.world.heap.tables.size) :
    e.publish.ShowsBoard e.board := by
  have hshown (v : Value) (w : World) (hoffered : e.offered = (v, w))
      (hsame : w.home = e.world.home) (htables : w.heap.tables = e.world.heap.tables) :
      e.publish.shown = v := by
    rw [publish_eq, hoffered]
    exact get_informed w v (by rwa [hsame, htables])
  have hhost : e.publish.world.host = e.world.host := by
    rw [publish_eq, offered]
    split
    · split <;> rfl
    · rfl
  unfold ShowsBoard
  cases hboard : e.board with
  | none => exact hshown .nil e.world (by simp only [offered, hboard]) rfl rfl
  | some id =>
    simp only
    rw [hhost]
    cases hk : e.world.host.board? id with
    | none => exact hshown .nil e.world (by simp [offered, hboard, hk]) rfl rfl
    | some k =>
      let handle : Object := .board (e.world.leaseBoard id)
      have hoffered : e.offered = e.world.newObject handle := by simp [offered, hboard, hk, handle]
      refine ⟨e.world.leaseBoard id, ?_, rfl, ?_⟩
      · rw [hshown _ _ hoffered rfl rfl, publish_eq, hoffered]
        exact Heap.object?_addObject e.world.heap handle
      · rw [publish_eq, hoffered]
        exact Realm.board_of_live rfl hk

/-- So scripts are shown the present board when a controller is attached or a board is given. -/
theorem Serves.showsBoard {call : HostCall} (h : e.Serves call e') (hw : e.world.Leases first)
    (hcall : call = .attach ∨ ∃ id, call = .setBoard id) : e'.ShowsBoard e'.board := by
  cases h with
  | attach id =>
    have hpublished : (e.withContext
        { e.world.context with controller := some id }).publish.ShowsBoard e.board :=
      showsBoard_publish hw.home
    rw [Serves.board_eq (.attach id)]
    exact hpublished
  | setBoard hid =>
    rw [Serves.board_eq (.setBoard hid)]
    exact showsBoard_publish (e := { e with board := some _ }) hw.home
  | detach | withHost | setGlobal | giveObject | collect | takeFailures | spawn | load | evaluate
  | invoke | resumeDue | tick | render | keyEvent =>
    obtain hcall | ⟨id, hcall⟩ := hcall <;> cases hcall

/-! ### Handles for good -/

theorem leases_start (config : Config) : (start .empty config).world.Leases 0 where
  normal := Host.normal_empty
  home := Nat.zero_lt_two
  backs := fun _ _ _ ho => nomatch ho
  recent := fun _ _ _ _ ho => nomatch ho

/-- **A handle that has become stale stays stale and gives no access.** Let a row of calls lead to
an environment and some more calls lead from there to a second one.

A handle that there was in between is the same object and cannot be resolved any more at any later
time in the generation of the second environment, if one of the later calls is a detachment or if
the host had dropped the thing before. An operation on it, and any other operation that has no
access to the thing, comes out the same whatever the contents of the thing are, and leaves it as it
is.

A handle that was made since, without a detachment in the meantime, resolves to what the host has at
the place that it names, as long as the host has the thing.

Right after a controller is attached or a board is given, the table of information shows scripts a
live handle on the board that was given last, or nothing if there is none or it was dropped. -/
theorem stale_handles_give_no_access {config : Config} {before later : List HostCall}
    (hbefore : (start .empty config).Service before e) (hlater : e.Service later e') :
    (∀ (n : Nat) (o : Object) (loan : Loan), e.world.heap.objects[n]? = some o →
      o.loan? = some loan → .detach ∈ later ∨ ¬e.world.host.Has loan.thing →
      ∀ w, e'.world.Moves w →
        w.heap.objects[n]? = some o ∧
        w.resolve? o = some (.error (.staleHandle loan.thing.type)) ∧
        ∀ place op operands scope frames,
          (op.subjects operands).head? = some (.object n) ∨
            (∀ v ∈ op.subjects operands, w.Shut loan.thing v) →
          (∀ x : Replacement, x.thing = loan.thing →
            Machine.operate place (w.replace x) op operands scope frames =
              (Machine.operate place w op operands scope frames).mapWorld fun w => w.replace x) ∧
          (Machine.operate place w op operands scope frames).world.host.SameAt w.host
            loan.thing) ∧
    (.detach ∉ later → ∀ w, e'.world.Moves w →
      e.world.host.Evolves w.host ∧
      ∀ (n : Nat) (o : Object) (loan : Loan), e.world.heap.objects.size ≤ n →
        w.heap.objects[n]? = some o → o.loan? = some loan → w.host.Has loan.thing →
        ∃ x, w.host.referent? o = some x ∧ w.resolve? o = some (.ok x)) ∧
    (before.getLast? = some .attach ∨ (∃ id, before.getLast? = some (.setBoard id)) →
      e.ShowsBoard (lastBoard? before)) := by
  obtain ⟨first, hw⟩ := hbefore.exists_leases (leases_start config)
  refine ⟨fun n o loan ho hloan hover w hmoves => ?_, fun hcalls w hmoves => ?_, fun hlast => ?_⟩
  · have hexpired : e'.world.Expired loan := by
      obtain hdetach | hlost := hover
      · exact hlater.expired hw hdetach ho hloan
      · have hnamed := (hw.backs n o loan ho hloan).named
        exact World.Expired.later (.inr ⟨hnamed, hlost⟩) hlater.outlasts
    have hstale : w.Stale loan := (hexpired.later hmoves.outlasts).stale
    have hobject : w.heap.objects[n]? = some o :=
      hmoves.outlasts.objects n o (hlater.outlasts.objects n o ho)
    refine ⟨hobject, Realm.resolve?_of_stale hloan hstale,
      fun place op operands scope frames hsubjects => ?_⟩
    have hwithheld : w.Withheld loan.thing (op.subjects operands) := by
      obtain hhead | hshut := hsubjects
      · exact .inr ⟨.object n, o, loan, hhead, ⟨hobject, hloan, hstale⟩⟩
      · exact .inl hshut
    exact ⟨fun x hx => Machine.operate_replace (hx ▸ hwithheld),
      Machine.sameAt_operate hwithheld⟩
  · have hall : e.world.Moves w := (hlater.moves hcalls).trans hmoves
    refine ⟨hall.outlasts.host, fun n o loan hn ho hloan hhas => ?_⟩
    have hleases : w.Leases e.world.heap.objects.size := hall.leases hw.now
    obtain ⟨x, hx⟩ := (hleases.backs n o loan ho hloan).found hhas
    exact ⟨x, hx, Realm.resolve?_of_live hloan (hleases.recent n o loan hn ho hloan) hx⟩
  · cases hbefore with
    | nil => obtain hlast | ⟨id, hlast⟩ := hlast <;> cases hlast
    | @snoc calls call e₁ _ hcalls hcall =>
      rw [List.getLast?_concat] at hlast
      have hlast : call = .attach ∨ ∃ id, call = .setBoard id :=
        hlast.imp Option.some.inj fun ⟨id, hid⟩ => ⟨id, Option.some.inj hid⟩
      obtain ⟨first, hw⟩ := hcalls.exists_leases (leases_start config)
      have hboard := (Service.snoc hcalls hcall).board_eq
      rw [show (start .empty config).board = none from rfl, Option.or_none] at hboard
      rw [← hboard]
      exact hcall.showsBoard hw hlast

/-- An environment whose scripts are given a board of one key. -/
def boarded : Environment :=
  let board := Keyboard.normal [⟨0, 1, "Esc", .zero⟩] []
  ((start .empty {}).withHost (Host.empty.addBoard board).2).setBoard 0

theorem service_boarded : (start .empty {}).Service [.other, .setBoard 0] boarded :=
  (Service.nil.snoc (.withHost (.addBoard _ _))).snoc (.setBoard rfl)

/-- After a detachment the handle on the board is stale, its length does not depend on the board,
and a new handle takes its place. -/
theorem stale_handles_give_no_access_boarded :
    let e := boarded.detach.2.setBoard 0
    boarded.world.heap.objects[0]? = some (.board ⟨0, 0⟩) ∧
    e.world.resolve? (.board ⟨0, 0⟩) = some (.error (.staleHandle .board)) ∧
    (∀ k, Machine.operate .main (e.world.replace (.board 0 k)) .length [.object 0] [] [] =
      (Machine.operate .main e.world .length [.object 0] [] []).mapWorld
        fun w => w.replace (.board 0 k)) ∧
    (∃ x, e.world.resolve? (.board ⟨0, 1⟩) = some (.ok x)) ∧
    e.ShowsBoard (some 0) := by
  intro e
  have hdetached := service_boarded.snoc .detach
  have hgiven : boarded.detach.2.Serves (.setBoard 0) e := .setBoard rfl
  obtain ⟨hstale, -, -⟩ :=
    stale_handles_give_no_access service_boarded ((Service.nil.snoc .detach).snoc hgiven)
  obtain ⟨-, hrefused, hsame⟩ :=
    hstale 0 _ _ rfl rfl (.inl List.mem_cons_self) e.world (.refl e.world)
  obtain ⟨-, hlive, -⟩ := stale_handles_give_no_access hdetached (Service.nil.snoc hgiven)
  obtain ⟨-, hlive⟩ := hlive (by decide) e.world (.refl e.world)
  obtain ⟨x, -, hresolved⟩ := hlive 1 (.board ⟨0, 1⟩) _ (Nat.le_refl 1) rfl rfl rfl
  obtain ⟨-, -, hshows⟩ := stale_handles_give_no_access (hdetached.snoc hgiven) .nil
  refine ⟨rfl, hrefused, fun k => ?_, ⟨x, hresolved⟩, hshows (.inr ⟨0, rfl⟩)⟩
  exact (hsame .main .length [.object 0] [] [] (.inl rfl)).1 (.board 0 k) rfl

end Environment

end KeyLight
