import KeyLight.Environment.Basic

/-!
# What calls of the host come to

Each call of the host that may run a script either runs one and puts the world that it leaves behind
into the environment, or it answers without. There is one statement for each of these calls, which
says all that it can do to the environment.
-/

namespace KeyLight.Environment

variable {e e' : Environment} {fuel : Nat}

theorem answer_eq (e : Environment) (stop : Halt × World) :
    (e.answer stop).2 = { e with world := stop.2 } := by
  obtain ⟨halt, w⟩ := stop
  cases halt <;> rfl

/-- A script that stops leaves its world to the environment. -/
theorem exists_stop_of_map {α : Type} {stop? : Option (Halt × World)}
    {toAnswer : Halt × World → Answer α} {result : Except HostError α}
    (hanswer : ∀ stop, (toAnswer stop).2 = { e with world := stop.2 })
    (h : stop?.map toAnswer = some (result, e')) :
    ∃ halt w, stop? = some (halt, w) ∧ e' = { e with world := w } := by
  obtain ⟨⟨halt, w⟩, hstop, heq⟩ := Option.map_eq_some_iff.mp h
  exact ⟨halt, w, hstop, by rw [← hanswer (halt, w), heq]⟩

/-- Either a thread has broken the rules, or the script runs. -/
theorem load_cases {script : List Stmt} {result : Except HostError Unit}
    (h : e.load fuel script = some (result, e')) :
    e' = e ∨ ∃ halt w, Machine.runScript fuel e.world script = some (halt, w) ∧
      e' = { e with world := w } := by
  unfold load whenHealthy at h
  split at h
  · exact .inl (Prod.mk.inj (Option.some.inj h)).2.symm
  · refine .inr (exists_stop_of_map ?_ h)
    exact answer_eq e

theorem evaluate_cases {expr : Expr} {result : Except HostError Value}
    (h : e.evaluate fuel expr = some (result, e')) :
    ∃ halt w, Machine.evaluate fuel e.world expr = some (halt, w) ∧ e' = { e with world := w } :=
  exists_stop_of_map (answer_eq e) h

/-- Either a thread has broken the rules or there is no function, which may be noted, or the
function is called. -/
theorem invoke_cases {name : String} {args : List Value} {result : Except HostError Bool}
    (h : e.invoke fuel name args = some (result, e')) :
    e' = e ∨ (∃ notice, e' = e.withRealm (e.world.note notice)) ∨
      ∃ halt w, Machine.runCall fuel e.world (e.world.global name) args = some (halt, w) ∧
        e' = { e with world := w } := by
  unfold invoke whenHealthy at h
  split at h
  · exact .inl (Prod.mk.inj (Option.some.inj h)).2.symm
  simp only at h
  split at h
  · refine .inr (.inr (exists_stop_of_map ?_ h))
    exact answer_eq e
  split at h
  · exact .inl (Prod.mk.inj (Option.some.inj h)).2.symm
  · exact .inr (.inl ⟨_, (Prod.mk.inj (Option.some.inj h)).2.symm⟩)

/-- What scripts find under the name of the board: a new handle if there is a board that the host
still has, and nothing otherwise. -/
def offered (e : Environment) : Value × World :=
  match e.board with
  | some id =>
    if (e.world.host.board? id).isSome then
      e.world.newObject (.board (e.world.leaseBoard id))
    else (.nil, e.world)
  | none => (.nil, e.world)

/-- The table of information with a value under the name of the board. -/
def informed (w : World) (v : Value) : World :=
  let home := w.heap.readTable w.home
  w.updateHeap (·.setTable w.home ((home.put? (.ofString "db") v).getD home))

/-- Publishing the board writes one field of the table of information. -/
theorem publish_eq (e : Environment) :
    e.publish = { e with world := informed e.offered.2 e.offered.1 } := by
  obtain ⟨world, config, board, lastRender⟩ := e
  cases board with
  | none => rfl
  | some id =>
    simp only [publish, offered]
    split <;> rfl

/-- Either there is nobody to tell, or the script is given a handle on the key. -/
theorem keyEvent_cases {index : Nat} {pressed : Bool} {result : Except HostError Bool}
    (h : e.keyEvent fuel index pressed = some (result, e')) :
    e' = e ∨ ∃ key : KeyHandle,
      { e with world := (e.world.newObject (.key key)).2 }.invoke fuel "onKeyEvent"
        [(e.world.newObject (.key key)).1, .bool pressed] = some (result, e') := by
  unfold keyEvent at h
  split at h
  · exact .inl (Prod.mk.inj (Option.some.inj h)).2.symm
  split at h
  · exact .inr ⟨_, h⟩
  · exact .inl (Prod.mk.inj (Option.some.inj h)).2.symm

/-- The tick comes first. If it does not fail, the script is given a handle on the target. -/
theorem render_cases {now : Float} {target : Nat} {result : Except HostError Bool}
    (h : e.render fuel now target = some (result, e')) :
    ∃ answer e₁, e.tick fuel now = some (answer, e₁) ∧
      ((∃ error, answer = .error error ∧ result = .error error ∧ e' = e₁) ∨
        ∃ (handle : TargetHandle) (passed : Float),
          { e₁ with
            lastRender := some now
            world := (e₁.world.newObject (.target handle)).2 }.invoke fuel "render"
              [.float passed, (e₁.world.newObject (.target handle)).1] = some (result, e')) := by
  obtain ⟨⟨answer, e₁⟩, htick, h⟩ := Option.bind_eq_some_iff.mp h
  refine ⟨answer, e₁, htick, ?_⟩
  cases answer with
  | error error =>
    obtain ⟨rfl, rfl⟩ := Prod.mk.inj (Option.some.inj h)
    exact .inl ⟨error, rfl, rfl, rfl⟩
  | ok summary => exact .inr ⟨_, _, h⟩

end KeyLight.Environment
