import KeyLight.Proofs.Environment.Chronicle

/-!
# What the controller is sent

A call of the capability to print sends the texts of all arguments as one text, or it sends nothing
and raises the first error. Nothing else sends a text. So what the controller is sent in the course
of a chronicle are the texts of the calls that succeed, in the order in which the calls are made,
whichever threads make them (`Environment.printing_is_all_or_nothing`).
-/

namespace KeyLight

/-- Values of which one has no text, and the first of those is in the middle. -/
structure World.FailsAt (w : World) (before : List Value) (v : Value) (e : CallError) : Prop where
  before : ∀ u ∈ before, ∃ piece, w.text u = .ok piece
  fails : w.text v = .error e

namespace Capability

variable {w : World} {args : List Value}

theorem joinTexts_of_texts {pieces : List Bytes} (h : args.map w.text = pieces.map .ok) :
    joinTexts w args = .ok (String.join (pieces.map Utf8.decodeLossy)) := by
  induction args generalizing pieces with
  | nil =>
    obtain rfl := List.map_eq_nil_iff.mp h.symm
    rfl
  | cons v args ih =>
    obtain ⟨piece, pieces, rfl, hv, hpieces⟩ := List.map_eq_cons_iff.mp h.symm
    rw [joinTexts, ← hv, ih hpieces.symm, List.map_cons, String.join_cons]
    rfl

theorem joinTexts_of_failsAt {before after : List Value} {v : Value} {e : CallError}
    (h : w.FailsAt before v e) : joinTexts w (before ++ v :: after) = .error e := by
  obtain ⟨hbefore, hv⟩ := h
  induction before with
  | nil =>
    rw [List.nil_append, joinTexts, hv]
    rfl
  | cons u before ih =>
    obtain ⟨⟨piece, hu⟩, hbefore⟩ := List.forall_mem_cons.mp hbefore
    rw [List.cons_append, joinTexts, hu, ih hbefore]
    rfl

/-- Either all values have a text, or there is a first one that has none. -/
theorem texts_or_failsAt (w : World) (args : List Value) :
    (∃ pieces : List Bytes, args.map w.text = pieces.map .ok) ∨
      ∃ before v after e, args = before ++ v :: after ∧ w.FailsAt before v e := by
  induction args with
  | nil => exact .inl ⟨[], rfl⟩
  | cons v args ih =>
    cases hv : w.text v with
    | error e => exact .inr ⟨[], v, args, e, rfl, fun _ hu => absurd hu List.not_mem_nil, hv⟩
    | ok piece =>
      obtain ⟨pieces, hpieces⟩ | ⟨before, u, after, e, rfl, hbefore, hu⟩ := ih
      · exact .inl ⟨piece :: pieces, by rw [List.map_cons, hv, hpieces, List.map_cons]⟩
      · exact .inr ⟨v :: before, u, after, e, rfl,
          List.forall_mem_cons.mpr ⟨⟨piece, hv⟩, hbefore⟩, hu⟩

/-! ### Calls -/

theorem effect_print_of_noController (h : w.attached? = .error .noController) :
    print.effect w (.ofArguments args) = .error (.call .noController) := by
  simp only [effect, h]
  rfl

variable {id : Nat} {controller : Controller} (hattached : w.attached? = .ok (id, controller))
include hattached

theorem effect_print_of_texts {pieces : List Bytes} (h : args.map w.text = pieces.map .ok) :
    print.effect w (.ofArguments args) =
      .ok (.say id (String.join (pieces.map Utf8.decodeLossy))) := by
  simp only [effect, Stack.ofArguments, hattached, joinTexts_of_texts h]
  rfl

theorem effect_print_of_failsAt {before after : List Value} {v : Value} {e : CallError}
    (h : w.FailsAt before v e) :
    print.effect w (.ofArguments (before ++ v :: after)) = .error (.call e) := by
  simp only [effect, Stack.ofArguments, hattached, joinTexts_of_failsAt h]
  rfl

end Capability

/-! ### Moments at which something is said -/

/-- At the moment the capability to print is called, and it succeeds with a text for the controller
that is attached. -/
def Moment.Prints (m : Moment) (id : Nat) (text : String) : Prop :=
  ∃ args frames controller, ∃ pieces : List Bytes,
    m.invocation? = some ⟨.builtin (.capability .print), args, frames⟩ ∧
    m.world.attached? = .ok (id, controller) ∧ args.map m.world.text = pieces.map .ok ∧
    text = String.join (pieces.map Utf8.decodeLossy)

/-- **Only calls that print say anything.** -/
theorem Moment.said_iff {m : Moment} {id : Nat} {text : String} :
    m.deed.said = some (id, text) ↔ m.Prints id text := by
  constructor
  · intro hsaid
    cases hc : m.invocation? with
    | none => rw [said_of_not_invocation hc] at hsaid; cases hsaid
    | some c =>
      rw [deed_of_invocation hc] at hsaid
      obtain ⟨effect, heffect, heffectSaid⟩ := Option.bind_eq_some_iff.mp hsaid
      obtain ⟨k, hk, hbody⟩ := Invocation.exists_of_effect? heffect
      obtain ⟨callee, args, frames⟩ := c
      obtain rfl : callee = _ := hk
      -- of all effects only that of printing says something, and it needs a text of each argument
      obtain ⟨rfl, id', text', rfl⟩ | ⟨-, f, rfl⟩ | ⟨hnone, -⟩ := Capability.effect_cases hbody
      · obtain ⟨rfl, rfl⟩ := Prod.mk.inj (Option.some.inj heffectSaid)
        obtain hnone | ⟨id, controller, hattached⟩ := m.world.attached?_cases
        · rw [Capability.effect_print_of_noController hnone] at hbody
          cases hbody
        obtain ⟨pieces, hpieces⟩ | ⟨before, v, after, e, rfl, hfails⟩ :=
          Capability.texts_or_failsAt m.world args
        · rw [Capability.effect_print_of_texts hattached hpieces] at hbody
          obtain ⟨rfl, rfl⟩ := Effect.say.inj (Except.ok.inj hbody)
          exact ⟨args, frames, controller, pieces, hc, hattached, hpieces, rfl⟩
        · rw [Capability.effect_print_of_failsAt hattached hfails] at hbody
          cases hbody
      · cases heffectSaid
      · exact absurd (hnone.symm.trans heffectSaid) nofun
  · rintro ⟨args, frames, controller, pieces, hc, hattached, hpieces, rfl⟩
    rw [deed_of_invocation hc, Invocation.deed, Invocation.effect?_capability,
      Capability.effect_print_of_texts hattached hpieces]
    rfl

namespace Environment

open Machine (call)

/-- **Printing is all or nothing.** Without a controller a call of the capability to print fails,
whatever its arguments are. With one, either all arguments have a text, and the controller is sent
these texts as one, or the first error is raised and nothing is sent. In the course of a chronicle
the texts are sent of the calls that succeed, each to the controller that is attached at the time of
the call, in the order of these calls, and nothing else. -/
theorem printing_is_all_or_nothing {e e' : Environment} {ms : List Moment}
    (h : Chronicle e ms e') :
    (∀ place w args frames, w.attached? = .error .noController →
      call place w (.builtin (.capability .print)) args frames =
        .running w (.raise (.call .noController)) frames) ∧
    (∀ place w args frames id controller, w.attached? = .ok (id, controller) →
      (∃ pieces : List Bytes, args.map w.text = pieces.map .ok ∧
        call place w (.builtin (.capability .print)) args frames =
          .running (w.tell (@Notice.printed id (String.join (pieces.map Utf8.decodeLossy))))
            (.give .nil) frames) ∨
      ∃ before v after error, args = before ++ v :: after ∧ w.FailsAt before v error ∧
        call place w (.builtin (.capability .print)) args frames =
          .running w (.raise (.call error)) frames) ∧
    (∀ w : World, w.text .nil = .ok (Utf8.encode "nil")) ∧
    (∀ (w : World) id text, (w.tell (@Notice.printed id text)).sent = w.sent ++ [(id, text)]) ∧
    e'.world.sent = e.world.sent ++ ms.filterMap (fun m => m.deed.said) ∧
    ∀ (m : Moment) id text, m.deed.said = some (id, text) ↔ m.Prints id text := by
  refine ⟨fun place w args frames hnone => ?_, fun place w args frames id controller hsome => ?_,
    fun w => rfl, fun w id text => w.sent_note (@Notice.printed id text), h.record.sent,
    fun m id text => Moment.said_iff⟩
  · exact Machine.callCapability_of_refused place frames
      (Capability.effect_print_of_noController hnone)
  · obtain ⟨pieces, hpieces⟩ | ⟨before, v, after, error, rfl, hfails⟩ :=
      Capability.texts_or_failsAt w args
    · exact .inl ⟨pieces, hpieces, Machine.callCapability_of_ok (c := .print) place frames nofun
        (Capability.effect_print_of_texts hsome hpieces)⟩
    · exact .inr ⟨before, v, after, error, rfl, hfails,
        Machine.callCapability_of_refused place frames
          (Capability.effect_print_of_failsAt hsome hfails)⟩

/-- An environment with a controller. -/
def printing : Environment := (start (Host.empty.addController .literal).2 {}).attach 0

/-- A script that starts a thread, which prints, and then prints itself. -/
def printingScript : List Stmt :=
  [.discard (.call (.name "thread")
      [.function [] [.discard (.call (.name "print") [.text (Utf8.encode "b")])]]),
    .discard (.call (.name "print") [.text (Utf8.encode "a"), .nil])]

/-- The main script prints first, since a thread runs in the next tick. -/
theorem printing_is_all_or_nothing_printing :
    ∃ ms e, Chronicle printing ms e ∧
      ms.filterMap (fun m => m.deed.said) = [(0, "anil"), (0, "b")] ∧
      ∀ m ∈ ms, ∀ id text, m.deed.said = some (id, text) → m.Prints id text := by
  have hrun : ((printing.load 20 printingScript).bind fun (_, e₁) =>
      (e₁.tick 20 0.0).map fun (_, e₂) => e₂.world.sent) = some [(0, "anil"), (0, "b")] := by
    decide +kernel
  obtain ⟨⟨_, e₁⟩, hload, hrest⟩ := Option.bind_eq_some_iff.mp hrun
  obtain ⟨⟨_, e₂⟩, htick, hsent⟩ := Option.map_eq_some_iff.mp hrest
  have hchronicle := Chronicle.cons (.load hload) (.cons (.tick htick) (.nil e₂))
  obtain ⟨-, -, -, -, hsaid, hprints⟩ := printing_is_all_or_nothing hchronicle
  exact ⟨_, e₂, hchronicle, hsaid.symm.trans hsent, fun m _ id text => (hprints m id text).mp⟩

end Environment

end KeyLight
