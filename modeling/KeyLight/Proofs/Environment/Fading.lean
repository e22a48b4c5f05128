import KeyLight.Proofs.Environment.Chronicle
import KeyLight.Proofs.Machine.Fading

/-!
# Fades that scripts make

The capability to make fades takes the arguments that describe a fade, and refuses all others with
the first thing that is wrong, without changing anything. A fade never changes after it is made. So
in the course of a chronicle all fades of scripts are such as their arguments described
(`fade_takes_its_shapes`), and their durations are finite and not negative.
-/

namespace KeyLight

/-- At the moment the capability to make fades is called, and its arguments describe the fade. -/
def Moment.Fades (m : Moment) (f : Interpolator) : Prop :=
  ∃ args frames, m.invocation? = some ⟨.builtin (.capability .fade), args, frames⟩ ∧
    IsFade m.world args f

/-- A fade is made by the capability, or the host gives it to the scripts. -/
theorem Moment.fades_or_endows {m : Moment} {f : Interpolator} (h : m.deed.made = some f) :
    m.Fades f ∨ ∃ name, m.act = .endow name (.object (.fade f)) := by
  cases hc : m.invocation? with
  | none =>
    obtain hnone | ⟨name, d, hact⟩ := made_of_not_invocation hc
    · exact absurd (hnone.symm.trans h) nofun
    · have hmade : d.fade? = some f := by
        rw [deed, hact] at h
        exact h
      refine .inr ⟨name, hact.trans (congrArg _ ?_)⟩
      cases d with
      | value v => cases hmade
      | object o =>
        cases o with
        | fade g => exact congrArg _ (congrArg _ (Option.some.inj hmade))
        | color | thread | suspension | board | group | key | target => cases hmade
  | some c =>
    rw [deed_of_invocation hc] at h
    obtain ⟨effect, heffect, hmade⟩ := Option.bind_eq_some_iff.mp h
    obtain ⟨k, hk, hbody⟩ := Invocation.exists_of_effect? heffect
    obtain ⟨callee, args, frames⟩ := c
    obtain rfl : callee = _ := hk
    obtain ⟨-, id, text, rfl⟩ | ⟨rfl, g, rfl⟩ | ⟨-, hnone⟩ := Capability.effect_cases hbody
    · cases hmade
    · obtain rfl : g = f := Option.some.inj hmade
      rw [Machine.effect_fade] at hbody
      obtain ⟨g', hdescribed, hg⟩ := Except.exists_of_map_eq_ok hbody
      obtain rfl : g' = g := Object.fade.inj (Effect.make.inj hg)
      exact .inl ⟨args, frames, hc,
        Capability.describedFade_eq_ok.mp (Except.eq_ok_of_mapError hdescribed)⟩
    · exact absurd (hnone.symm.trans hmade) nofun

namespace Environment

open Machine (call)
open Relation (ReflTransGen)

/-- **The capability to make fades takes its argument shapes and no others.** It gives a new fade
just if its arguments describe it. All other arguments are refused with one error, which is the
first thing that is wrong with them, and nothing is changed: the error says that there is no
controller, which is so and an end is a text, or that an end has the wrong type, which is an object
that is no colour, or that an argument of the capability is wrong. Whatever the host does has a
chronicle. In the course of a chronicle every fade was there before, is given by the host, or is
made by a call whose arguments describe it, and then its duration is finite and not negative. -/
theorem fade_takes_its_shapes {e e' : Environment} {ms : List Moment} (h : Chronicle e ms e') :
    (∀ place w args frames f,
      call place w (.builtin (.capability .fade)) args frames =
        .running (w.newObject (.fade f)).2 (.give (w.newObject (.fade f)).1) frames ↔
      IsFade w args f) ∧
    (∀ place w args frames error,
      call place w (.builtin (.capability .fade)) args frames =
        .running w (.raise (.call error)) frames ↔ RefusesFade w args error) ∧
    (∀ w args, (∀ f, ¬IsFade w args f) → ∃! error, RefusesFade w args error) ∧
    (∀ w args error, RefusesFade w args error →
      (error = .noController ∧ w.controller? = .error .noController ∧
        ∃ i < 2, ∃ bytes, args[i]? = some (.text bytes)) ∨
      (∃ i < 2, ∃ id, args[i]? = some (.object id) ∧
        (∀ c, w.heap.objects[id]? ≠ some (.color c)) ∧
        error = .typeMismatch (i + 1) "RGBAColor" "userdata") ∨
      ∃ position reason, error = .argument "fade" position reason) ∧
    (∀ w args f, IsFade w args f → ∃ q, Binary64.toRat? f.duration = some q ∧ 0 ≤ q) ∧
    (∀ first last, ReflTransGen Call first last → ∃ ms, Chronicle first ms last) ∧
    ∀ (id : Nat) (f : Interpolator), e'.world.heap.objects[id]? = some (.fade f) →
      e.world.heap.objects[id]? = some (.fade f) ∨
      (∃ m ∈ ms, ∃ name, m.act = .endow name (.object (.fade f))) ∨ ∃ m ∈ ms, m.Fades f := by
  refine ⟨fun place w args frames f => Machine.call_fade_eq_give_iff place frames,
    fun place w args frames error => Machine.call_fade_eq_raise_iff place frames,
    fun w args hnot => ?_, fun w args error herror => herror.kinds, fun w args f hfade => ?_,
    fun first last => exists_chronicle, fun id f hf => ?_⟩
  · obtain ⟨f, hf⟩ | herror := Capability.isFade_or_refusesFade w args
    · exact absurd hf (hnot f)
    · exact herror
  · obtain ⟨q, hholds, hle⟩ := hfade.duration
    exact ⟨q, hholds.finite, hle⟩
  · obtain hbefore | ⟨m, hm, hmade⟩ := h.record.fades hf
    · exact .inl hbefore
    · obtain hfades | hendows := m.fades_or_endows hmade
      · exact .inr (.inr ⟨m, hm, hfades⟩)
      · exact .inr (.inl ⟨m, hm, hendows⟩)

/-- A script that makes a fade between numbers and fails to make one that takes negative time. -/
def fadingScript : List Stmt :=
  [.discard (.call (.name "fade") [.int 0, .float 1.0, .text (Utf8.encode "0x2")]),
    .discard (.guarded (.call (.name "fade") [.int 0, .float 1.0, .int (-1)]))]

/-- The script makes one fade, and that is made by a call whose arguments describe it. -/
theorem fade_takes_its_shapes_fading :
    ∃ ms e f, Chronicle (start .empty {}) ms e ∧ e.world.heap.objects = #[.fade f] ∧
      ((∃ m ∈ ms, ∃ name, m.act = .endow name (.object (.fade f))) ∨ ∃ m ∈ ms, m.Fades f) := by
  have hrun : ((start .empty {}).load 30 fadingScript).map (fun (_, e) => e.world.heap.objects) =
      some #[.fade ⟨.number 0.0 1.0, 0.0, 2.0, .linear⟩] := by
    decide +kernel
  obtain ⟨⟨_, e⟩, hload, hobjects⟩ := Option.map_eq_some_iff.mp hrun
  have hchronicle := Chronicle.cons (.load hload) (.nil e)
  obtain ⟨-, -, -, -, -, -, hfades⟩ := fade_takes_its_shapes hchronicle
  have hobjects : e.world.heap.objects = _ := hobjects
  obtain hbefore | hmade := hfades 0 _ (by rw [hobjects]; rfl)
  · cases hbefore
  · exact ⟨_, e, _, hchronicle, hobjects, hmade⟩

end Environment

end KeyLight
