import KeyLight.Proofs.Color.Channel
import KeyLight.Proofs.Machine.Native

/-!
# Colours of arguments

The capability to make colours goes by the number of its arguments. One text is looked up by the
controller, three or four numbers are channels (`IsColor`), and anything else gives nil
(`tocolor_goes_by_arity`). It fails only where a text has to be looked up and there is no
controller.
-/

namespace KeyLight

/-- The colour whose channels some numbers give. It is opaque if there are three of them. -/
inductive IsColor : List Numeral → Rgba → Prop
  | rgb {x y z : Numeral} {c : Rgba} (hr : IsChannel x c.red) (hg : IsChannel y c.green)
      (hb : IsChannel z c.blue) (ha : c.alpha = 255) : IsColor [x, y, z] c
  | rgba {x y z t : Numeral} {c : Rgba} (hr : IsChannel x c.red) (hg : IsChannel y c.green)
      (hb : IsChannel z c.blue) (ha : IsChannel t c.alpha) : IsColor [x, y, z, t] c

/-- The channel of a number. -/
def Numeral.channel (m : Numeral) : UInt8 := KeyLight.channel (Value.numeralToFloat m)

theorem isColor_rgb_iff {x y z : Numeral} {c : Rgba} :
    IsColor [x, y, z] c ↔ c = ⟨x.channel, y.channel, z.channel, 255⟩ := by
  constructor
  · rintro ⟨hr, hg, hb, ha⟩
    rw [Rgba.mk.injEq]
    exact ⟨(isChannel_iff.mp hr).symm, (isChannel_iff.mp hg).symm, (isChannel_iff.mp hb).symm, ha⟩
  · rintro rfl
    exact .rgb (isChannel_iff.mpr rfl) (isChannel_iff.mpr rfl) (isChannel_iff.mpr rfl) rfl

theorem isColor_rgba_iff {x y z t : Numeral} {c : Rgba} :
    IsColor [x, y, z, t] c ↔ c = ⟨x.channel, y.channel, z.channel, t.channel⟩ := by
  constructor
  · intro h
    cases h with
    | rgba hr hg hb ha =>
      rw [Rgba.mk.injEq]
      exact ⟨(isChannel_iff.mp hr).symm, (isChannel_iff.mp hg).symm, (isChannel_iff.mp hb).symm,
        (isChannel_iff.mp ha).symm⟩
  · rintro rfl
    exact .rgba (isChannel_iff.mpr rfl) (isChannel_iff.mpr rfl) (isChannel_iff.mpr rfl)
      (isChannel_iff.mpr rfl)

namespace ColorShape

/-- What a list of arguments is that is neither one text nor three or four numbers. -/
structure Unmatched (args : List Value) : Prop where
  text : ∀ bytes, args ≠ [.text bytes]
  numbers : ∀ ns : List Numeral, args.map Value.numeral? = ns.map some →
    ns.length ≠ 3 ∧ ns.length ≠ 4

theorem ofStack_text (bytes : Bytes) :
    ofStack (.ofArguments [.text bytes]) = .text (Utf8.decodeLossy bytes) := rfl

theorem ofStack_three (a b c : Value) :
    ofStack (.ofArguments [a, b, c]) =
      match a.coerced?, b.coerced?, c.coerced? with
      | some r, some g, some b => .rgb r g b
      | _, _, _ => .unmatched := rfl

theorem ofStack_four (a b c d : Value) :
    ofStack (.ofArguments [a, b, c, d]) =
      match a.coerced?, b.coerced?, c.coerced?, d.coerced? with
      | some r, some g, some b, some a => .rgba r g b a
      | _, _, _, _ => .unmatched := rfl

theorem unmatched_or (args : List Value) :
    (∃ bytes, args = [.text bytes]) ∨
      (∃ ns : List Numeral, args.map Value.numeral? = ns.map some ∧
        (ns.length = 3 ∨ ns.length = 4)) ∨ Unmatched args := by
  by_cases htext : ∃ bytes, args = [.text bytes]
  · exact .inl htext
  by_cases hnumbers : ∃ ns : List Numeral, args.map Value.numeral? = ns.map some ∧
      (ns.length = 3 ∨ ns.length = 4)
  · exact .inr (.inl hnumbers)
  · refine .inr (.inr ⟨fun bytes h => htext ⟨bytes, h⟩, fun ns h => ⟨fun h3 => ?_, fun h4 => ?_⟩⟩)
    · exact hnumbers ⟨ns, h, .inl h3⟩
    · exact hnumbers ⟨ns, h, .inr h4⟩

/-- Anything else describes no colour. -/
theorem ofStack_unmatched {args : List Value} (h : Unmatched args) :
    ofStack (.ofArguments args) = .unmatched := by
  match args with
  | [] | [_, _] | _ :: _ :: _ :: _ :: _ :: _ => rfl
  | [v] =>
    cases v with
    | text bytes => exact absurd rfl (h.text bytes)
    | nil | bool | int | float | table | closure | builtin | object => rfl
  | [a, b, c] =>
    rw [ofStack_three]
    split
    · rename_i ha hb hc
      obtain ⟨x, hx, -⟩ := Option.map_eq_some_iff.mp ha
      obtain ⟨y, hy, -⟩ := Option.map_eq_some_iff.mp hb
      obtain ⟨z, hz, -⟩ := Option.map_eq_some_iff.mp hc
      exact absurd rfl (h.numbers [x, y, z] (by simp [hx, hy, hz])).1
    · rfl
  | [a, b, c, d] =>
    rw [ofStack_four]
    split
    · rename_i ha hb hc hd
      obtain ⟨x, hx, -⟩ := Option.map_eq_some_iff.mp ha
      obtain ⟨y, hy, -⟩ := Option.map_eq_some_iff.mp hb
      obtain ⟨z, hz, -⟩ := Option.map_eq_some_iff.mp hc
      obtain ⟨t, ht, -⟩ := Option.map_eq_some_iff.mp hd
      exact absurd rfl (h.numbers [x, y, z, t] (by simp [hx, hy, hz, ht])).2
    · rfl

end ColorShape

namespace Capability

/-- Three or four numbers describe the colour whose channels they give, in every world. -/
theorem exists_describedColor {args : List Value} {ns : List Numeral}
    (h : args.map Value.numeral? = ns.map some) (hlength : ns.length = 3 ∨ ns.length = 4) :
    ∃ c, (∀ d, IsColor ns d ↔ d = c) ∧
      ∀ w, describedColor w (.ofArguments args) = .ok (some c) := by
  rcases hlength with hlength | hlength
  · match ns, hlength with
    | [x, y, z], _ =>
      obtain ⟨a, args, rfl, ha, h⟩ := List.map_eq_cons_iff.mp h
      obtain ⟨b, args, rfl, hb, h⟩ := List.map_eq_cons_iff.mp h
      obtain ⟨c, args, rfl, hc, h⟩ := List.map_eq_cons_iff.mp h
      obtain rfl := List.map_eq_nil_iff.mp h
      refine ⟨⟨x.channel, y.channel, z.channel, 255⟩, fun d => isColor_rgb_iff, fun w => ?_⟩
      simp only [describedColor, ColorShape.ofStack_three, Value.coerced?, ha, hb, hc,
        Option.map_some]
      rfl
  · match ns, hlength with
    | [x, y, z, t], _ =>
      obtain ⟨a, args, rfl, ha, h⟩ := List.map_eq_cons_iff.mp h
      obtain ⟨b, args, rfl, hb, h⟩ := List.map_eq_cons_iff.mp h
      obtain ⟨c, args, rfl, hc, h⟩ := List.map_eq_cons_iff.mp h
      obtain ⟨d, args, rfl, hd, h⟩ := List.map_eq_cons_iff.mp h
      obtain rfl := List.map_eq_nil_iff.mp h
      refine ⟨⟨x.channel, y.channel, z.channel, t.channel⟩, fun d => isColor_rgba_iff,
        fun w => ?_⟩
      simp only [describedColor, ColorShape.ofStack_four, Value.coerced?, ha, hb, hc, hd,
        Option.map_some]
      rfl

end Capability

namespace Machine

/-- The capability to make colours gives the colour that its arguments describe, or nil. -/
theorem call_tocolor_eq (place : Place) (w : World) (args : List Value) (frames : List Frame) :
    call place w (.builtin (.capability .tocolor)) args frames =
      replyDatum w frames (((Capability.describedColor w (.ofArguments args)).mapError .call).map
        fun c => .ofOption (c.map .color)) := by
  change callCapability place w .tocolor args frames = _
  cases hcolor : Capability.describedColor w (.ofArguments args) with
  | error e =>
    refine callCapability_of_refused (c := .tocolor) place frames ?_
    simp only [Capability.effect, hcolor]
    rfl
  | ok c =>
    have heffect : Capability.tocolor.effect w (.ofArguments args) =
        .ok (c.elim (.give [.nil]) fun c => .make (.color c)) := by
      simp only [Capability.effect, hcolor]
      cases c <;> rfl
    rw [callCapability_of_ok (c := .tocolor) place frames (by decide) heffect]
    cases c <;> rfl

/-- One text is looked up by the controller. -/
theorem call_tocolor_text (place : Place) (w : World) (bytes : Bytes) (frames : List Frame) :
    (w.controller? = .error .noController →
      call place w (.builtin (.capability .tocolor)) [.text bytes] frames =
        .running w (.raise (.call .noController)) frames) ∧
    ∀ controller, w.controller? = .ok controller →
      call place w (.builtin (.capability .tocolor)) [.text bytes] frames =
        match controller.parseColor? (Utf8.decodeLossy bytes) with
        | some c => .running (w.newObject (.color c)).2 (.give (w.newObject (.color c)).1) frames
        | none => .running w (.give .nil) frames := by
  rw [call_tocolor_eq, Capability.describedColor, ColorShape.ofStack_text]
  refine ⟨fun hnone => ?_, fun controller hsome => ?_⟩
  · rw [hnone]
    rfl
  · rw [hsome]
    change replyDatum w frames (.ok (.ofOption ((controller.parseColor? _).map .color))) = _
    cases controller.parseColor? (Utf8.decodeLossy bytes) <;> rfl

/-- Three or four numbers are the channels of a colour. -/
theorem exists_call_tocolor {args : List Value} {ns : List Numeral}
    (h : args.map Value.numeral? = ns.map some) (hlength : ns.length = 3 ∨ ns.length = 4) :
    ∃ c, (∀ d, IsColor ns d ↔ d = c) ∧ ∀ place w frames,
      call place w (.builtin (.capability .tocolor)) args frames =
        .running (w.newObject (.color c)).2 (.give (w.newObject (.color c)).1) frames := by
  obtain ⟨c, hunique, hcolor⟩ := Capability.exists_describedColor h hlength
  refine ⟨c, hunique, fun place w frames => ?_⟩
  rw [call_tocolor_eq, hcolor]
  rfl

/-- All other arguments give nil. -/
theorem call_tocolor_unmatched {args : List Value} (h : ColorShape.Unmatched args) (place : Place)
    (w : World) (frames : List Frame) :
    call place w (.builtin (.capability .tocolor)) args frames =
      .running w (.give .nil) frames := by
  rw [call_tocolor_eq, Capability.describedColor, ColorShape.ofStack_unmatched h]
  rfl

/-- A call that fails is one with a text and without a controller. -/
theorem exists_text_of_call_tocolor {place : Place} {w w' : World} {args : List Value}
    {frames : List Frame} {f : Fault}
    (hraise : call place w (.builtin (.capability .tocolor)) args frames =
      .running w' (.raise f) frames) :
    ∃ bytes, args = [.text bytes] ∧ w.controller? = .error .noController := by
  obtain ⟨bytes, rfl⟩ | ⟨ns, h, hlength⟩ | h := ColorShape.unmatched_or args
  · refine ⟨bytes, rfl, ?_⟩
    obtain hcontroller | ⟨controller, hcontroller⟩ := w.controller?_cases
    · exact hcontroller
    · rw [(call_tocolor_text place w bytes frames).2 controller hcontroller] at hraise
      split at hraise <;> cases hraise
  · obtain ⟨c, -, hcall⟩ := exists_call_tocolor h hlength
    rw [hcall] at hraise
    cases hraise
  · rw [call_tocolor_unmatched h] at hraise
    cases hraise

/-- **What the capability to make colours gives depends on the number of its arguments.** It fails
just if the only argument is a text and there is no controller to look it up. With a controller it
gives the colour that the controller finds, or nil if it finds none. Three or four numbers or
numerals give the colour of these channels, with or without a controller, and every other list of
arguments gives nil. -/
theorem tocolor_goes_by_arity (args : List Value) :
    (∀ place w frames,
      (∃ w' f, call place w (.builtin (.capability .tocolor)) args frames =
        .running w' (.raise f) frames) ↔
      ∃ bytes, args = [.text bytes] ∧ w.controller? = .error .noController) ∧
    (∀ bytes, args = [.text bytes] → ∀ place w frames,
      (w.controller? = .error .noController →
        call place w (.builtin (.capability .tocolor)) args frames =
          .running w (.raise (.call .noController)) frames) ∧
      ∀ controller, w.controller? = .ok controller →
        call place w (.builtin (.capability .tocolor)) args frames =
          match controller.parseColor? (Utf8.decodeLossy bytes) with
          | some c => .running (w.newObject (.color c)).2 (.give (w.newObject (.color c)).1) frames
          | none => .running w (.give .nil) frames) ∧
    (∀ ns : List Numeral, args.map Value.numeral? = ns.map some →
      ns.length = 3 ∨ ns.length = 4 →
        ∃ c, (∀ d, IsColor ns d ↔ d = c) ∧ ∀ place w frames,
          call place w (.builtin (.capability .tocolor)) args frames =
            .running (w.newObject (.color c)).2 (.give (w.newObject (.color c)).1) frames) ∧
    (ColorShape.Unmatched args → ∀ place w frames,
      call place w (.builtin (.capability .tocolor)) args frames =
        .running w (.give .nil) frames) := by
  refine ⟨fun place w frames => ⟨?_, ?_⟩, ?_, fun ns => exists_call_tocolor,
    call_tocolor_unmatched⟩
  · rintro ⟨w', f, hraise⟩
    exact exists_text_of_call_tocolor hraise
  · rintro ⟨bytes, rfl, hcontroller⟩
    exact ⟨w, .call .noController, (call_tocolor_text place w bytes frames).1 hcontroller⟩
  · rintro bytes rfl place w frames
    exact call_tocolor_text place w bytes frames

/-- Halves are rounded away from zero, and a numeral counts as the number that it stands for,
however long it is. -/
example :
    let zeros := String.ofList (List.replicate 199 '0')
    [.float 254.5, .text (Utf8.encode "0x80"), .text (Utf8.encode ("1." ++ zeros)), .int (-1)].map
      (fun v : Value => v.coerced?.map channel) = [some 255, some 128, some 1, some 0] := by
  decide +kernel

end Machine

end KeyLight
