import KeyLight.Proofs.Machine.Native
import KeyLight.Proofs.Number.Float
import KeyLight.Proofs.World.Change

/-!
# Arguments of a fade

`IsFade` says which fade some arguments describe: its ends are two numbers or two colours, its
duration is a finite number that is not negative, and its easing is the one that is named or the one
that the environment is configured with. `RefusesFade` says of all other arguments which error they
lead to: the ends are looked at first, then the duration, and the easing last. The capability makes
the fade or raises the error, and leaves the world as it is then (`Machine.call_fade_eq_give_iff`,
`Machine.call_fade_eq_raise_iff`).
-/

namespace KeyLight

/-- The colour of an end of a fade: a colour, or a text that the controller resolves. -/
inductive IsEndColor (w : World) : Option Value → Rgba → Prop
  | object {id : Nat} {c : Rgba} (h : w.heap.objects[id]? = some (.color c)) :
      IsEndColor w (some (.object id)) c
  | text {bytes : Bytes} {controller : Controller} {c : Rgba}
      (hcontroller : w.controller? = .ok controller)
      (h : controller.parseColor? (Utf8.decodeLossy bytes) = some c) :
      IsEndColor w (some (.text bytes)) c

/-- The number of an end of a fade. A numeral is none. -/
inductive IsEndNumber : Option Value → Float → Prop
  | int (n : Int64) : IsEndNumber (some (.int n)) (Binary64.ofInt n.toInt)
  | float (x : Float) : IsEndNumber (some (.float x)) x

/-- The ends of a fade: two numbers or two colours. -/
inductive IsEnds (w : World) (a b : Option Value) : Endpoints → Prop
  | number {x y : Float} (ha : IsEndNumber a x) (hb : IsEndNumber b y) : IsEnds w a b (.number x y)
  | color {c d : Rgba} (ha : IsEndColor w a c) (hb : IsEndColor w b d) : IsEnds w a b (.color c d)

/-- The duration of a fade: a finite number, or a numeral for one, that is not negative. -/
def IsDuration (v : Option Value) (x : Float) : Prop := ∃ q, HoldsNumber v x q ∧ 0 ≤ q

/-- The easing of a fade: the one that is named, or the configured one. -/
inductive IsEasing (w : World) : Option Value → Easing → Prop
  | absent : IsEasing w none w.context.defaultEasing
  | nil : IsEasing w (some .nil) w.context.defaultEasing
  | named {bytes : Bytes} {e : Easing} (h : Easing.ofName? (Utf8.decodeLossy bytes) = some e) :
      IsEasing w (some (.text bytes)) e

/-- The fade that some arguments describe. -/
structure IsFade (w : World) (args : List Value) (f : Interpolator) : Prop where
  ends : IsEnds w args[0]? args[1]? f.endpoints
  start : f.start = w.context.clock
  duration : IsDuration args[2]? f.duration
  easing : IsEasing w args[3]? f.easing

/-! ### Arguments that are refused -/

/-- How an end of a fade between colours is refused: no controller is there to resolve a text, the
controller does not know the text, or the end is neither a colour nor a text. -/
inductive RefusesEndColor (w : World) (position : Nat) : Option Value → CallError → Prop
  | noController {bytes : Bytes} (hcontroller : w.controller? = .error .noController) :
      RefusesEndColor w position (some (.text bytes)) .noController
  | unknown {bytes : Bytes} {controller : Controller} (hcontroller : w.controller? = .ok controller)
      (h : controller.parseColor? (Utf8.decodeLossy bytes) = none) :
      RefusesEndColor w position (some (.text bytes))
        (.argument "fade" position ("unknown color '" ++ Utf8.decodeLossy bytes ++ "'"))
  | typeMismatch {id : Nat} (h : ∀ c, w.heap.objects[id]? ≠ some (.color c)) :
      RefusesEndColor w position (some (.object id)) (.typeMismatch position "RGBAColor" "userdata")
  | noColor {v : Option Value} (htext : ∀ bytes, v ≠ some (.text bytes))
      (hobject : ∀ id, v ≠ some (.object id)) :
      RefusesEndColor w position v
        (.argument "fade" position ("color or number expected, got " ++ Value.describe v))

/-- How the ends of a fade are refused: just one of them is a number, or none is, and the first one
of them is refused that is no colour. -/
inductive RefusesEnds (w : World) (a b : Option Value) : CallError → Prop
  | mixed (h : (∃ x, IsEndNumber a x) ↔ ¬∃ y, IsEndNumber b y) :
      RefusesEnds w a b (.argument "fade" 2
        ("endpoints must both be numbers or both colors, got " ++ Value.describe a ++ " and " ++
          Value.describe b))
  | first {e : CallError} (ha : ¬∃ x, IsEndNumber a x) (hb : ¬∃ y, IsEndNumber b y)
      (h : RefusesEndColor w 1 a e) : RefusesEnds w a b e
  | second {c : Rgba} {e : CallError} (ha : IsEndColor w a c) (hb : ¬∃ y, IsEndNumber b y)
      (h : RefusesEndColor w 2 b e) : RefusesEnds w a b e

/-- How the duration of a fade is refused. -/
inductive RefusesDuration (v : Option Value) : CallError → Prop
  | noNumber (h : ∀ x q, ¬HoldsNumber v x q) :
      RefusesDuration v (.argument "fade" 3 ("number expected, got " ++ Value.describe v))
  | negative {x : Float} {q : Rat} (h : HoldsNumber v x q) (hq : q < 0) :
      RefusesDuration v (.argument "fade" 3 "duration must not be negative")

/-- How the easing of a fade is refused. -/
inductive RefusesEasing : Option Value → CallError → Prop
  | unknown {bytes : Bytes} (h : Easing.ofName? (Utf8.decodeLossy bytes) = none) :
      RefusesEasing (some (.text bytes))
        (.argument "fade" 4 ("unknown easing '" ++ Utf8.decodeLossy bytes ++ "'"))
  | noName {v : Option Value} (habsent : v ≠ none) (hnil : v ≠ some .nil)
      (htext : ∀ bytes, v ≠ some (.text bytes)) :
      RefusesEasing v (.argument "fade" 4 ("easing name expected, got " ++ Value.describe v))

/-- How the arguments of a fade are refused: with what is wrong with the ends, and if nothing is,
with what is wrong with the duration, and then with the easing. -/
inductive RefusesFade (w : World) (args : List Value) : CallError → Prop
  | ends {e : CallError} (h : RefusesEnds w args[0]? args[1]? e) : RefusesFade w args e
  | duration {ends : Endpoints} {e : CallError} (hends : IsEnds w args[0]? args[1]? ends)
      (h : RefusesDuration args[2]? e) : RefusesFade w args e
  | easing {ends : Endpoints} {x : Float} {e : CallError} (hends : IsEnds w args[0]? args[1]? ends)
      (hduration : IsDuration args[2]? x) (h : RefusesEasing args[3]? e) : RefusesFade w args e

/-- The errors are of three kinds. No controller is missing unless an end is a text, and no end is
of a wrong type unless it is an object that is no colour. -/
theorem RefusesFade.kinds {w : World} {args : List Value} {e : CallError}
    (h : RefusesFade w args e) :
    (e = .noController ∧ w.controller? = .error .noController ∧
      ∃ i < 2, ∃ bytes, args[i]? = some (.text bytes)) ∨
    (∃ i < 2, ∃ id, args[i]? = some (.object id) ∧ (∀ c, w.heap.objects[id]? ≠ some (.color c)) ∧
      e = .typeMismatch (i + 1) "RGBAColor" "userdata") ∨
    ∃ position reason, e = .argument "fade" position reason := by
  cases h with
  | ends h =>
    obtain hmixed | ⟨i, hi, h⟩ : (∃ position reason, e = .argument "fade" position reason) ∨
        ∃ i < 2, RefusesEndColor w (i + 1) args[i]? e := by
      cases h with
      | mixed => exact .inl ⟨_, _, rfl⟩
      | first _ _ h => exact .inr ⟨0, by decide, h⟩
      | second _ _ h => exact .inr ⟨1, by decide, h⟩
    · exact .inr (.inr hmixed)
    · generalize hv : args[i]? = v at h
      cases h with
      | noController hcontroller => exact .inl ⟨rfl, hcontroller, i, hi, _, hv⟩
      | typeMismatch hobject => exact .inr (.inl ⟨i, hi, _, hv, hobject, rfl⟩)
      | unknown | noColor => exact .inr (.inr ⟨_, _, rfl⟩)
  | duration _ h => cases h <;> exact .inr (.inr ⟨_, _, rfl⟩)
  | easing _ _ h =>
    generalize args[3]? = v at h
    cases h <;> exact .inr (.inr ⟨_, _, rfl⟩)

namespace Capability

variable {w : World} {args : List Value} {v a b : Option Value}

/-! ### Ends -/

theorem isEndNumber_iff {x : Float} : IsEndNumber v x ↔ v.bind Value.number? = some x := by
  constructor
  · rintro ⟨⟩ <;> rfl
  · intro h
    obtain ⟨u, rfl, hu⟩ := Option.bind_eq_some_iff.mp h
    cases u with
    | int n =>
      obtain rfl := Option.some.inj hu
      exact .int n
    | float y =>
      obtain rfl := Option.some.inj hu
      exact .float y
    | nil | bool | text | table | closure | builtin | object => cases hu

/-- With a controller a text is an end just if the controller resolves it. -/
theorem endpointColor_text {controller : Controller} (h : w.controller? = .ok controller)
    (bytes : Bytes) (position : Nat) :
    endpointColor w (some (.text bytes)) position =
      (controller.parseColor? (Utf8.decodeLossy bytes)).elim
        (.error (.argument "fade" position ("unknown color '" ++ Utf8.decodeLossy bytes ++ "'")))
        .ok := by
  simp only [endpointColor, h, bind, Except.bind]
  cases controller.parseColor? (Utf8.decodeLossy bytes) <;> rfl

theorem endpointColor_eq_ok {position : Nat} {c : Rgba} :
    endpointColor w v position = .ok c ↔ IsEndColor w v c := by
  constructor
  · intro h
    unfold endpointColor at h
    split at h
    · obtain ⟨controller, hcontroller, h⟩ := Except.exists_of_bind_eq_ok h
      split at h
      · rename_i c' hc
        obtain rfl := Except.ok.inj h
        exact .text hcontroller hc
      · cases h
    · rename_i id
      unfold Heap.check at h
      split at h
      · rename_i c' hc
        obtain rfl := Except.ok.inj h
        obtain ⟨o, ho, hunwrap⟩ := Option.bind_eq_some_iff.mp hc
        exact .object (ho.trans (congrArg some ((Exposed.unwrap?_eq_some o c').mp hunwrap)))
      · cases h
    · cases h
  · rintro ⟨h⟩
    · simp only [endpointColor, Heap.check, Option.bind_some, Heap.object?, h]
      rfl
    · rename_i bytes controller hcontroller h
      rw [endpointColor_text hcontroller, h]
      rfl

theorem endpointColor_eq_error {position : Nat} {e : CallError} :
    endpointColor w v position = .error e ↔ RefusesEndColor w position v e := by
  constructor
  · intro h
    unfold endpointColor at h
    split at h
    · rename_i bytes
      obtain hcontroller | ⟨controller, hcontroller⟩ := w.controller?_cases
      · rw [hcontroller] at h
        obtain rfl := Except.error.inj h
        exact .noController hcontroller
      · rw [hcontroller] at h
        simp only [bind, Except.bind] at h
        split at h
        · cases h
        · rename_i hunknown
          obtain rfl := Except.error.inj h
          exact .unknown hcontroller hunknown
    · rename_i id
      have hnot (c : Rgba) : w.heap.objects[id]? ≠ some (.color c) := fun hc => by
        have hread : endpointColor w (some (.object id)) position = .ok c :=
          endpointColor_eq_ok.mpr (.object hc)
        cases hread.symm.trans h
      unfold Heap.check at h
      split at h
      · cases h
      · obtain rfl := Except.error.inj h
        exact .typeMismatch hnot
    · rename_i htext hobject
      obtain rfl := Except.error.inj h
      exact .noColor htext hobject
  · rintro (hcontroller | ⟨hcontroller, hunknown⟩ | hnot | ⟨htext, hobject⟩)
    · simp only [endpointColor, hcontroller]
      rfl
    · rw [endpointColor_text hcontroller, hunknown]
      rfl
    · rename_i id
      cases hread : endpointColor w (some (.object id)) position with
      | ok c =>
        obtain ⟨hc⟩ := endpointColor_eq_ok.mp hread
        exact absurd hc (hnot c)
      | error e =>
        simp only [endpointColor, Heap.check] at hread
        split at hread
        · cases hread
        · exact hread.symm
    · unfold endpointColor
      split
      · exact absurd rfl (htext _)
      · exact absurd rfl (hobject _)
      · rfl

theorem not_isEndNumber {c : Rgba} (h : IsEndColor w v c) : v.bind Value.number? = none := by
  cases h <;> rfl

theorem endpoints_eq (w : World) (args : List Value) :
    endpoints w (.ofArguments args) =
      match args[0]?.bind Value.number?, args[1]?.bind Value.number? with
      | some x, some y => .ok (.number x y)
      | none, none => do
        let c ← endpointColor w args[0]? 1
        .ok (.color c (← endpointColor w args[1]? 2))
      | _, _ =>
        .error (.argument "fade" 2
          ("endpoints must both be numbers or both colors, got " ++ Value.describe args[0]? ++
            " and " ++ Value.describe args[1]?)) := rfl

theorem endpoints_eq_ok {ends : Endpoints} :
    endpoints w (.ofArguments args) = .ok ends ↔ IsEnds w args[0]? args[1]? ends := by
  rw [endpoints_eq]
  constructor
  · intro h
    split at h
    · rename_i x y hx hy
      obtain rfl := Except.ok.inj h
      exact .number (isEndNumber_iff.mpr hx) (isEndNumber_iff.mpr hy)
    · obtain ⟨c, hc, h⟩ := Except.exists_of_bind_eq_ok h
      obtain ⟨d, hd, h⟩ := Except.exists_of_bind_eq_ok h
      obtain rfl := Except.ok.inj h
      exact .color (endpointColor_eq_ok.mp hc) (endpointColor_eq_ok.mp hd)
    · cases h
  · rintro (⟨ha, hb⟩ | ⟨ha, hb⟩)
    · rw [isEndNumber_iff.mp ha, isEndNumber_iff.mp hb]
    · rw [not_isEndNumber ha, not_isEndNumber hb]
      simp only [endpointColor_eq_ok.mpr ha, endpointColor_eq_ok.mpr hb]
      rfl

theorem not_isEndNumber_iff : (¬∃ x, IsEndNumber v x) ↔ v.bind Value.number? = none := by
  simp only [isEndNumber_iff, Option.eq_none_iff_forall_ne_some, not_exists]

theorem endpoints_eq_error {e : CallError} :
    endpoints w (.ofArguments args) = .error e ↔ RefusesEnds w args[0]? args[1]? e := by
  rw [endpoints_eq]
  constructor
  · intro h
    split at h
    · cases h
    · rename_i ha hb
      obtain hfirst | ⟨c, hc, h⟩ := Except.bind_eq_error_iff.mp h
      · exact .first (not_isEndNumber_iff.mpr ha) (not_isEndNumber_iff.mpr hb)
          (endpointColor_eq_error.mp hfirst)
      obtain hsecond | ⟨d, -, h⟩ := Except.bind_eq_error_iff.mp h
      · exact .second (endpointColor_eq_ok.mp hc) (not_isEndNumber_iff.mpr hb)
          (endpointColor_eq_error.mp hsecond)
      · cases h
    · rename_i hnumbers hcolors
      obtain rfl := Except.error.inj h
      refine .mixed ?_
      rw [not_isEndNumber_iff]
      simp only [isEndNumber_iff]
      cases ha : args[0]?.bind Value.number? with
      | none => exact iff_of_false (fun ⟨_, h⟩ => nomatch h) fun hb => hcolors ha hb
      | some x =>
        refine iff_of_true ⟨x, rfl⟩ (Option.eq_none_iff_forall_ne_some.mpr fun y hb => ?_)
        exact hnumbers x y ha hb
  · rintro (h | ⟨ha, hb, h⟩ | ⟨ha, hb, h⟩)
    · rw [not_isEndNumber_iff] at h
      simp only [isEndNumber_iff] at h
      split
      · rename_i ha hb
        exact absurd (h.mp ⟨_, ha⟩) (by rw [hb]; nofun)
      · rename_i ha hb
        obtain ⟨x, hx⟩ := h.mpr hb
        exact nomatch ha.symm.trans hx
      · rfl
    · rw [not_isEndNumber_iff.mp ha, not_isEndNumber_iff.mp hb]
      exact Except.bind_eq_error_iff.mpr (.inl (endpointColor_eq_error.mpr h))
    · rw [not_isEndNumber ha, not_isEndNumber_iff.mp hb]
      exact Except.bind_eq_error_iff.mpr (.inr ⟨_, endpointColor_eq_ok.mpr ha,
        Except.bind_eq_error_iff.mpr (.inl (endpointColor_eq_error.mpr h))⟩)

/-! ### Duration and easing -/

theorem fadeDuration_eq_ok {x : Float} :
    fadeDuration (.ofArguments args) = .ok x ↔ IsDuration args[2]? x := by
  constructor
  · intro h
    obtain ⟨y, hy, h⟩ := Except.exists_of_bind_eq_ok h
    obtain ⟨q, hnumber, hq⟩ := Stack.finiteNumber_eq_ok.mp hy
    split at h
    · cases h
    · rename_i hnot
      obtain rfl := Except.ok.inj h
      exact ⟨q, ⟨hnumber, hq⟩, not_lt.mp fun hlt => hnot ((Binary64.lt_zero_iff hq).mpr hlt)⟩
  · rintro ⟨q, hholds, hle⟩
    have hnot : ¬x < 0.0 := fun hlt =>
      absurd ((Binary64.lt_zero_iff hholds.finite).mp hlt) (not_lt.mpr hle)
    have hread : (Stack.ofArguments args).finiteNumber 3 "fade" = .ok x :=
      Stack.finiteNumber_eq_ok.mpr ⟨q, hholds⟩
    simp only [fadeDuration, hread, bind, Except.bind, if_neg hnot]

theorem fadeDuration_eq_error {e : CallError} :
    fadeDuration (.ofArguments args) = .error e ↔ RefusesDuration args[2]? e := by
  have hread {x : Float} {q : Rat} (h : HoldsNumber args[2]? x q) :
      (Stack.ofArguments args).finiteNumber 3 "fade" = .ok x := Stack.finiteNumber_eq_ok.mpr ⟨q, h⟩
  constructor
  · intro h
    obtain h | ⟨x, hx, h⟩ := Except.bind_eq_error_iff.mp h
    · have hnot : ∀ x q, ¬HoldsNumber args[2]? x q := fun x q hx => nomatch (hread hx).symm.trans h
      rw [Stack.finiteNumber_of_not hnot] at h
      obtain rfl := Except.error.inj h
      exact .noNumber hnot
    · obtain ⟨q, hholds⟩ := Stack.finiteNumber_eq_ok.mp hx
      split at h
      · rename_i hlt
        obtain rfl := Except.error.inj h
        exact .negative hholds ((Binary64.lt_zero_iff hholds.finite).mp hlt)
      · cases h
  · rintro (hnot | ⟨hholds, hlt⟩)
    · exact Except.bind_eq_error_iff.mpr (.inl (Stack.finiteNumber_of_not hnot))
    · refine Except.bind_eq_error_iff.mpr (.inr ⟨_, hread hholds, ?_⟩)
      rw [if_pos ((Binary64.lt_zero_iff hholds.finite).mpr hlt)]

theorem fadeEasing_eq_ok {e : Easing} :
    fadeEasing w (.ofArguments args) = .ok e ↔ IsEasing w args[3]? e := by
  unfold fadeEasing
  rw [Stack.get?_ofArguments args 3]
  constructor
  · intro h
    split at h
    · obtain rfl := Except.ok.inj h
      rename_i hv
      rw [hv]
      exact .absent
    · obtain rfl := Except.ok.inj h
      rename_i hv
      rw [hv]
      exact .nil
    · rename_i hv
      rw [hv]
      simp only at h
      split at h
      · rename_i he
        obtain rfl := Except.ok.inj h
        exact .named he
      · cases h
    · cases h
  · generalize args[3]? = v
    rintro (_ | _ | ⟨h⟩)
    · rfl
    · rfl
    · simp only [h]

theorem fadeEasing_eq_error {e : CallError} :
    fadeEasing w (.ofArguments args) = .error e ↔ RefusesEasing args[3]? e := by
  unfold fadeEasing
  rw [Stack.get?_ofArguments args 3]
  constructor
  · intro h
    split at h
    · cases h
    · cases h
    · rename_i hv
      rw [hv]
      simp only at h
      split at h
      · cases h
      · rename_i hunknown
        obtain rfl := Except.error.inj h
        exact .unknown hunknown
    · rename_i habsent hnil htext
      obtain rfl := Except.error.inj h
      exact .noName habsent hnil htext
  · generalize args[3]? = v
    rintro (hunknown | ⟨habsent, hnil, htext⟩)
    · simp only [hunknown]
    · split
      · exact absurd rfl habsent
      · exact absurd rfl hnil
      · exact absurd rfl (htext _)
      · rfl

/-! ### Fades -/

/-- **The capability finds the fade that its arguments describe.** -/
theorem describedFade_eq_ok {f : Interpolator} :
    describedFade w (.ofArguments args) = .ok f ↔ IsFade w args f := by
  constructor
  · intro h
    obtain ⟨ends, hends, h⟩ := Except.exists_of_bind_eq_ok h
    obtain ⟨duration, hduration, h⟩ := Except.exists_of_bind_eq_ok h
    obtain ⟨easing, heasing, h⟩ := Except.exists_of_bind_eq_ok h
    obtain rfl := Except.ok.inj h
    exact ⟨endpoints_eq_ok.mp hends, rfl, fadeDuration_eq_ok.mp hduration,
      fadeEasing_eq_ok.mp heasing⟩
  · rintro ⟨hends, hstart, hduration, heasing⟩
    obtain ⟨ends, start, duration, easing⟩ := f
    obtain rfl : start = _ := hstart
    simp only [describedFade, endpoints_eq_ok.mpr hends, fadeDuration_eq_ok.mpr hduration,
      fadeEasing_eq_ok.mpr heasing]
    rfl

/-- **If it finds none, it fails with the first thing that is wrong.** -/
theorem describedFade_eq_error {e : CallError} :
    describedFade w (.ofArguments args) = .error e ↔ RefusesFade w args e := by
  constructor
  · intro h
    obtain h | ⟨ends, hends, h⟩ := Except.bind_eq_error_iff.mp h
    · exact .ends (endpoints_eq_error.mp h)
    obtain h | ⟨x, hx, h⟩ := Except.bind_eq_error_iff.mp h
    · exact .duration (endpoints_eq_ok.mp hends) (fadeDuration_eq_error.mp h)
    obtain h | ⟨easing, -, h⟩ := Except.bind_eq_error_iff.mp h
    · exact .easing (endpoints_eq_ok.mp hends) (fadeDuration_eq_ok.mp hx) (fadeEasing_eq_error.mp h)
    · cases h
  · rintro (h | ⟨hends, h⟩ | ⟨hends, hduration, h⟩)
    · exact Except.bind_eq_error_iff.mpr (.inl (endpoints_eq_error.mpr h))
    · exact Except.bind_eq_error_iff.mpr (.inr ⟨_, endpoints_eq_ok.mpr hends,
        Except.bind_eq_error_iff.mpr (.inl (fadeDuration_eq_error.mpr h))⟩)
    · exact Except.bind_eq_error_iff.mpr (.inr ⟨_, endpoints_eq_ok.mpr hends,
        Except.bind_eq_error_iff.mpr (.inr ⟨_, fadeDuration_eq_ok.mpr hduration,
          Except.bind_eq_error_iff.mpr (.inl (fadeEasing_eq_error.mpr h))⟩)⟩)

/-- Arguments are refused with one error only. -/
theorem refusesFade_unique {e e' : CallError} (h : RefusesFade w args e)
    (h' : RefusesFade w args e') : e' = e :=
  Except.error.inj ((describedFade_eq_error.mpr h').symm.trans (describedFade_eq_error.mpr h))

/-- Any arguments describe a fade or are refused. -/
theorem isFade_or_refusesFade (w : World) (args : List Value) :
    (∃ f, IsFade w args f) ∨ ∃! e, RefusesFade w args e := by
  cases h : describedFade w (.ofArguments args) with
  | ok f => exact .inl ⟨f, describedFade_eq_ok.mp h⟩
  | error e =>
    have hrefused := describedFade_eq_error.mp h
    exact .inr ⟨e, hrefused, fun _ => refusesFade_unique hrefused⟩

end Capability

/-- Worlds with different new objects are different. -/
theorem World.newObject_inj {w : World} {o o' : Object}
    (h : (w.newObject o).2 = (w.newObject o').2) : o = o' :=
  have hobjects : w.heap.objects.push o = w.heap.objects.push o' :=
    congrArg (fun w : World => w.heap.objects) h
  (Array.push_eq_push.mp hobjects).1

namespace Machine

variable (place : Place) {w : World} {args : List Value} (frames : List Frame)

theorem effect_fade (w : World) (args : List Value) :
    Capability.fade.effect w (.ofArguments args) =
      ((Capability.describedFade w (.ofArguments args)).mapError .call).map
        fun f => .make (.fade f) := by
  simp only [Capability.effect]
  cases Capability.describedFade w (.ofArguments args) <;> rfl

theorem call_fade_of_ok {f : Interpolator}
    (h : Capability.describedFade w (.ofArguments args) = .ok f) :
    call place w (.builtin (.capability .fade)) args frames =
      .running (w.newObject (.fade f)).2 (.give (w.newObject (.fade f)).1) frames := by
  have heffect : Capability.fade.effect w (.ofArguments args) = .ok (.make (.fade f)) := by
    rw [effect_fade, h]
    rfl
  exact callCapability_of_ok (c := .fade) place frames nofun heffect

theorem call_fade_of_error {e : CallError}
    (h : Capability.describedFade w (.ofArguments args) = .error e) :
    call place w (.builtin (.capability .fade)) args frames =
      .running w (.raise (.call e)) frames := by
  refine callCapability_of_refused (c := .fade) place frames ?_
  rw [effect_fade, h]
  rfl

/-- **A call makes a fade just if its arguments describe it.** -/
theorem call_fade_eq_give_iff {f : Interpolator} :
    call place w (.builtin (.capability .fade)) args frames =
        .running (w.newObject (.fade f)).2 (.give (w.newObject (.fade f)).1) frames ↔
      IsFade w args f := by
  rw [← Capability.describedFade_eq_ok]
  refine ⟨fun hcall => ?_, call_fade_of_ok place frames⟩
  cases hfade : Capability.describedFade w (.ofArguments args) with
  | ok g =>
    rw [call_fade_of_ok place frames hfade] at hcall
    exact congrArg _ (Object.fade.inj (World.newObject_inj (Next.running.inj hcall).1))
  | error e =>
    rw [call_fade_of_error place frames hfade] at hcall
    exact absurd (Next.running.inj hcall).2.1 nofun

/-- **A call raises an error just if its arguments are refused with it.** -/
theorem call_fade_eq_raise_iff {e : CallError} :
    call place w (.builtin (.capability .fade)) args frames =
        .running w (.raise (.call e)) frames ↔ RefusesFade w args e := by
  rw [← Capability.describedFade_eq_error]
  refine ⟨fun hcall => ?_, call_fade_of_error place frames⟩
  cases hfade : Capability.describedFade w (.ofArguments args) with
  | ok g =>
    rw [call_fade_of_ok place frames hfade] at hcall
    exact absurd (Next.running.inj hcall).2.1 nofun
  | error e' =>
    rw [call_fade_of_error place frames hfade] at hcall
    exact congrArg _ (Fault.call.inj (Control.raise.inj (Next.running.inj hcall).2.1))

end Machine

end KeyLight
