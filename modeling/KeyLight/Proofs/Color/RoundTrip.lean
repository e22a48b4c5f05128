import KeyLight.Environment.Basic
import KeyLight.Proofs.Color.Literal
import KeyLight.Proofs.Machine.Yield
import KeyLight.Proofs.Text.Utf8

/-!
# Texts of colours are read back

The text of a colour is a literal, so the readers give back the colour, and the text of the colour of
a literal is its normal form (`Inverse`). A palette looks for a name first: it gives back the colour
too, unless it has a name that looks like the text (`Palette.parse?_text`). The script that makes a
colour of the text of one goes the same way, through the bytes of the text and the controller.
-/

namespace KeyLight

/-! ### The text of a colour is a literal -/

theorem HexDigit.isBlank {c : Char} {d : Nat} (h : HexDigit c d) : Text.isBlank c = false := by
  have decimals : ∀ d < 10, Text.isBlank (Char.ofNat ('0'.toNat + d)) = false := by decide
  have lowers : ∀ d < 6, Text.isBlank (Char.ofNat ('a'.toNat + d)) = false := by decide
  have uppers : ∀ d < 6, Text.isBlank (Char.ofNat ('A'.toNat + d)) = false := by decide
  cases h with
  | decimal h => exact decimals _ h
  | lower h => exact lowers _ h
  | upper h => exact uppers _ h

namespace ColorLiteral

theorem hexDigit_decimal_or_upper {d : Nat} (h : d < 16) :
    HexDigit (Char.ofNat (if d < 10 then 48 + d else 55 + d)) d := by
  split
  · rename_i hd
    exact .decimal hd
  · obtain ⟨e, rfl⟩ : ∃ e, d = 10 + e := ⟨d - 10, by omega⟩
    rw [← Nat.add_assoc]
    exact .upper (by omega)

/-- The two digits of a channel write it. -/
theorem exists_hexByte_eq (n : UInt8) :
    ∃ high low, hexByte n = [high, low] ∧ WritesByte high low n := by
  have hlt := n.toNat_lt
  exact ⟨_, _, rfl, n.toNat / 16, n.toNat % 16, hexDigit_decimal_or_upper (by omega),
    hexDigit_decimal_or_upper (by omega), by omega⟩

theorem writes_rgb (c : Rgb) :
    Writes (hexByte c.red ++ hexByte c.green ++ hexByte c.blue) c none := by
  obtain ⟨r₁, r₀, hr, hred⟩ := exists_hexByte_eq c.red
  obtain ⟨g₁, g₀, hg, hgreen⟩ := exists_hexByte_eq c.green
  obtain ⟨b₁, b₀, hb, hblue⟩ := exists_hexByte_eq c.blue
  rw [hr, hg, hb]
  exact .long hred hgreen hblue

theorem writes_rgba (c : Rgba) :
    Writes (hexByte c.red ++ hexByte c.green ++ hexByte c.blue ++ hexByte c.alpha) c.rgb
      (some c.alpha) := by
  obtain ⟨r₁, r₀, hr, hred⟩ := exists_hexByte_eq c.red
  obtain ⟨g₁, g₀, hg, hgreen⟩ := exists_hexByte_eq c.green
  obtain ⟨b₁, b₀, hb, hblue⟩ := exists_hexByte_eq c.blue
  obtain ⟨a₁, a₀, ha, halpha⟩ := exists_hexByte_eq c.alpha
  rw [hr, hg, hb, ha]
  exact .withAlpha hred hgreen hblue halpha

/-! ### Texts that start with the number sign -/

variable {h : List Char}

/-- There is nothing to trim around digits after a number sign. -/
theorem trim_sign (hex : isHex h = true) : Text.trim ('#' :: h) = '#' :: h := by
  have hblank : ∀ c ∈ '#' :: h, Text.isBlank c = false :=
    List.forall_mem_cons.mpr ⟨rfl, fun c hc =>
      (isHex_iff.mp hex c hc).elim fun _ hdigit => hdigit.isBlank⟩
  exact Text.trim_eq_iff.mpr
    { around := ⟨[], [], (List.append_nil _).symm, fun _ hc => nomatch hc⟩
      head := fun c hc => hblank c (List.mem_of_head? hc)
      last := fun c hc => hblank c (List.mem_of_getLast? hc) }

/-- What is left of them are the digits. -/
theorem body_sign (hex : isHex h = true) : body (String.ofList ('#' :: h)) = h := by
  rw [body, String.toList_ofList, trim_sign hex]
  rfl

end ColorLiteral

open ColorLiteral

theorem Rgb.parse_text (c : Rgb) : Rgb.parse c.text = (c, true) := by
  have hw := writes_rgb c
  exact parse_eq_iff.mpr ((body_sign hw.isHex).symm ▸ hw)

theorem Rgba.parse_text (c : Rgba) : Rgba.parse c.text = (c, true) := by
  have hw := writes_rgba c
  exact parse_eq_iff.mpr ⟨some c.alpha, (body_sign hw.isHex).symm ▸ hw, rfl⟩

/-- A printer of colours and a reader, which also says whether it accepts a text, are inverse. What
is printed is read back, and the text printed of what is read from an accepted text is accepted as
the same colour. It is a normal form: printing what is read from it changes nothing, and two accepted
texts have the same one only if they are read as the same colour. -/
structure Inverse {α : Type} (print : α → String) (parse : String → α × Bool) : Prop where
  parse_print (c : α) : parse (print c) = (c, true)
  parse_normal (text : String) : (parse text).2 = true →
    parse (print (parse text).1) = parse text
  normal_normal (text : String) : (parse text).2 = true →
    print (parse (print (parse text).1)).1 = print (parse text).1
  parse_eq (text text' : String) : (parse text).2 = true → (parse text').2 = true →
    print (parse text).1 = print (parse text').1 → parse text = parse text'

theorem Inverse.of_parse_print {α : Type} {print : α → String} {parse : String → α × Bool}
    (h : ∀ c, parse (print c) = (c, true)) : Inverse print parse := by
  have hnormal (text : String) (haccepted : (parse text).2 = true) :
      parse (print (parse text).1) = parse text := by
    rw [h, ← haccepted]
  refine ⟨h, hnormal, fun text haccepted => ?_, fun text text' ht ht' hprint => ?_⟩
  · rw [hnormal text haccepted]
  · rw [← hnormal text ht, hprint, hnormal text' ht']

/-! ### Palettes -/

namespace Palette

variable {p : Palette}

theorem find?_eq_none_iff {key : String} :
    p.find? key = none ↔ ∀ e ∈ p.entries, e.1 ≠ key := by
  rw [find?, List.lookup_eq_none_iff]
  simp only [ne_comm, bne_iff_ne]

/-- A palette looks a text of digits up as it stores it. -/
theorem lookupForm_sign {h : List Char} (hex : isHex h = true) :
    Text.lookupForm (String.ofList ('#' :: h)) = storedForm (String.ofList ('#' :: h)) := by
  rw [Text.lookupForm, storedForm, String.toList_ofList, trim_sign hex]

theorem parse?_of_parse {text : String} {c : Rgba} (h : Rgba.parse text = (c, true)) :
    p.parse? text = some ((p.find? (Text.lookupForm text)).elim c Rgba.solid) := by
  have hread : Rgba.parse? text = some c :=
    Rgba.parse?_eq_some_iff.mpr (Rgba.parse_eq_iff.mp h)
  unfold parse?
  split
  · rename_i hfind
    rw [hfind]
    rfl
  · rename_i hfind
    rw [hfind, hread]
    rfl

/-- **A palette gives back a colour** of its text, unless a name that looks like it is in the way. -/
theorem parse?_text (p : Palette) (c : Rgba) :
    p.parse? c.text = some ((p.find? (storedForm c.text)).elim c Rgba.solid) := by
  have hform : Text.lookupForm c.text = storedForm c.text :=
    lookupForm_sign (writes_rgba c).isHex
  rw [parse?_of_parse c.parse_text, hform]

theorem parse?_text_of_rgb (p : Palette) (c : Rgb) :
    p.parse? c.text = some ((p.find? (storedForm c.text)).elim (Rgba.solid c) Rgba.solid) := by
  have hsolid : Rgba.parse c.text = (Rgba.solid c, true) :=
    Rgba.parse_eq_iff.mpr ⟨none, Rgb.parse_eq_iff.mp c.parse_text, rfl⟩
  have hform : Text.lookupForm c.text = storedForm c.text :=
    lookupForm_sign (writes_rgb c).isHex
  rw [parse?_of_parse hsolid, hform]

end Palette

/-! ### Scripts -/

namespace Machine

open Relation

variable {place : Place} {w : World} {scope : Scope} {frames : List Frame} {c : Rgba}

/-- A call with one argument is made once the argument is evaluated. -/
theorem reaches_call {f : String} {e : Expr} {w' : World} {v : Value}
    (harg : Reaches place
      (.running w (.eval e scope) (.operands .call [lookup w scope f] [] scope :: frames))
      (.running w' (.give v) (.operands .call [lookup w scope f] [] scope :: frames))) :
    Reaches place (.running w (.eval (.call (.name f) [e]) scope) frames)
      (call place w' (lookup w scope f) [v] frames) := by
  have hcallee : Reaches place (.running w (.eval (.call (.name f) [e]) scope) frames)
      (.running w (.eval e scope) (.operands .call [lookup w scope f] [] scope :: frames)) :=
    ((ReflTransGen.single (.step ..)).tail (.step ..)).tail (.step ..)
  exact (hcallee.trans harg).tail (.step ..)

/-- The text of an object that is a colour. -/
theorem tostring_color {id : Nat} (hcolor : w.heap.objects[id]? = some (.color c)) :
    tostring w [.object id] = .ok (.text (Utf8.encode c.text)) := by
  simp only [tostring, World.text, hcolor]
  rfl

/-- A capability makes a colour of a text that the controller resolves. -/
theorem call_tocolor {controller : Controller} {bytes : Bytes}
    (hcontroller : w.controller? = .ok controller)
    (hcolor : controller.parseColor? (Utf8.decodeLossy bytes) = some c) :
    call place w (.builtin (.capability .tocolor)) [.text bytes] frames =
      .running (w.newObject (.color c)).2 (.give (w.newObject (.color c)).1) frames := by
  have hdescribed : Capability.describedColor w (.ofArguments [.text bytes]) = .ok (some c) := by
    change (do .ok ((← w.controller?).parseColor? (Utf8.decodeLossy bytes))) = _
    rw [hcontroller, ← hcolor]
    rfl
  have heffect : Capability.tocolor.effect w (.ofArguments [.text bytes]) =
      .ok (.make (.color c)) := by
    rw [Capability.effect, hdescribed]
    rfl
  have hentry : entryPoint (Capability.body .tocolor) w [.text bytes] =
      (.ok [(w.newObject (.color c)).1], (w.newObject (.color c)).2) := by
    rw [entryPoint_body, heffect]
    rfl
  rw [call, callCapability, hentry]
  rfl

/-- **A script that makes a colour of the text of one** makes the same colour. The names may be those
of any variables that hold the two functions and the colour. -/
theorem reaches_tocolor_tostring {p : Palette} {f g x : String} {id : Nat}
    (hpalette : w.controller? = .ok (.palette p))
    (hname : ∀ e ∈ p.entries, e.1 ≠ Palette.storedForm c.text)
    (hf : lookup w scope f = .builtin (.capability .tocolor))
    (hg : lookup w scope g = .builtin .tostring) (hx : lookup w scope x = .object id)
    (hcolor : w.heap.objects[id]? = some (.color c)) :
    Reaches place (.running w (.eval (.call (.name f) [.call (.name g) [.name x]]) scope) frames)
      (.running (w.newObject (.color c)).2 (.give (w.newObject (.color c)).1) frames) := by
  have hread : Utf8.decodeLossy (Utf8.encode c.text) = c.text :=
    Utf8.decodeLossy_encode c.text
  have hresolved : (Controller.palette p).parseColor?
      (Utf8.decodeLossy (Utf8.encode c.text)) = some c := by
    rw [hread, Controller.parseColor?_palette, p.parse?_text c, Palette.find?_eq_none_iff.mpr hname]
    rfl
  have hmade : call place w (.builtin (.capability .tocolor)) [.text (Utf8.encode c.text)] frames =
      .running (w.newObject (.color c)).2 (.give (w.newObject (.color c)).1) frames :=
    call_tocolor hpalette hresolved
  rw [← hmade, ← hf]
  refine reaches_call ?_
  -- the inner call leaves the frame of the outer one as it is
  generalize .operands .call [lookup w scope f] [] scope :: frames = inner
  have htext : call place w (lookup w scope g) [.object id] inner =
      .running w (.give (.text (Utf8.encode c.text))) inner := by
    rw [hg, call, tostring_color hcolor]
    rfl
  rw [← htext, ← hx]
  exact reaches_call (.single (.step ..))

end Machine

/-- **Printing and reading colours are inverse.** Each reader gives back what its printer prints. A
palette does so, whatever its names are, unless one of them is the text in lower case, and so does a
script that makes a colour of the text of one, if the attached controller has such a palette. -/
theorem colors_are_read_back :
    Inverse Rgb.text Rgb.parse ∧ Inverse Rgba.text Rgba.parse ∧
      (∀ (p : Palette) (c : Rgb), (∀ e ∈ p.entries, e.1 ≠ Palette.storedForm c.text) →
        p.parse? c.text = some ⟨c.red, c.green, c.blue, 255⟩) ∧
      (∀ (p : Palette) (c : Rgba), (∀ e ∈ p.entries, e.1 ≠ Palette.storedForm c.text) →
        p.parse? c.text = some c) ∧
      ∀ (p : Palette) (c : Rgba), (∀ e ∈ p.entries, e.1 ≠ Palette.storedForm c.text) →
        ∀ (place : Place) (w : World) (scope : Scope) (frames : List Frame)
          (f g x : String) (id : Nat),
          w.controller? = .ok (.palette p) →
          Machine.lookup w scope f = .builtin (.capability .tocolor) →
          Machine.lookup w scope g = .builtin .tostring →
          Machine.lookup w scope x = .object id →
          w.heap.objects[id]? = some (.color c) →
          ∃ w' v, w'.heap.object? v = some (.color c) ∧
            Machine.Reaches place
              (.running w (.eval (.call (.name f) [.call (.name g) [.name x]]) scope) frames)
              (.running w' (.give v) frames) := by
  refine ⟨.of_parse_print Rgb.parse_text, .of_parse_print Rgba.parse_text, fun p c hname => ?_,
    fun p c hname => ?_,
    fun p c hname place w scope frames f g x id hpalette hf hg hx hcolor => ?_⟩
  · rw [p.parse?_text_of_rgb c, Palette.find?_eq_none_iff.mpr hname]
    rfl
  · rw [p.parse?_text c, Palette.find?_eq_none_iff.mpr hname]
    rfl
  · exact ⟨_, _, w.heap.object?_addObject (.color c),
      Machine.reaches_tocolor_tostring hpalette hname hf hg hx hcolor⟩

/-- A palette controller is attached, and there is a transparent colour. -/
def coloredWorld : World :=
  let controller := Controller.palette Palette.standard
  let w := ((Environment.start (Host.empty.addController controller).2 {}).attach 0).world
  let (v, w) := w.newObject (.color ⟨1, 2, 0xFF, 4⟩)
  w.withRealm (w.setGlobal "x" v)

/-- The text of the colour is made a colour again. -/
theorem colors_are_read_back_colored :
    ∃ w v, w.heap.object? v = some (.color ⟨1, 2, 0xFF, 4⟩) ∧
      Machine.Reaches .main
        (.running coloredWorld
          (.eval (.call (.name "tocolor") [.call (.name "tostring") [.name "x"]]) []) [])
        (.running w (.give v) []) := by
  have hname : ∀ e ∈ Palette.standard.entries,
      e.1 ≠ Palette.storedForm (Rgba.text ⟨1, 2, 0xFF, 4⟩) := by decide
  obtain ⟨-, -, -, -, hscript⟩ := colors_are_read_back
  exact hscript Palette.standard ⟨1, 2, 0xFF, 4⟩ hname .main coloredWorld [] [] "tocolor"
    "tostring" "x" _ rfl rfl rfl rfl rfl

end KeyLight
