import KeyLight.Text.Utf8

/-!
# Pieces of a text

A text is cut at byte offsets of its UTF-8 form, and it can be cut only between two characters, not
inside one and not behind the end. `slice?` gives the piece between two offsets if there is one. In
a text all of whose characters are one byte long, offsets are positions (`slice?_of_ascii`).
-/

namespace KeyLight.Text

/-- The number of bytes of a text in UTF-8. -/
def byteLength (cs : List Char) : Nat := cs.foldr (fun c n => c.utf8Size + n) 0

/-- What is left of a text without some bytes in front. -/
def dropBytes? : Nat → List Char → Option (List Char)
  | 0, cs => some cs
  | _ + 1, [] => none
  | n + 1, c :: cs => if c.utf8Size ≤ n + 1 then dropBytes? (n + 1 - c.utf8Size) cs else none

/-- Some bytes in front of a text. -/
def takeBytes? : Nat → List Char → Option (List Char)
  | 0, _ => some []
  | _ + 1, [] => none
  | n + 1, c :: cs =>
    if c.utf8Size ≤ n + 1 then (takeBytes? (n + 1 - c.utf8Size) cs).map (c :: ·) else none

/-- The piece of a text between two byte offsets. -/
def slice? (cs : List Char) (start stop : Nat) : Option (List Char) :=
  if start ≤ stop then (dropBytes? start cs).bind (takeBytes? (stop - start)) else none

open Utf8 (IsAscii)

variable {cs : List Char}

theorem byteLength_of_ascii (h : IsAscii cs) : byteLength cs = cs.length := by
  induction cs with
  | nil => rfl
  | cons c cs ih =>
    obtain ⟨hc, hcs⟩ := List.forall_mem_cons.mp h
    rw [byteLength, List.foldr_cons, hc, List.length_cons, Nat.add_comm]
    exact congrArg (· + 1) (ih hcs)

theorem dropBytes?_of_ascii (h : IsAscii cs) {n : Nat} (hn : n ≤ cs.length) :
    dropBytes? n cs = some (cs.drop n) := by
  induction cs generalizing n with
  | nil =>
    obtain rfl := Nat.le_zero.mp hn
    rfl
  | cons c cs ih =>
    obtain ⟨hc, hcs⟩ := List.forall_mem_cons.mp h
    cases n with
    | zero => rfl
    | succ n =>
      rw [dropBytes?, hc, if_pos (Nat.le_add_left 1 n)]
      exact ih hcs (Nat.le_of_succ_le_succ hn)

theorem takeBytes?_of_ascii (h : IsAscii cs) {n : Nat} (hn : n ≤ cs.length) :
    takeBytes? n cs = some (cs.take n) := by
  induction cs generalizing n with
  | nil =>
    obtain rfl := Nat.le_zero.mp hn
    rfl
  | cons c cs ih =>
    obtain ⟨hc, hcs⟩ := List.forall_mem_cons.mp h
    cases n with
    | zero => rfl
    | succ n =>
      rw [takeBytes?, hc, if_pos (Nat.le_add_left 1 n), Nat.add_sub_cancel,
        ih hcs (Nat.le_of_succ_le_succ hn)]
      rfl

/-- A text all of whose characters are one byte long can be cut anywhere. -/
theorem slice?_of_ascii (h : IsAscii cs) {start stop : Nat} (hle : start ≤ stop)
    (hstop : stop ≤ cs.length) :
    slice? cs start stop = some ((cs.drop start).take (stop - start)) := by
  have hrest : IsAscii (cs.drop start) := fun c hc => h c (List.mem_of_mem_drop hc)
  rw [slice?, if_pos hle, dropBytes?_of_ascii h (Nat.le_trans hle hstop)]
  refine takeBytes?_of_ascii hrest ?_
  rw [List.length_drop]
  exact Nat.sub_le_sub_right hstop start

end KeyLight.Text
