import KeyLight.Environment.Basic
import KeyLight.Proofs.Native.Effect
import KeyLight.Proofs.Text.Joining

/-!
# Printing several texts

A script that prints several byte strings has each of them read as a text of its own, and the texts
go to the controller as one. That is what printing the byte string that they make together comes to,
unless a character is cut between two of them (`printing_joins_unless_torn`): then the controller is
sent U+FFFD for the parts of the character, and the character itself only if it is printed as one.
-/

namespace KeyLight

namespace Capability

/-- The texts of byte strings are joined as what the strings are read as. -/
theorem joinTexts_text (w : World) (pieces : List Bytes) :
    joinTexts w (pieces.map .text) = .ok (String.join (pieces.map Utf8.decodeLossy)) := by
  induction pieces with
  | nil => rfl
  | cons piece pieces ih =>
    rw [List.map_cons, joinTexts, ih, List.map_cons, String.join_cons]
    rfl

end Capability

/-- What the controller is told of two texts is different if they are. -/
theorem World.printed_inj {w : World} {id : Nat} {a b : String}
    (h : w.tell (@Notice.printed id a) = w.tell (@Notice.printed id b)) : a = b := by
  have hjournal : w.journal.push (@Notice.printed id a) = w.journal.push (@Notice.printed id b) :=
    congrArg (fun w : World => w.journal) h
  exact (Notice.printed.inj (Array.push_eq_push.mp hjournal).1).2

namespace Machine

variable {w : World} {id : Nat} {controller : Controller}

/-- Printing byte strings tells the controller what they are read as. -/
theorem call_print (hattached : w.attached? = .ok (id, controller)) (place : Place)
    (frames : List Frame) (pieces : List Bytes) :
    call place w (.builtin (.capability .print)) (pieces.map .text) frames =
      .running (w.tell (@Notice.printed id (String.join (pieces.map Utf8.decodeLossy))))
        (.give .nil) frames := by
  have heffect : Capability.print.effect w (.ofArguments (pieces.map .text)) =
      .ok (.say id (String.join (pieces.map Utf8.decodeLossy))) := by
    have htext := Capability.joinTexts_text w pieces
    simp only [Capability.effect, Stack.ofArguments, hattached, htext]
    rfl
  have hentry : entryPoint (Capability.body .print) w (pieces.map .text) =
      (.ok [], w.tell (@Notice.printed id (String.join (pieces.map Utf8.decodeLossy)))) := by
    rw [entryPoint_body, heffect]
    simp [Effect.perform, Stack.results, Stack.ofArguments, Stack.height]
  rw [call, callCapability, hentry]
  rfl

/-- **Printing several byte strings** while a controller is attached sends it the texts that they
are read as, one after the other, as one text. That is the text that is sent for the byte string
which they make together exactly if no character is cut between them. No character is if all of the
byte strings but the last one are texts. -/
theorem printing_joins_unless_torn (hattached : w.attached? = .ok (id, controller)) (place : Place)
    (frames : List Frame) (pieces : List Bytes) :
    call place w (.builtin (.capability .print)) (pieces.map .text) frames =
      .running (w.tell (@Notice.printed id (String.join (pieces.map Utf8.decodeLossy))))
        (.give .nil) frames ∧
    call place w (.builtin (.capability .print)) [.text pieces.flatten] frames =
      .running (w.tell (@Notice.printed id (Utf8.decodeLossy pieces.flatten))) (.give .nil)
        frames ∧
    (String.join (pieces.map Utf8.decodeLossy) = Utf8.decodeLossy pieces.flatten ↔
      ¬Utf8.Torn pieces) ∧
    ∀ (texts : List String) last, pieces = texts.map Utf8.encode ++ [last] → ¬Utf8.Torn pieces := by
  refine ⟨call_print hattached place frames pieces, ?_, Utf8.join_map_decodeLossy_eq_iff pieces,
    ?_⟩
  · have hone := call_print hattached place frames [pieces.flatten]
    rwa [List.map_singleton, List.map_singleton, String.join_cons, String.join_nil,
      String.append_empty] at hone
  · rintro texts last rfl
    exact Utf8.not_torn_encode texts last

/-- A world with a controller that scripts can print to. -/
def printer : World := ((Environment.start (Host.empty.addController .literal).2 {}).attach 0).world

/-- A character that is printed in two parts arrives as two characters that stand for what is no
text, and as itself if it is printed as one. -/
theorem printing_joins_unless_torn_printer :
    call .main printer (.builtin (.capability .print)) [.text [0xC3], .text [0xA9]] [] =
      .running (printer.tell (@Notice.printed 0 "\ufffd\ufffd")) (.give .nil) [] ∧
    call .main printer (.builtin (.capability .print)) [.text [0xC3, 0xA9]] [] =
      .running (printer.tell (@Notice.printed 0 "é")) (.give .nil) [] ∧
    Utf8.Torn [[0xC3], [0xA9]] := by
  have hattached : printer.attached? = .ok (0, .literal) := rfl
  obtain ⟨hapart, htogether, hiff, -⟩ :=
    printing_joins_unless_torn hattached .main [] [[0xC3], [0xA9]]
  have htorn : Utf8.Torn [[0xC3], [0xA9]] := Classical.not_not.mp fun h =>
    absurd (hiff.mpr h) (by decide)
  exact ⟨hapart, htogether, htorn⟩

/-- **Not everything is printed in parts as it is printed as one.** -/
theorem not_forall_printing_joins :
    ¬∀ (w : World) (controller : Controller), w.controller? = .ok controller →
      ∀ (place : Place) (frames : List Frame) (pieces : List Bytes),
        call place w (.builtin (.capability .print)) (pieces.map .text) frames =
          call place w (.builtin (.capability .print)) [.text pieces.flatten] frames := by
  intro h
  have hsame := h printer .literal rfl .main [] [[0xC3], [0xA9]]
  have htogether := call_print (w := printer) rfl .main [] [[0xC3, 0xA9]]
  rw [call_print rfl] at hsame
  have htold := Next.running.inj (hsame.trans htogether)
  exact absurd (World.printed_inj htold.1) (by decide)

end Machine

end KeyLight
