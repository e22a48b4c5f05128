import KeyLight.Text.Shown

/-!
# Quoted text

Messages and log lines name a text between double quotes. Inside, a quote and a backslash follow a
backslash, the four control characters with a letter of their own are written with it, every other
character that is not shown as it is becomes its code point in braces, and the rest is itself.
-/

namespace KeyLight.Text

/-- The lower-case hexadecimal digits of a number, without leading zeros. -/
def hexLower (n : Nat) : List Char := Nat.toDigits 16 n

/-- One character of a quoted text. -/
def quoteChar (c : Char) : List Char :=
  match c with
  | '\x00' => ['\\', '0']
  | '\t' => ['\\', 't']
  | '\n' => ['\\', 'n']
  | '\r' => ['\\', 'r']
  | '"' => ['\\', '"']
  | '\\' => ['\\', '\\']
  | c => if isShown c then [c] else ['\\', 'u', '{'] ++ hexLower c.toNat ++ ['}']

/-- A text between double quotes. -/
def quote (text : String) : String :=
  String.ofList ('"' :: text.toList.flatMap quoteChar ++ ['"'])

end KeyLight.Text
