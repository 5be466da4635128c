import OperatorTemplate.Text.Graphic
/-!
# Quoted text

A text between double quotes, on one line and without invisible characters: quotes, backslashes and
the usual controls are written with a backslash and a letter, every other character that is not
graphic by its code point.
-/

namespace OperatorTemplate.Text

/-- The letter that stands behind a backslash for a character with a short form. -/
def shortForm? : Char → Option Char
  | '\x00' => some '0'
  | '\t' => some 't'
  | '\r' => some 'r'
  | '\n' => some 'n'
  | '\\' => some '\\'
  | '"' => some '"'
  | _ => none

/-- A character inside quotes. -/
def encodeChar (c : Char) : List Char :=
  match shortForm? c with
  | some letter => ['\\', letter]
  | none =>
    if isGraphic c then [c]
    else ['\\', 'u', '\x7b'] ++ Nat.toDigits 16 c.toNat ++ ['\x7d']

/-- The text between double quotes. -/
def quote (s : String) : String :=
  String.ofList (['"'] ++ s.toList.flatMap encodeChar ++ ['"'])

end OperatorTemplate.Text
