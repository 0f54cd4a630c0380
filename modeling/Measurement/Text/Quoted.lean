/-
Quoted texts, as error messages show them.

A text that a message complains about stands between double quotes, so that
blanks at its ends can be seen. The quote, the backslash and the four usual
controls are written with a backslash, any other character that would not show
is written by its code point in braces, and all else stands as it is.
-/
import Measurement.Text.Numeral
import Measurement.Text.Unprintable

set_option autoImplicit false

namespace Measurement.Text

/-- One character inside a quoted text. -/
def quotedChar (c : Char) : List Char :=
  match c with
  | '"' => ['\\', '"']
  | '\\' => ['\\', '\\']
  | '\n' => ['\\', 'n']
  | '\r' => ['\\', 'r']
  | '\t' => ['\\', 't']
  | '\x00' => ['\\', '0']
  | _ =>
    if isUnprintable c then ['\\', 'u', '\x7b'] ++ hexadecimal c.toNat ++ ['\x7d']
    else [c]

/-- A text between double quotes. -/
def quoted (s : String) : String :=
  String.ofList ('"' :: s.toList.flatMap quotedChar ++ ['"'])

end Measurement.Text
