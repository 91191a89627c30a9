import HackComputer.Text.Combining
import HackComputer.Text.Invisible
import HackComputer.Text.Numeral

/-!
# `HackComputer.Text.Quoted`: texts in double quotes

A text is shown in double quotes with backslashes before quotes and
backslashes, so that it can be told from its surroundings. Characters
that would not show, and marks that would be drawn onto the character
before them, are written by number.
-/

set_option autoImplicit false

namespace HackComputer.Text

/-- A character inside quotes. -/
def quotedChar (c : Char) : String :=
  match c with
  | '\x00' => "\\0"
  | '\t' => "\\t"
  | '\n' => "\\n"
  | '\r' => "\\r"
  | '"' => "\\\""
  | '\\' => "\\\\"
  | c =>
      if isCombining c || isInvisible c then
        "\\u\x7b" ++ String.ofList (Nat.toDigits 16 c.toNat) ++ "\x7d"
      else String.singleton c

/-- The text in double quotes. -/
def quoted (s : String) : String :=
  "\"" ++ String.join (s.toList.map quotedChar) ++ "\""

end HackComputer.Text
