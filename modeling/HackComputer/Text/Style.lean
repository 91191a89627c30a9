/-!
# `HackComputer.Text.Style`: text with terminal styles

A terminal switches a colour or a weight on and off by escape
sequences. Colours share one closing sequence, and so do the two
weights. Several styles on one text are opened in the order given and
closed in that same order.
-/

set_option autoImplicit false

namespace HackComputer.Text

/-- A way to set off text on a terminal. -/
inductive Style where
  | red
  | green
  | yellow
  | blue
  | magenta
  | bold
  | dim
  | underline
  deriving DecidableEq, Repr

namespace Style

/-- The sequence that switches the style on. -/
def opening : Style → String
  | red => "\x1b[31m"
  | green => "\x1b[32m"
  | yellow => "\x1b[33m"
  | blue => "\x1b[34m"
  | magenta => "\x1b[35m"
  | bold => "\x1b[1m"
  | dim => "\x1b[2m"
  | underline => "\x1b[4m"

/-- The sequence that switches the style off: the default colour, the
normal weight or no line under the text. -/
def closing : Style → String
  | bold | dim => "\x1b[22m"
  | underline => "\x1b[24m"
  | _ => "\x1b[39m"

end Style

/-- The text in the given styles. -/
def styled (styles : List Style) (s : String) : String :=
  String.join (styles.map Style.opening) ++ s ++ String.join (styles.map Style.closing)

/-- The first line of every report of an error. -/
def errorTitle (message : String) : String :=
  styled [.red, .bold] "error" ++ ": " ++ message ++ "\n"

end HackComputer.Text
