import HackComputer.Text.Numeral
import HackComputer.Isa.Word

/-!
# `HackComputer.Isa.Malformed`: texts and words that denote nothing

The ways in which a line of assembly, one of its fields or a word of
program memory fails to denote an instruction, each with its wording.
-/

set_option autoImplicit false

namespace HackComputer.Isa

/-- Why a text or a word denotes no instruction. -/
inductive Malformed where
  /-- No computation is spelled like this. -/
  | computation (text : String)
  /-- No destination is spelled like this. -/
  | destination (text : String)
  /-- No jump is spelled like this. -/
  | jump (text : String)
  /-- The number is too large to be loaded. -/
  | literal (digits : String)
  /-- The text cannot name anything. -/
  | symbol (name : String)
  /-- The label has no closing parenthesis. -/
  | unclosedLabel (text : String)
  /-- The word selects a computation that the machine does not have. -/
  | word (bits : Word)
  /-- The text is not a word written in binary. -/
  | binary
  deriving DecidableEq, Repr

/-- The wording of each cause. -/
def Malformed.message : Malformed → String
  | computation text => "Undefined comp: " ++ text
  | destination text => "Undefined dest: " ++ text
  | jump text => "Undefined jump: " ++ text
  | literal digits => "Literal out of range: " ++ digits
  | symbol name => "Invalid symbol: `" ++ name ++ "`"
  | unclosedLabel text => "Unclosed label: `" ++ text ++ "`"
  | word bits => "Undefined comp bits in 0x" ++ Text.hex4 bits.toNat
  | binary => "Expected 16 binary digits"

end HackComputer.Isa
