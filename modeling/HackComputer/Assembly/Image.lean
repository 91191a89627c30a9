import HackComputer.Assembly.Executable

/-!
# `HackComputer.Assembly.Image`: program memory as binary text

An image is program memory written one word a line, each in sixteen
binary digits. Reading passes over empty lines and blanks at the ends of
a line, and keeps no names.
-/

set_option autoImplicit false

namespace HackComputer.Assembly.Image

open Isa

/-- The image of a program. -/
def write (rom : Array Operation) : String :=
  String.join (rom.toList.map fun op => Text.binary16 op.encode.toNat ++ "\n")

/-- The word written in sixteen binary digits. -/
def word? (cs : List Char) : Option Word :=
  if cs.length = 16 ∧ cs.all (['0', '1'].contains ·) then
    some (Nat.ofDigitChars 2 cs 0).toUInt16
  else none

/-- Reads a line of an image. -/
def readLine (line : List Char) : Except Malformed (Option Operation) :=
  match Text.trim line with
  | [] => .ok none
  | digits =>
      match word? digits with
      | some w => some <$> Operation.decode w
      | none => .error .binary

/-- Reads an image. A malformed line is reported before an image that is
too long. -/
def read (source : List Char) : Except Error (Array Operation) := do
  let ops ← readLines readLine source
  if romCapacity < ops.length then throw (.romOverflow ops.length)
  return ops.toArray

/-- The program of an image, without names. -/
def load (source : List Char) : Except Error Executable := do
  return ⟨← read source, [], []⟩

end HackComputer.Assembly.Image
