import HackComputer.Assembly.Instruction

/-!
# `HackComputer.Assembly.Source`: whole assembly texts

A source text is read line by line, and the first line that cannot be
read is reported with its row and its text. `Error` also holds what can
go wrong when a program is given its place in memory.
-/

set_option autoImplicit false

namespace HackComputer.Assembly

open Isa

/-- Why a program cannot be brought into program memory. -/
inductive Error where
  /-- A line cannot be read. -/
  | malformed (row : Nat) (text : String) (cause : Malformed)
  /-- Two lines declare one label. -/
  | redefinedLabel (name : String)
  /-- The program has more instructions than program memory holds. -/
  | romOverflow (size : Nat)
  deriving DecidableEq, Repr

/-- The wording of each cause. -/
def Error.message : Error → String
  | malformed row _ cause => "line " ++ Text.decimal row ++ ": " ++ cause.message
  | redefinedLabel name => "Re-defined label: `" ++ name ++ "`"
  | romOverflow size =>
      "Program has " ++ Text.decimal size ++ " instructions, ROM holds "
        ++ Text.decimal romCapacity

/-- Reads every line with `read` and keeps what the lines hold, in
order. The first line that cannot be read is reported. -/
def readLines {α : Type} (read : List Char → Except Malformed (Option α)) (source : List Char) :
    Except Error (List α) := do
  let found ← (Text.numberedLines source).mapM fun (line, row) =>
    (read line).mapError (.malformed row (String.ofList (Text.trim line)))
  return found.filterMap id

/-- Reads an assembly text. -/
def parse (source : List Char) : Except Error (List Instruction) :=
  readLines Instruction.parse source

end HackComputer.Assembly
