import HackComputer.Vm.Command

/-!
# `HackComputer.Vm.SourceUnit`: a file of commands

A unit is a named list of commands, each with the row and the text that
it came from. The text of a line is kept with single spaces and without
its comment.
-/

set_option autoImplicit false

namespace HackComputer.Vm

/-- A command with its place in a unit. -/
structure Line where
  row : Nat
  text : String
  command : Command
  deriving DecidableEq, Repr

/-- A named list of commands. -/
structure SourceUnit where
  name : String
  lines : List Line
  deriving DecidableEq, Repr

namespace SourceUnit

/-- Reads a line of the unit called `name`. A line with nothing but
blanks and a comment holds no command. -/
def parseLine (name : String) (line : List Char) (row : Nat) : Except Error (Option Line) :=
  match Text.normalized (Text.uncommented line) with
  | [] => .ok none
  | code =>
      let text := String.ofList code
      match Command.parse code with
      | .ok command => .ok (some ⟨row, text, command⟩)
      | .error fault => .error (.located ⟨name, row, text⟩ (.fault fault))

/-- Reads a unit. The first line that cannot be read is reported. -/
def parse (name : String) (source : List Char) : Except Error SourceUnit := do
  let found ← (Text.numberedLines source).mapM fun (line, row) => parseLine name line row
  return ⟨name, found.filterMap id⟩

end SourceUnit

end HackComputer.Vm
