import HackComputer.Vm.Program

/-!
# `HackComputer.Vm.Listing`: programs and errors for the reader

Three views of a compiled program: the assembly file, the summary with
one line for every source line, and the listing for a terminal.
`Error.report` shows an error with the source line that it stands in.
-/

set_option autoImplicit false

namespace HackComputer.Vm

open Text (styled errorTitle)

/-- The source text of an entry and its line number. -/
def Entry.heading (e : Entry) : String :=
  Text.padRight 30 e.block.text ++ " | LINE " ++ Text.decimal e.line

namespace Program

/-- The lines of assembly, each with its line end. -/
def asmLines (code : Code.Lines) : String :=
  String.join (code.map fun i => i.text ++ "\n")

/-- The assembly file: each block behind a comment with its source text,
and an empty line behind it. -/
def asm (p : Program) : String :=
  String.join (p.entries.map fun e => "// " ++ e.heading ++ "\n" ++ asmLines e.block.code ++ "\n")

/-- The summary: one line for every block. -/
def summary (p : Program) : String :=
  String.join (p.entries.map fun e => e.heading ++ "\n")

/-- The line above and below a listing. -/
def rule : String :=
  "+-------+--------------------------------------------------------------\n"

/-- The title of an entry in a listing. -/
def entryTitle (e : Entry) : String :=
  match e.block.unit with
  | some unit =>
      "+-------+ " ++ styled [.bold] e.block.text ++ " "
        ++ styled [.dim] (unit ++ ":" ++ Text.decimal e.block.row) ++ "\n"
  | none => "+-------+ " ++ styled [.red, .bold] e.block.text ++ "\n"

/-- An entry in a listing: its title and its numbered lines. -/
def entryListing (e : Entry) : String :=
  entryTitle e ++ String.join (e.block.code.mapIdx fun i line =>
    "| " ++ Text.padLeft ' ' 5 (Text.decimal (e.line + i)) ++ " : " ++ line.painted ++ "\n")

/-- The listing of a program for a terminal. -/
def listing (p : Program) : String :=
  rule ++ String.join (p.entries.map entryListing) ++ rule

end Program

/-- An error for a terminal. The outermost place is shown with its
source line, and the message is that of the fault at the bottom. -/
def Error.report (e : Error) : String :=
  match e with
  | .fault f => errorTitle f.message
  | .located place _ =>
      let bar := "      " ++ styled [.blue] "|" ++ "\n"
      errorTitle e.root.message
        ++ "     " ++ styled [.blue] "-->" ++ " "
        ++ styled [.underline] (place.unit ++ ":" ++ Text.decimal place.row) ++ "\n"
        ++ bar
        ++ " " ++ styled [.blue] (Text.padLeft ' ' 4 (Text.decimal place.row) ++ " |") ++ " "
        ++ place.text ++ "\n"
        ++ bar

end HackComputer.Vm
