import HackComputer.Vm.Compile
import HackComputer.Vm.SourceUnit

/-!
# `HackComputer.Vm.Program`: compiled programs

A program is a sequence of blocks, one for every compiled line, in front
of them a block that starts the machine if one is asked for. The code of
the program is the blocks' code one after the other, so a block's first
line is the total length of the blocks before it.

* `Program.assemble`: the program of a list of units.
* `Program.code`, `Program.entries`: the assembly, and where in it each
  block stands.
-/

set_option autoImplicit false

namespace HackComputer.Vm

open Isa Assembly Code

/-- The code of one source line. The start of the machine belongs to no
unit. -/
structure Block where
  unit : Option String
  row : Nat
  text : String
  code : Lines
  deriving DecidableEq, Repr

/-- A compiled program. -/
structure Program where
  blocks : List Block
  deriving DecidableEq, Repr

/-- Where the code of a block stands in the code of the program. -/
structure Entry where
  block : Block
  /-- The number of lines before the block. -/
  line : Nat
  deriving DecidableEq, Repr

/-- The number of lines of the entry. -/
def Entry.length (e : Entry) : Nat := e.block.code.length

namespace Program

/-- The assembly of the program. -/
def code (p : Program) : Lines :=
  p.blocks.flatMap Block.code

/-- The entries of blocks that start at a line. -/
def entriesFrom : Nat → List Block → List Entry
  | _, [] => []
  | line, b :: bs => ⟨b, line⟩ :: entriesFrom (line + b.code.length) bs

/-- The entry of every block. -/
def entries (p : Program) : List Entry :=
  entriesFrom 0 p.blocks

/-- The number of words that the program takes in program memory. -/
def romSize (p : Program) : Nat :=
  p.code.countP (!·.isLabel)

/-! ### Assembling -/

/-- The text that stands for the start of the machine. -/
def bootstrapText : String := "BOOTSTRAP"

/-- How far assembling has come. -/
structure Progress where
  supply : LabelSupply := {}
  blocks : Array Block := #[]

/-- Adds the code that starts the machine and calls `entryPoint`. -/
def addBootstrap (entryPoint : String) (progress : Progress) : Except Error Progress :=
  match Frame.bootstrap entryPoint progress.supply with
  | .ok (code, supply) =>
      .ok ⟨supply, progress.blocks.push ⟨none, 0, bootstrapText, code⟩⟩
  | .error fault =>
      .error (.located ⟨bootstrapText, 0, "call " ++ entryPoint ++ " 0"⟩ (.fault fault))

/-- The function that a command belongs to: a function's first line
belongs to it already. -/
def functionAt (current : Option String) : Command → Option String
  | .function name _ => some name
  | _ => current

/-- Adds the code of one line of a unit, inside the function that the
lines before it have started. -/
def addLine (unit : String) (state : Option String × Progress) (line : Line) :
    Except Error (Option String × Progress) :=
  let (current, progress) := state
  let function := functionAt current line.command
  match line.command.compile ⟨unit, function⟩ progress.supply with
  | .ok (code, supply) =>
      .ok (function, ⟨supply, progress.blocks.push ⟨some unit, line.row, line.text, code⟩⟩)
  | .error fault => .error (.located ⟨unit, line.row, line.text⟩ (.fault fault))

/-- Adds the code of a unit. -/
def addUnit (progress : Progress) (unit : SourceUnit) : Except Error Progress := do
  let (_, progress) ← unit.lines.foldlM (addLine unit.name) (none, progress)
  return progress

/-- Compiles units into one program, in front of it the call of
`entryPoint?` if there is one. The first line that cannot be compiled is
reported. -/
def assemble (entryPoint? : Option String) (units : List SourceUnit) : Except Error Program := do
  let start ← match entryPoint? with
    | some entryPoint => addBootstrap entryPoint {}
    | none => .ok {}
  let progress ← units.foldlM addUnit start
  return ⟨progress.blocks.toList⟩

end Program

end HackComputer.Vm
