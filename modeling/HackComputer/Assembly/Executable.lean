import HackComputer.Assembly.Source
import HackComputer.Assembly.SymbolTable

/-!
# `HackComputer.Assembly.Executable`: programs with their addresses

Linking gives every name an address. A label names the instruction after
it, counted without the label lines. A name that is no label and not
predefined is a variable, and variables get cells from `variableBase` on
in the order of their first use.

* `collectLabels`: the labels with their addresses.
* `resolve`: the operations, and the variables on the way.
* `Executable.link`: both, for a program that fits.
* `Executable.address?`: what a name stands for in a finished program.
-/

set_option autoImplicit false

namespace HackComputer.Assembly

open Isa

/-- A program in program memory with the names that it uses. -/
structure Executable where
  /-- The operations from address zero on. -/
  rom : Array Operation
  /-- The labels in the order of their lines. -/
  labels : List (String × Word)
  /-- The variables in the order of their first use. -/
  vars : List (String × Word)

namespace Executable

/-- Adds the labels of the remaining lines to those found so far; `size`
is the number of instructions before these lines. Yields the number of
all instructions beside the labels. -/
def collectLabels : List Instruction → Nat → SymbolTable → Except Error (Nat × SymbolTable)
  | [], size, labels => .ok (size, labels)
  | .label name :: code, size, labels =>
      match labels.get? name with
      | some _ => .error (.redefinedLabel name)
      | none => collectLabels code size (labels.push name size.toUInt16)
  | .load _ :: code, size, labels
  | .compute _ :: code, size, labels => collectLabels code (size + 1) labels

/-- The address that a name gets, and the variables afterwards: a label
comes first, then a predefined name, then a variable. A name that is
none of these becomes the next variable. -/
def resolveSymbol (labels vars : SymbolTable) (name : String) : Word × SymbolTable :=
  match labels.get? name <|> predefined.lookup name <|> vars.get? name with
  | some address => (address, vars)
  | none =>
      let address := variableBase + vars.size.toUInt16
      (address, vars.push name address)

/-- The value that an operand loads, and the variables afterwards. -/
def resolveOperand (labels vars : SymbolTable) : Operand → Word × SymbolTable
  | .literal value => (value, vars)
  | .register r => (r.address, vars)
  | .symbol name => resolveSymbol labels vars name

/-- Adds the operations of the remaining lines to those done so far. -/
def resolve (labels : SymbolTable) :
    List Instruction → SymbolTable → Array Operation → SymbolTable × Array Operation
  | [], vars, rom => (vars, rom)
  | .label _ :: code, vars, rom => resolve labels code vars rom
  | .compute c :: code, vars, rom => resolve labels code vars (rom.push (.compute c))
  | .load operand :: code, vars, rom =>
      let (value, vars) := resolveOperand labels vars operand
      resolve labels code vars (rom.push (.load value))

/-- Gives every name of a program its address. A repeated label is
reported before a program that is too long. -/
def link (code : List Instruction) : Except Error Executable := do
  let (size, labels) ← collectLabels code 0 .empty
  if romCapacity < size then throw (.romOverflow size)
  let (vars, rom) := resolve labels code .empty #[]
  return ⟨rom, labels.toList, vars.toList⟩

/-- Reads and links an assembly text. -/
def ofSource (source : List Char) : Except Error Executable :=
  parse source >>= link

/-- What a name stands for in the finished program: a label, then a
variable, then a predefined name. -/
def address? (e : Executable) (name : String) : Option Word :=
  e.labels.lookup name <|> e.vars.lookup name <|> predefined.lookup name

end Executable

end HackComputer.Assembly
