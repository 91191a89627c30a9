import HackComputer.Isa.Operation
import HackComputer.Isa.Register
import HackComputer.Text.Blank

/-!
# `HackComputer.Assembly.Instruction`: lines of assembly

A line of assembly loads an operand, calculates, or declares a label for
the instruction after it. Blanks count for nothing, not even inside a
name, and a comment runs from `//` to the end of the line.

* `isSymbol`: what can name a label or a variable.
* `Operand`, `Instruction`: the lines, with `text` to write and `parse`
  to read them.
-/

set_option autoImplicit false

namespace HackComputer.Assembly

open Isa

/-- The characters of a name. -/
def isSymbolChar (c : Char) : Bool :=
  c.isAlphanum || ['_', '.', '$', ':'].contains c

/-- A name is not empty, does not start with a digit and consists of
letters, digits and the marks `_`, `.`, `$` and `:`. -/
def isSymbol (cs : List Char) : Bool :=
  match cs with
  | [] => false
  | c :: _ => !c.isDigit && cs.all isSymbolChar

/-- What an instruction can load into `A`. -/
inductive Operand where
  /-- A number. -/
  | literal (value : Word)
  /-- The address of a register. -/
  | register (r : Register)
  /-- The address that a name stands for. -/
  | symbol (name : String)
  deriving DecidableEq, Repr

namespace Operand

/-- How the operand is written. -/
def text : Operand → String
  | literal value => Text.decimal value.toNat
  | register r => r.name
  | symbol name => name

/-- Reads an operand: a run of digits is a number, a register's name is
that register, and any other name is a symbol. -/
def parse (cs : List Char) : Except Malformed Operand :=
  match Text.decimal? cs with
  | some n =>
      if n ≤ maxImmediate.toNat then .ok (literal n.toUInt16)
      else .error (.literal (String.ofList cs))
  | none =>
      let s := String.ofList cs
      match Register.ofName? s with
      | some r => .ok (register r)
      | none => if isSymbol cs then .ok (symbol s) else .error (.symbol s)

end Operand

/-- A line of assembly. -/
inductive Instruction where
  /-- Load an operand into `A`. -/
  | load (operand : Operand)
  /-- Compute, store and possibly jump. -/
  | compute (calculation : Calculation)
  /-- Name the next instruction. -/
  | label (name : String)
  deriving DecidableEq, Repr

namespace Instruction

/-- A line that declares a label takes no room in program memory. -/
def isLabel : Instruction → Bool
  | label _ => true
  | _ => false

/-- How the line is written. -/
def text : Instruction → String
  | load operand => "@" ++ operand.text
  | compute c => c.text
  | label name => "(" ++ name ++ ")"

/-- The text with each field in its colour. -/
def painted : Instruction → String
  | load operand => Text.styled [.yellow] ("@" ++ operand.text)
  | compute c => c.painted
  | label name => Text.styled [.green] ("(" ++ name ++ ")")

/-- Reads `dest=comp;jump`, where `dest=` and `;jump` may be missing. Of
several malformed fields the jump is reported first, then the
destination, then the computation. -/
def parseCalculation (cs : List Char) : Except Malformed Calculation := do
  let (body, jump) := (Text.splitOnce ';' cs).getD (cs, [])
  let jump ← Jump.parse (String.ofList jump)
  let (dest, comp) := (Text.splitOnce '=' body).getD ([], body)
  let dest ← Destination.parse (String.ofList dest)
  let comp ← Computation.parse (String.ofList comp)
  return ⟨dest, comp, jump⟩

/-- Reads a label that starts with a parenthesis; `inside` is what
follows it. -/
def parseLabel (inside : List Char) : Except Malformed Instruction :=
  if inside.getLast? = some ')' then
    let name := inside.dropLast
    if isSymbol name then .ok (label (String.ofList name))
    else .error (.symbol (String.ofList name))
  else .error (.unclosedLabel (String.ofList ('(' :: inside)))

/-- Reads a line. A line with nothing but blanks and a comment holds no
instruction. -/
def parse (line : List Char) : Except Malformed (Option Instruction) :=
  match Text.squeeze (Text.uncommented line) with
  | [] => .ok none
  | '(' :: inside => some <$> parseLabel inside
  | '@' :: operand => (some ∘ load) <$> Operand.parse operand
  | code => (some ∘ compute) <$> parseCalculation code

end Instruction

end HackComputer.Assembly
