import HackComputer.Assembly.Instruction
import HackComputer.Vm.Command
import HackComputer.Vm.LabelSupply

/-!
# `HackComputer.Vm.Code`: assembly for stack and memory commands

The stack grows upwards from its base, and `SP` holds the address behind
its top. Every fragment leaves the stack pointer consistent and may
change `A` and `D` freely; a pop also uses the scratch register `R13`
for the address that it stores to.
-/

set_option autoImplicit false

namespace HackComputer.Vm.Code

open Isa Assembly

/-- Lines of assembly. -/
abbrev Lines : Type := List Instruction

/-! ### Single lines -/

/-- Load a number. -/
def literal (value : Word) : Instruction := .load (.literal value)

/-- Load the address of a register. -/
def register (r : Register) : Instruction := .load (.register r)

/-- Load the address of a name. -/
def symbol (name : String) : Instruction := .load (.symbol name)

/-- Store the result of a computation in `A`. -/
def setA (comp : Computation) : Instruction := .compute ⟨⟨true, false, false⟩, comp, .never⟩

/-- Store the result of a computation in `D`. -/
def setD (comp : Computation) : Instruction := .compute ⟨⟨false, true, false⟩, comp, .never⟩

/-- Store the result of a computation in memory. -/
def setM (comp : Computation) : Instruction := .compute ⟨⟨false, false, true⟩, comp, .never⟩

/-- Store the result of a computation in `A` and in memory. -/
def setAM (comp : Computation) : Instruction := .compute ⟨⟨true, false, true⟩, comp, .never⟩

/-- Store the result of a computation in `D` and in memory. -/
def setMD (comp : Computation) : Instruction := .compute ⟨⟨false, true, true⟩, comp, .never⟩

/-- Jump on the sign of a computation's result. -/
def jump (comp : Computation) (condition : Jump) : Instruction :=
  .compute ⟨.none, comp, condition⟩

/-- Jump in any case. -/
def jumpAlways : Instruction := jump .zero .always

/-! ### The stack -/

/-- Put `D` on the stack. -/
def pushD : Lines :=
  [register .sp, setA (.y .m), setM .d, register .sp, setM (.incY .m)]

/-- Take the top of the stack into `D` and leave its address in `A`. -/
def popD : Lines :=
  [register .sp, setAM (.decY .m), setD (.y .m)]

/-- Combine the two topmost words into one. -/
def binary (comp : Computation) : Lines :=
  popD ++ [setA (.decY .a), setM comp]

/-- Change the topmost word. -/
def unary (comp : Computation) : Lines :=
  [register .sp, setA (.decY .m), setM comp]

/-- Compare the two topmost words by the sign of their difference: the
condition becomes all ones if it holds and zero if not. -/
def compare (condition : Jump) (label : String) : Lines :=
  popD ++ [setA (.decY .a), setD (.subYD .m), setM .minusOne, symbol label, jump .d condition,
    register .sp, setA (.decY .m), setM .zero, .label label]

/-- An arithmetic command. Comparisons take a label from the supply. -/
def arithmetic (op : Arithmetic) (supply : LabelSupply) : Lines × LabelSupply :=
  match op with
  | .add => (binary (.addDY .m), supply)
  | .sub => (binary (.subYD .m), supply)
  | .and => (binary (.andDY .m), supply)
  | .or => (binary (.orDY .m), supply)
  | .neg => (unary (.negY .m), supply)
  | .not => (unary (.notY .m), supply)
  | .eq =>
      let (label, supply) := supply.fresh .equal
      (compare ⟨false, true, false⟩ label, supply)
  | .gt =>
      let (label, supply) := supply.fresh .greater
      (compare ⟨false, false, true⟩ label, supply)
  | .lt =>
      let (label, supply) := supply.fresh .less
      (compare ⟨true, false, false⟩ label, supply)

/-! ### Memory -/

/-- Take the value at a location into `D`. -/
def fetch : Location → Lines
  | .immediate value => [literal value, setD (.y .a)]
  | .indirect base offset =>
      [register base, setD (.y .m), literal offset, setA (.addDY .a), setD (.y .m)]
  | .direct address => [literal address, setD (.y .m)]
  | .symbol name => [symbol name, setD (.y .m)]

/-- Take the address of a location into `D`. A constant has none. -/
def addressOf : Location → Except Fault Lines
  | .immediate value => .error (.invalidOperation (.popConstant value))
  | .indirect base offset =>
      .ok [register base, setD (.y .m), literal offset, setD (.addDY .a)]
  | .direct address => .ok [literal address, setD (.y .a)]
  | .symbol name => .ok [symbol name, setD (.y .a)]

/-- Push a cell of a segment. -/
def push (unit : String) (segment : Segment) (index : Word) : Except Fault Lines := do
  let location ← segment.resolve unit index
  return fetch location ++ pushD

/-- Pop into the cell whose address is in `D`. The address waits in
`R13`, because the pop itself needs both registers. -/
def popToD : Lines :=
  [register .r13, setM .d] ++ popD ++ [register .r13, setA (.y .m), setM .d]

/-- Pop into a cell of a segment. -/
def pop (unit : String) (segment : Segment) (index : Word) : Except Fault Lines := do
  let location ← segment.resolve unit index
  let address ← addressOf location
  return address ++ popToD

end HackComputer.Vm.Code
