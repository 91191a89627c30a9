import HackComputer.Vm.Code

/-!
# `HackComputer.Vm.Frame`: calls and returns

A call saves five words on the stack, right below the first local
variable of the function that is called:

    ARG -> argument 0 .. argument n-1
           return address    LCL - 5
           saved LCL         LCL - 4
           saved ARG         LCL - 3
           saved THIS        LCL - 2
           saved THAT        LCL - 1
    LCL -> local 0 .. local k-1

A return puts the result where argument 0 was, sets the stack pointer
behind it and restores the four registers. The return address is read
before the result is stored, because without arguments both have the
same cell.
-/

set_option autoImplicit false

namespace HackComputer.Vm.Frame

open Isa Assembly Code

/-- One word of a frame. -/
inductive Slot where
  | returnAddress
  | saved (r : Register)
  deriving DecidableEq, Repr

/-- The word for the slot. -/
def Slot.text : Slot → String
  | returnAddress => "return"
  | saved r => r.name

/-- The slots in the order in which a call pushes them. -/
def layout : List Slot :=
  [.returnAddress, .saved .lcl, .saved .arg, .saved .this, .saved .that]

/-- The number of words of a frame. -/
def size : Word := layout.length.toUInt16

/-- Each slot with its distance below the first local variable. -/
def slots : List (Slot × Word) :=
  layout.mapIdx fun i slot => (slot, size - i.toUInt16)

/-- The label of a function's first instruction. -/
def entry (function : String) : String :=
  "$" ++ function

/-- The name of a function, which may not be empty. -/
def checkName (function : String) : Except Fault Unit :=
  if function.isEmpty then .error (.missingOperand .functionName) else .ok ()

/-- A count, which has to fit into an instruction. -/
def checkCount (what : Counted) (count : Word) : Except Fault Unit :=
  if count ≤ maxImmediate then .ok () else .error (.invalidOperation (.wideCount what count))

/-- Push the content of one slot. -/
def save (returnLabel : String) : Slot → Lines
  | .returnAddress => [symbol returnLabel, setD (.y .a)] ++ pushD
  | .saved r => [register r, setD (.y .m)] ++ pushD

/-- The code of a call, with the label that it returns to. -/
def callLines (function : String) (arguments : Word) (returnLabel : String) : Lines :=
  layout.flatMap (save returnLabel)
    ++ [register .sp, setD (.y .m), literal arguments, setD (.subDY .a), literal size,
      setD (.subDY .a), register .arg, setM .d]
    ++ [register .sp, setD (.y .m), register .lcl, setM .d]
    ++ [symbol (entry function), jumpAlways, .label returnLabel]

/-- Call a function whose arguments are on the stack. -/
def call (function : String) (arguments : Word) (supply : LabelSupply) :
    Except Fault (Lines × LabelSupply) := do
  checkName function
  checkCount .arguments arguments
  let (returnLabel, supply) := supply.fresh .returnPoint
  return (callLines function arguments returnLabel, supply)

/-- The code that pushes the given number of zeros, which is not zero
itself. The loop counts down in `R13`. -/
def zeroLines (locals : Word) (loop : String) : Lines :=
  [literal locals, setD (.y .a), register .r13, setM .d, .label loop]
    ++ fetch (.immediate 0) ++ pushD
    ++ [register .r13, setMD (.decY .m), symbol loop, jump .d ⟨false, false, true⟩]

/-- Start a function: its entry label and its local variables, all
zero. -/
def function (name : String) (locals : Word) (supply : LabelSupply) :
    Except Fault (Lines × LabelSupply) := do
  checkName name
  checkCount .locals locals
  if locals = 0 then return ([.label (entry name)], supply)
  let (loop, supply) := supply.fresh .zeroLocals
  return (.label (entry name) :: zeroLines locals loop, supply)

/-- Copy a word of the frame at the address in `R14` into a register. -/
def restore (offset : Word) (into : Register) : Lines :=
  [register .r14, setD (.y .m), literal offset, setA (.subDY .a), setD (.y .m), register into,
    setM .d]

/-- Restore what the slots saved, the topmost slot first. -/
def restoreSaved : Lines :=
  slots.reverse.flatMap fun (slot, offset) =>
    match slot with
    | .returnAddress => []
    | .saved r => restore offset r

/-- Return to the caller. -/
def returnLines : Lines :=
  [register .lcl, setD (.y .m), register .r14, setM .d]
    ++ restore size .r15
    ++ [register .arg, setD (.y .m), literal 0, setD (.addDY .a)] ++ popToD
    ++ [register .arg, setD (.incY .m), register .sp, setM .d]
    ++ restoreSaved
    ++ [register .r15, setA (.y .m), jumpAlways]

/-- Set up an empty stack and call the first function. -/
def bootstrap (entryPoint : String) (supply : LabelSupply) :
    Except Fault (Lines × LabelSupply) := do
  let (lines, supply) ← call entryPoint 0 supply
  return ([literal stackBase, setD (.y .a), register .sp, setM .d] ++ lines, supply)

end HackComputer.Vm.Frame
