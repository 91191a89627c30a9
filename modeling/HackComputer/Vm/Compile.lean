import HackComputer.Vm.Frame

/-!
# `HackComputer.Vm.Compile`: assembly for one command

A command is compiled in a context: the unit that it belongs to, and the
function that it belongs to if there is one. A label is visible in its
function only, and before the first function of a unit in that unit
only.
-/

set_option autoImplicit false

namespace HackComputer.Vm

open Isa Assembly Code

/-- Where a command stands. -/
structure Context where
  unit : String
  function : Option String := none
  deriving DecidableEq, Repr

/-- The full name of a label in a context. The part `$top` keeps labels
outside functions apart from those inside, since names of a source hold
no `$`. -/
def Context.scope (context : Context) (label : String) : Except Fault String :=
  if label.isEmpty then .error (.missingOperand .label)
  else match context.function with
    | some function => .ok (function ++ "." ++ label)
    | none => .ok (context.unit ++ "$top." ++ label)

/-- The code of a command, and the label supply after it. A command that
cannot be compiled takes no labels. -/
def Command.compile (context : Context) (supply : LabelSupply) :
    Command → Except Fault (Lines × LabelSupply)
  | .arithmetic op => .ok (Code.arithmetic op supply)
  | .push segment index => (Code.push context.unit segment index).map (·, supply)
  | .pop segment index => (Code.pop context.unit segment index).map (·, supply)
  | .label name => do
      let full ← context.scope name
      return ([.label full], supply)
  | .goto target => do
      let full ← context.scope target
      return ([symbol full, jumpAlways], supply)
  | .ifGoto target => do
      let full ← context.scope target
      return (popD ++ [symbol full, jump .d ⟨true, false, true⟩], supply)
  | .function name locals => Frame.function name locals supply
  | .call name arguments => Frame.call name arguments supply
  | .ret => .ok (Frame.returnLines, supply)

end HackComputer.Vm
