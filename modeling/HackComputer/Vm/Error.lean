import HackComputer.Text.Numeral
import HackComputer.Isa.Word

/-!
# `HackComputer.Vm.Error`: what can be wrong with a stack program

A fault is a cause without a place. An error is a fault that may be
wrapped in places, the innermost one first.
-/

set_option autoImplicit false

namespace HackComputer.Vm

open Isa

/-- What a command lacks. -/
inductive Missing where
  | command
  | segment
  | index
  | label
  | name
  | count
  | functionName
  deriving DecidableEq, Repr

/-- The word for what is missing. -/
def Missing.text : Missing → String
  | command => "command"
  | segment => "segment"
  | index => "index"
  | label => "label"
  | name => "name"
  | count => "count"
  | functionName => "function name"

/-- What a command counts. -/
inductive Counted where
  | arguments
  | locals
  deriving DecidableEq, Repr

/-- The word for what is counted. -/
def Counted.text : Counted → String
  | arguments => "argument count"
  | locals => "local count"

/-- Why a command that can be read cannot be carried out. -/
inductive Invalid where
  /-- The name holds a `$`, which only generated labels may hold. -/
  | reservedName (name : String)
  /-- The constant needs more than fifteen bits. -/
  | wideConstant (value : Word)
  /-- The number of arguments or locals needs more than fifteen bits. -/
  | wideCount (what : Counted) (count : Word)
  /-- The pointer segment has only two cells. -/
  | pointerIndex (index : Word)
  /-- The scratch segment has only eight cells. -/
  | tempIndex (index : Word)
  /-- A constant cannot take a value. -/
  | popConstant (value : Word)
  deriving DecidableEq, Repr

/-- The wording of each reason. -/
def Invalid.message : Invalid → String
  | reservedName name => "`$` is reserved for generated labels: `" ++ name ++ "`"
  | wideConstant value => "constant " ++ Text.decimal value.toNat ++ " does not fit in 15 bits"
  | wideCount what count =>
      what.text ++ " " ++ Text.decimal count.toNat ++ " does not fit in 15 bits"
  | pointerIndex index => "pointer " ++ Text.decimal index.toNat ++ " is out of 0..=1"
  | tempIndex index => "temp " ++ Text.decimal index.toNat ++ " is out of 0..8"
  | popConstant value => "cannot pop into constant " ++ Text.decimal value.toNat

/-- What is wrong with a command. -/
inductive Fault where
  | unknownCommand (text : String)
  | missingOperand (what : Missing)
  | unknownSegment (text : String)
  | invalidOperation (why : Invalid)
  | invalidNumber (text : String)
  | unexpectedOperand (text : String)
  deriving DecidableEq, Repr

/-- The wording of each fault. -/
def Fault.message : Fault → String
  | unknownCommand text => "Unknown command: `" ++ text ++ "`"
  | missingOperand what => "Missing operand: " ++ what.text
  | unknownSegment text => "Unknown segment: `" ++ text ++ "`"
  | invalidOperation why => "Invalid operation: " ++ why.message
  | invalidNumber text => "Cannot parse `" ++ text ++ "` as a number"
  | unexpectedOperand text => "Unexpected operand: `" ++ text ++ "`"

/-- A line of a source unit. -/
structure Place where
  unit : String
  row : Nat
  text : String
  deriving DecidableEq, Repr

/-- A fault in the places that lead to it. -/
inductive Error where
  | fault (f : Fault)
  | located (place : Place) (inner : Error)
  deriving DecidableEq, Repr

namespace Error

/-- The fault at the bottom. -/
def root : Error → Fault
  | fault f => f
  | located _ inner => inner.root

/-- The fault's wording behind its places, the outermost one first. -/
def message : Error → String
  | fault f => f.message
  | located place inner => place.unit ++ ":" ++ Text.decimal place.row ++ ": " ++ inner.message

end Error

end HackComputer.Vm
