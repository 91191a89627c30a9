import HackComputer.Isa.Register
import HackComputer.Vm.Error

/-!
# `HackComputer.Vm.Segment`: the memory segments of the stack machine

A push or pop names a cell by a segment and an index. `Segment.resolve`
says where that cell is: at a fixed address, at an offset from the
address in a base register, or at an address that linking chooses for a
unit's static variable. A constant is no cell but a value.
-/

set_option autoImplicit false

namespace HackComputer.Vm

open Isa

/-- A memory segment. -/
inductive Segment where
  | constant
  | locals
  | argument
  | this
  | that
  | pointer
  | temp
  | static
  deriving DecidableEq, Repr

/-- Where a cell of a segment is. -/
inductive Location where
  /-- No cell but the value itself. -/
  | immediate (value : Word)
  /-- At an offset from the address that a register holds. -/
  | indirect (base : Register) (offset : Word)
  /-- At a fixed address. -/
  | direct (address : Word)
  /-- At the address of a variable. -/
  | symbol (name : String)
  deriving DecidableEq, Repr

namespace Segment

/-- The eight segments. -/
def all : List Segment :=
  [constant, locals, argument, this, that, pointer, temp, static]

/-- The name of the segment. -/
def name : Segment → String
  | constant => "constant"
  | locals => "local"
  | argument => "argument"
  | this => "this"
  | that => "that"
  | pointer => "pointer"
  | temp => "temp"
  | static => "static"

/-- The segment with this name. -/
def parse (s : String) : Except Fault Segment :=
  match all.find? (·.name == s) with
  | some segment => .ok segment
  | none => .error (.unknownSegment s)

/-- The name of a unit's static variable. -/
def staticName (unit : String) (index : Word) : String :=
  unit ++ "." ++ Text.decimal index.toNat

/-- Where the segment's cell at `index` is, seen from a unit. -/
def resolve (segment : Segment) (unit : String) (index : Word) : Except Fault Location :=
  match segment with
  | constant =>
      if index ≤ maxImmediate then .ok (.immediate index)
      else .error (.invalidOperation (.wideConstant index))
  | locals => .ok (.indirect .lcl index)
  | argument => .ok (.indirect .arg index)
  | this => .ok (.indirect .this index)
  | that => .ok (.indirect .that index)
  | pointer =>
      if index ≤ 1 then .ok (.direct (pointerBase + index))
      else .error (.invalidOperation (.pointerIndex index))
  | temp =>
      if index < tempSize then .ok (.direct (tempBase + index))
      else .error (.invalidOperation (.tempIndex index))
  | static => .ok (.symbol (staticName unit index))

end Segment

end HackComputer.Vm
