import HackComputer.Text.Blank
import HackComputer.Vm.Segment

/-!
# `HackComputer.Vm.Command`: the commands of the stack machine

A command is a line of words: its name and then its operands. Operands
are checked from left to right, each one fully before the next, and a
word too many is reported last.
-/

set_option autoImplicit false

namespace HackComputer.Vm

open Isa

/-- A command that acts on the top of the stack alone. -/
inductive Arithmetic where
  | add
  | sub
  | neg
  | eq
  | gt
  | lt
  | and
  | or
  | not
  deriving DecidableEq, Repr

namespace Arithmetic

/-- The nine arithmetic commands. -/
def all : List Arithmetic :=
  [add, sub, neg, eq, gt, lt, and, or, not]

/-- The name of the command. -/
def name : Arithmetic → String
  | add => "add"
  | sub => "sub"
  | neg => "neg"
  | eq => "eq"
  | gt => "gt"
  | lt => "lt"
  | and => "and"
  | or => "or"
  | not => "not"

/-- The command with this name. -/
def ofName? (s : String) : Option Arithmetic :=
  all.find? (·.name == s)

end Arithmetic

/-- A command of the stack machine. -/
inductive Command where
  | arithmetic (op : Arithmetic)
  | push (segment : Segment) (index : Word)
  | pop (segment : Segment) (index : Word)
  | label (name : String)
  | goto (target : String)
  | ifGoto (target : String)
  | function (name : String) (locals : Word)
  | call (name : String) (arguments : Word)
  | ret
  deriving DecidableEq, Repr

namespace Command

/-! ### Reading -/

/-- The first of the remaining words, which stand for what the command
still needs. -/
def operand (what : Missing) : List String → Except Fault (String × List String)
  | [] => .error (.missingOperand what)
  | word :: rest => .ok (word, rest)

/-- Reads a number of sixteen bits. -/
def parseNumber (s : String) : Except Fault Word :=
  match Text.unsigned? s.toList with
  | some n => if n < UInt16.size then .ok n.toUInt16 else .error (.invalidNumber s)
  | none => .error (.invalidNumber s)

/-- Reads a name. The mark `$` starts generated labels, so names of a
source may not hold it. -/
def parseName (s : String) : Except Fault String :=
  if s.toList.contains '$' then .error (.invalidOperation (.reservedName s)) else .ok s

/-- Reads a segment and an index. -/
def parseCell (args : List String) : Except Fault ((Segment × Word) × List String) := do
  let (segment, args) ← operand .segment args
  let segment ← Segment.parse segment
  let (index, args) ← operand .index args
  let index ← parseNumber index
  return ((segment, index), args)

/-- Reads the name of a label. -/
def parseTarget (args : List String) : Except Fault (String × List String) := do
  let (target, args) ← operand .label args
  let target ← parseName target
  return (target, args)

/-- Reads the name of a function and a count. -/
def parseFunction (args : List String) : Except Fault ((String × Word) × List String) := do
  let (name, args) ← operand .name args
  let name ← parseName name
  let (count, args) ← operand .count args
  let count ← parseNumber count
  return ((name, count), args)

/-- Reads the command called `name` and yields the words behind it. -/
def parseNamed (name : String) (args : List String) : Except Fault (Command × List String) :=
  match name with
  | "push" => do
      let ((segment, index), args) ← parseCell args
      return (push segment index, args)
  | "pop" => do
      let ((segment, index), args) ← parseCell args
      return (pop segment index, args)
  | "label" => do
      let (target, args) ← parseTarget args
      return (label target, args)
  | "goto" => do
      let (target, args) ← parseTarget args
      return (goto target, args)
  | "if-goto" => do
      let (target, args) ← parseTarget args
      return (ifGoto target, args)
  | "function" => do
      let ((name, count), args) ← parseFunction args
      return (function name count, args)
  | "call" => do
      let ((name, count), args) ← parseFunction args
      return (call name count, args)
  | "return" => .ok (ret, args)
  | _ =>
      match Arithmetic.ofName? name with
      | some op => .ok (arithmetic op, args)
      | none => .error (.unknownCommand name)

/-- Reads a command from its words. -/
def ofWords : List String → Except Fault Command
  | [] => .error (.missingOperand .command)
  | name :: args =>
      match parseNamed name args with
      | .error fault => .error fault
      | .ok (command, []) => .ok command
      | .ok (_, extra :: _) => .error (.unexpectedOperand extra)

/-- Reads a command from a line without a comment. -/
def parse (line : List Char) : Except Fault Command :=
  ofWords ((Text.words line).map String.ofList)

end Command

end HackComputer.Vm
