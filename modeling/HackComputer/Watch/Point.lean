import HackComputer.Assembly.Executable
import HackComputer.Yaml.Value

/-!
# `HackComputer.Watch.Point`: what to show at which instruction

A watch document is a YAML mapping from instructions to what is shown
when they are performed. An instruction is named by its address or by a
symbol of the program. A key that comes again replaces what was said
before and stays where it was, and so does another key for the same
address.

* `Keyed.ofNode?`: the document as pairs.
* `Points.resolve`: the addresses of its keys.
-/

set_option autoImplicit false

namespace HackComputer.Watch

open Isa Assembly Yaml

/-- What is shown beside the instruction itself. -/
structure Point where
  /-- Show the stack. -/
  stack : Bool := false
  /-- The registers to show; none stands for the usual ones. -/
  registers : List Register := []
  /-- The memory cells to show. -/
  cells : List Word := []
  deriving DecidableEq, Repr, Inhabited

/-- How a document names an instruction. -/
inductive Key where
  | address (w : Word)
  | symbol (name : String)
  deriving DecidableEq, Repr

/-- Why there is nothing to watch. -/
inductive Error where
  /-- The document cannot be read. -/
  | unreadable (file : String)
  /-- The program has no such symbol. -/
  | unknownSymbol (name : String)
  deriving DecidableEq, Repr

/-- The wording of each cause. -/
def Error.message : Error → String
  | unreadable file => "Invalid dump config: " ++ file
  | unknownSymbol name => "Unknown symbol: `" ++ name ++ "`"

/-! ### Ordered maps -/

/-- Puts a value at a key: in the place of the value that was there, or
at the end. -/
def put {α β : Type} [DecidableEq α] (pairs : List (α × β)) (key : α) (value : β) :
    List (α × β) :=
  if pairs.any (·.1 = key) then pairs.map fun p => if p.1 = key then (key, value) else p
  else pairs ++ [(key, value)]

/-! ### Reading a document -/

/-- The key that a node stands for. -/
def Key.ofNode? : Node → Option Key
  | .scalar s =>
      match s.value with
      | .integer n => if 0 ≤ n ∧ n < UInt16.size then some (.address n.toNat.toUInt16) else none
      | .text name => some (.symbol name)
      | _ => none
  | _ => none

/-- The parts of a sequence. A sequence that is not written at all has
none. -/
def items? : Node → Option (List Node)
  | .sequence items => some items
  | node => if isNothing node then some [] else none
where
  isNothing : Node → Bool
    | .scalar s => s = .nothing
    | _ => false

/-- The pairs of a mapping. A mapping that is not written at all has
none. -/
def pairs? : Node → Option (List (Node × Node))
  | .mapping pairs => some pairs
  | .scalar s => if s = .nothing then some [] else none
  | .sequence _ => none

/-- A truth value. -/
def truth? : Node → Option Bool
  | .scalar s => if s.quoted then none else bool? s.text
  | _ => none

/-- A register's name, in quotes or not. -/
def register? : Node → Option Register
  | .scalar s => Register.ofName? s.text
  | _ => none

/-- A number of sixteen bits without quotes. -/
def cell? : Node → Option Word
  | .scalar s =>
      if s.quoted then none
      else (Yaml.unsigned? s.text.toList).bind fun n =>
        if n < UInt16.size then some n.toUInt16 else none
  | _ => none

/-- The fields of a point that have been read. -/
structure Fields where
  stack : Option Bool := none
  registers : Option (List Register) := none
  cells : Option (List Word) := none

namespace Fields

/-- Adds a field. A field may come only once; one with another name
counts for nothing. -/
def add (f : Fields) (pair : Node × Node) : Option Fields :=
  match pair.1 with
  | .scalar s =>
      match s.text with
      | "stack" =>
          if f.stack.isSome then none
          else (truth? pair.2).map fun b => { f with stack := some b }
      | "regs" =>
          if f.registers.isSome then none
          else (items? pair.2 >>= fun items => items.mapM register?).map fun rs =>
            { f with registers := some rs }
      | "ram" =>
          if f.cells.isSome then none
          else (items? pair.2 >>= fun items => items.mapM cell?).map fun ws =>
            { f with cells := some ws }
      | _ => some f
  | _ => none

/-- The point with these fields; a field that is missing is empty. -/
def point (f : Fields) : Point :=
  ⟨f.stack.getD false, f.registers.getD [], f.cells.getD []⟩

end Fields

/-- The point that a node describes. -/
def Point.ofNode? (node : Node) : Option Point := do
  let pairs ← pairs? node
  let fields ← pairs.foldlM Fields.add {}
  return fields.point

/-- Points by key, as a document gives them. -/
abbrev Keyed : Type := List (Key × Point)

/-- The points of a document. -/
def Keyed.ofNode? (node : Node) : Option Keyed := do
  let pairs ← pairs? node
  pairs.foldlM (fun keyed (k, v) => do
    let key ← Key.ofNode? k
    let point ← Point.ofNode? v
    return put keyed key point) []

/-! ### Addresses -/

/-- Points by address. -/
abbrev Points : Type := List (Word × Point)

/-- The address of a key in a program. -/
def Key.resolve (e : Executable) : Key → Except Error Word
  | .address w => .ok w
  | .symbol name =>
      match e.address? name with
      | some w => .ok w
      | none => .error (.unknownSymbol name)

/-- The points by address. The first symbol that the program does not
have is reported. -/
def Points.resolve (e : Executable) (keyed : Keyed) : Except Error Points :=
  keyed.foldlM (fun points (key, point) => do
    let address ← key.resolve e
    return put points address point) []

/-- The points of a document that was read from `file`. -/
def Points.parse (e : Executable) (file : String) (source : List Char) : Except Error Points :=
  match Node.document? source >>= Keyed.ofNode? with
  | some keyed => Points.resolve e keyed
  | none => .error (.unreadable file)

end HackComputer.Watch
