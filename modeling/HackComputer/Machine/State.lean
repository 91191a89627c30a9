import HackComputer.Isa.Operation
import HackComputer.Isa.Register

/-!
# `HackComputer.Machine.State`: the running machine

The machine has two registers, a program counter, data memory and a
program. One step performs the operation at the program counter. The
machine halts when there is none, and when a program has reached its
idle loop: a jump that is always taken, stores nothing and goes back to
an instruction right before it that loads that very address.

* `State.step`: one step.
* `State.run`: at most a given number of steps.
-/

set_option autoImplicit false

namespace HackComputer.Machine

open Isa

/-- Data memory. -/
abbrev Ram : Type := Vector Word ramSize

/-- The cell that a word addresses: the highest bit counts for
nothing. -/
def cell (address : Word) : Fin ramSize :=
  ⟨address.toNat % ramSize, Nat.mod_lt _ (by decide)⟩

namespace Ram

/-- The content of a cell. -/
def load (ram : Ram) (address : Word) : Word :=
  ram.get (cell address)

/-- Memory with one cell changed. -/
def store (ram : Ram) (address value : Word) : Ram :=
  ram.set (cell address) value (cell address).isLt

end Ram

/-- The machine between two steps. -/
structure State where
  rom : Array Operation
  ram : Ram
  a : Word
  d : Word
  pc : Word
  halted : Bool

namespace State

/-- The machine before its first step: everything is zero. -/
def start (rom : Array Operation) : State where
  rom := rom
  ram := Vector.replicate ramSize 0
  a := 0
  d := 0
  pc := 0
  halted := false

/-- The content of a cell. -/
def read (s : State) (address : Word) : Word :=
  s.ram.load address

/-- The machine with one cell changed. -/
def write (s : State) (address value : Word) : State :=
  { s with ram := s.ram.store address value }

/-- The machine with the cells from `first` on, `count` of them, set to
one value. -/
def fillFrom (first : Word) (value : Word) : Nat → State → State
  | 0, s => s
  | count + 1, s => fillFrom (first + 1) value count (s.write first value)

/-- The machine with the cells from `first` up to but without `bound`
set to one value. -/
def fill (s : State) (first bound value : Word) : State :=
  fillFrom first value (bound.toNat - first.toNat) s

/-- The address behind the top of the stack, kept between the stack's
base and the end of memory. -/
def stackTop (s : State) : Nat :=
  max stackBase.toNat (min (s.read Register.sp.address).toNat ramSize)

/-- The stack from its base to its top. -/
def stack (s : State) : List Word :=
  (s.ram.toArray.extract stackBase.toNat s.stackTop).toList

/-- The operation that the next step performs. -/
def fetch? (s : State) : Option Operation :=
  if s.halted then none else s.rom[s.pc.toNat]?

/-- A taken jump from `pc` to `target` is the end of an idle loop. -/
def isIdle (rom : Array Operation) (c : Calculation) (pc target : Word) : Bool :=
  c.jump == .always && c.dest == .none && target + 1 == pc
    && rom[target.toNat]? == some (.load target)

/-- Performs a computing instruction. The cell that is read and written
and the target of the jump are those that `A` addresses before the
instruction. -/
def calculate (s : State) (c : Calculation) : State :=
  let address := s.a
  let pc := s.pc
  let out := c.comp.eval s.d address (s.read address)
  let s := if c.dest.m then s.write address out else s
  let s := if c.dest.d then { s with d := out } else s
  let s := if c.dest.a then { s with a := out } else s
  if c.jump.holds out then
    let idle := isIdle s.rom c pc address
    { s with pc := address, halted := idle }
  else { s with pc := pc + 1 }

/-- Performs an operation. -/
def perform (s : State) : Operation → State
  | .load value => { s with a := value, pc := s.pc + 1 }
  | .compute c => s.calculate c

/-- One step: the operation that was performed with its address, and the
machine afterwards. Without an operation to perform the machine
halts. -/
def step (s : State) : Option (Word × Operation) × State :=
  match s.fetch? with
  | none => (none, { s with halted := true })
  | some op =>
      let pc := s.pc
      (some (pc, op), s.perform op)

/-- Runs for at most `limit` more steps, `done` of which count as done
already. Yields the number of steps done and the machine afterwards. -/
def runFrom (done : Nat) : Nat → State → Nat × State
  | 0, s => (done, s)
  | limit + 1, s =>
      match s.step with
      | (none, s) => (done, s)
      | (some _, s) => if s.halted then (done + 1, s) else runFrom (done + 1) limit s

/-- Runs until the machine halts, but for at most `limit` steps. Yields
the number of steps and the machine afterwards. -/
def run (limit : Nat) (s : State) : Nat × State :=
  runFrom 0 limit s

end State

end HackComputer.Machine
