import HackComputer.Isa.Malformed

/-!
# `HackComputer.Isa.Computation`: what the arithmetic unit computes

The unit has two inputs: the register `D`, and either the register `A`
or the memory cell that `A` addresses. One bit of an instruction selects
the second input and six bits select the function, of which eighteen are
defined: eight without the second input and ten with it.

* `Computation.eval`: the word computed.
* `Computation.bits`, `Computation.ofBits?`: the seven selecting bits.
* `Computation.text`, `Computation.spellings`, `Computation.parse`: the
  spelling. A commutative function may be written either way round.
-/

set_option autoImplicit false

namespace HackComputer.Isa

/-- The second input of the arithmetic unit. -/
inductive Source where
  /-- The register `A`. -/
  | a
  /-- The memory cell that `A` addresses. -/
  | m
  deriving DecidableEq, Repr

namespace Source

/-- The input's own value, of the two that it can select. -/
def select (s : Source) (a m : Word) : Word :=
  match s with
  | .a => a
  | .m => m

/-- The selecting bit, in its place above the six function bits. -/
def bits : Source → Word
  | a => 0b0000000
  | m => 0b1000000

/-- The letter of the input. -/
def letter : Source → String
  | a => "A"
  | m => "M"

end Source

/-- A function of the arithmetic unit. `y` stands for the second
input. -/
inductive Computation where
  | zero
  | one
  | minusOne
  | d
  | notD
  | negD
  | incD
  | decD
  | y (s : Source)
  | notY (s : Source)
  | negY (s : Source)
  | incY (s : Source)
  | decY (s : Source)
  | addDY (s : Source)
  | subDY (s : Source)
  | subYD (s : Source)
  | andDY (s : Source)
  | orDY (s : Source)
  deriving DecidableEq, Repr

namespace Computation

/-- The computations with the second input `s`. -/
def withSource (s : Source) : List Computation :=
  [y s, notY s, negY s, incY s, decY s, addDY s, subDY s, subYD s, andDY s, orDY s]

/-- The 28 computations. -/
def all : List Computation :=
  [zero, one, minusOne, d, notD, negD, incD, decD] ++ withSource .a ++ withSource .m

/-- The word computed from the two registers and the addressed cell. -/
def eval (c : Computation) (dReg aReg cell : Word) : Word :=
  match c with
  | zero => 0
  | one => 1
  | minusOne => 0xFFFF
  | d => dReg
  | notD => ~~~dReg
  | negD => 0 - dReg
  | incD => dReg + 1
  | decD => dReg - 1
  | y s => s.select aReg cell
  | notY s => ~~~(s.select aReg cell)
  | negY s => 0 - s.select aReg cell
  | incY s => s.select aReg cell + 1
  | decY s => s.select aReg cell - 1
  | addDY s => dReg + s.select aReg cell
  | subDY s => dReg - s.select aReg cell
  | subYD s => s.select aReg cell - dReg
  | andDY s => dReg &&& s.select aReg cell
  | orDY s => dReg ||| s.select aReg cell

/-- The seven bits that select the computation. -/
def bits : Computation → Word
  | zero => 0b101010
  | one => 0b111111
  | minusOne => 0b111010
  | d => 0b001100
  | notD => 0b001101
  | negD => 0b001111
  | incD => 0b011111
  | decD => 0b001110
  | y s => s.bits ||| 0b110000
  | notY s => s.bits ||| 0b110001
  | negY s => s.bits ||| 0b110011
  | incY s => s.bits ||| 0b110111
  | decY s => s.bits ||| 0b110010
  | addDY s => s.bits ||| 0b000010
  | subDY s => s.bits ||| 0b010011
  | subYD s => s.bits ||| 0b000111
  | andDY s => s.bits ||| 0b000000
  | orDY s => s.bits ||| 0b010101

/-- The computation that seven bits select, if they select one. -/
def ofBits? (w : Word) : Option Computation :=
  all.find? (·.bits == w)

/-- How the computation is written. -/
def text : Computation → String
  | zero => "0"
  | one => "1"
  | minusOne => "-1"
  | d => "D"
  | notD => "!D"
  | negD => "-D"
  | incD => "D+1"
  | decD => "D-1"
  | y s => s.letter
  | notY s => "!" ++ s.letter
  | negY s => "-" ++ s.letter
  | incY s => s.letter ++ "+1"
  | decY s => s.letter ++ "-1"
  | addDY s => "D+" ++ s.letter
  | subDY s => "D-" ++ s.letter
  | subYD s => s.letter ++ "-D"
  | andDY s => "D&" ++ s.letter
  | orDY s => "D|" ++ s.letter

/-- The other way round to write a commutative computation. -/
def swapped? : Computation → Option String
  | incD => some "1+D"
  | incY s => some ("1+" ++ s.letter)
  | addDY s => some (s.letter ++ "+D")
  | andDY s => some (s.letter ++ "&D")
  | orDY s => some (s.letter ++ "|D")
  | _ => none

/-- Every accepted spelling, the one that is written first. -/
def spellings (c : Computation) : List String :=
  c.text :: c.swapped?.toList

/-- The spellings of all computations. -/
def spelled : List (String × Computation) :=
  all.flatMap fun c => c.spellings.map (·, c)

/-- The computation with this spelling. -/
def parse (s : String) : Except Malformed Computation :=
  match spelled.lookup s with
  | some c => .ok c
  | none => .error (.computation s)

/-- Every computation is listed. -/
theorem mem_all (c : Computation) : c ∈ all := by
  cases c <;> first | decide | (rename_i s; cases s <;> decide)

/-- The selecting bits determine the computation. -/
theorem ofBits?_bits (c : Computation) : ofBits? c.bits = some c := by
  cases c <;> first | decide | (rename_i s; cases s <;> decide)

end Computation

end HackComputer.Isa
