/-!
# `HackComputer.Isa.Word`: machine words and the memory map

Everything in the machine is a 16-bit word, and arithmetic wraps around.
A word is read as signed where its sign matters.

The constants fix the layout of memory: where scratch cells, variables,
the stack, the screen and the keyboard live, and how many cells and
instructions there are.
-/

set_option autoImplicit false

namespace HackComputer.Isa

/-- A machine word: 16 bits with arithmetic modulo `2 ^ 16`. -/
abbrev Word : Type := UInt16

/-- The word as a signed number, from `-32768` to `32767`. -/
def Word.signed (w : Word) : Int :=
  w.toInt16.toInt

/-- The number of cells of data memory. -/
def ramSize : Nat := 0x8000

/-- The number of instructions that program memory holds. -/
def romCapacity : Nat := 0x8000

/-- The largest value that an instruction can load: fifteen bits. -/
def maxImmediate : Word := 0x7FFF

/-- The first of the two pointer cells. -/
def pointerBase : Word := 3

/-- The first scratch cell. -/
def tempBase : Word := 5

/-- The number of scratch cells. -/
def tempSize : Word := 8

/-- The first cell that is given to a variable. -/
def variableBase : Word := 16

/-- The first cell of the stack. -/
def stackBase : Word := 256

/-- The first cell of the screen. -/
def screenBase : Word := 0x4000

/-- The cell of the keyboard. -/
def keyboard : Word := 0x6000

end HackComputer.Isa
