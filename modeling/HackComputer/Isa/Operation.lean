import HackComputer.Isa.Calculation

/-!
# `HackComputer.Isa.Operation`: the words of program memory

A word of program memory is one of two operations. With its highest bit
clear it loads its fifteen other bits into `A`; with that bit set it is a
computing instruction in its lowest thirteen bits. Writing sets the two
bits in between, and reading pays no regard to them.
-/

set_option autoImplicit false

namespace HackComputer.Isa

/-- What the machine does in one step. -/
inductive Operation where
  /-- Put a value into `A`. -/
  | load (value : Word)
  /-- Compute, store and possibly jump. -/
  | compute (calculation : Calculation)
  deriving DecidableEq, Repr

namespace Operation

/-- The word of the operation. A loaded value keeps its lowest fifteen
bits. -/
def encode : Operation → Word
  | load value => value &&& 0x7FFF
  | compute c => 0xE000 ||| c.bits

/-- The operation that a word denotes. -/
def decode (w : Word) : Except Malformed Operation :=
  if w &&& 0x8000 = 0 then .ok (load w)
  else match Calculation.ofBits? w with
    | some c => .ok (compute c)
    | none => .error (.word w)

/-- How the operation is written. -/
def text : Operation → String
  | load value => "@" ++ Text.decimal value.toNat
  | compute c => c.text

/-- The text with each field in its colour. -/
def painted : Operation → String
  | load value => Text.styled [.yellow] ("@" ++ Text.decimal value.toNat)
  | compute c => c.painted

end Operation

end HackComputer.Isa
