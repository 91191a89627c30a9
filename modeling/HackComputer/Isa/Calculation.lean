import HackComputer.Isa.Computation
import HackComputer.Text.Style

/-!
# `HackComputer.Isa.Calculation`: computing instructions

A computing instruction names what is computed, which of the three
places take the result, and under which condition on the result the
machine jumps.

* `Destination`: a set of places. Its letters may stand in any order.
* `Jump`: a set of signs of the result.
* `Calculation`: the three together, as text and as bits.
-/

set_option autoImplicit false

namespace HackComputer.Isa

/-- The places that take the result of a computation: the registers `A`
and `D`, and the memory cell `M`. -/
structure Destination where
  a : Bool
  d : Bool
  m : Bool
  deriving DecidableEq, Repr

namespace Destination

/-- The result is dropped. -/
def none : Destination := ⟨false, false, false⟩

/-- How the destination is written: its letters in the order `A`, `M`,
`D`. -/
def text (dest : Destination) : String :=
  (if dest.a then "A" else "") ++ (if dest.m then "M" else "") ++ (if dest.d then "D" else "")

/-- The destination with these letters, in any order and each at most
once. -/
def parse (s : String) : Except Malformed Destination :=
  let cs := s.toList
  if cs.all (['A', 'D', 'M'].contains ·) && decide cs.Nodup then
    .ok ⟨cs.contains 'A', cs.contains 'D', cs.contains 'M'⟩
  else .error (.destination s)

/-- The three bits of the destination. -/
def bits (dest : Destination) : Word :=
  (if dest.a then 0b100 else 0) ||| (if dest.d then 0b010 else 0) ||| (if dest.m then 0b001 else 0)

/-- The destination with the lowest three bits of a word. -/
def ofBits (w : Word) : Destination :=
  ⟨w &&& 0b100 != 0, w &&& 0b010 != 0, w &&& 0b001 != 0⟩

end Destination

/-- The condition of a jump: the signs of the result on which it is
taken. -/
structure Jump where
  negative : Bool
  zero : Bool
  positive : Bool
  deriving DecidableEq, Repr

namespace Jump

/-- The jump that is never taken. -/
def never : Jump := ⟨false, false, false⟩

/-- The jump that is taken on every result. -/
def always : Jump := ⟨true, true, true⟩

/-- The jump is taken on the result `out`. -/
def holds (j : Jump) (out : Word) : Bool :=
  (j.negative && decide (out.signed < 0)) || (j.zero && out == 0)
    || (j.positive && decide (0 < out.signed))

/-- How the condition is written; the jump never taken is not written at
all. -/
def text : Jump → String
  | ⟨false, false, false⟩ => ""
  | ⟨false, false, true⟩ => "JGT"
  | ⟨false, true, false⟩ => "JEQ"
  | ⟨false, true, true⟩ => "JGE"
  | ⟨true, false, false⟩ => "JLT"
  | ⟨true, false, true⟩ => "JNE"
  | ⟨true, true, false⟩ => "JLE"
  | ⟨true, true, true⟩ => "JMP"

/-- The eight conditions. -/
def all : List Jump :=
  [⟨false, false, false⟩, ⟨false, false, true⟩, ⟨false, true, false⟩, ⟨false, true, true⟩,
    ⟨true, false, false⟩, ⟨true, false, true⟩, ⟨true, true, false⟩, ⟨true, true, true⟩]

/-- The condition with this spelling. -/
def parse (s : String) : Except Malformed Jump :=
  match all.find? (·.text == s) with
  | some j => .ok j
  | none => .error (.jump s)

/-- The three bits of the condition. -/
def bits (j : Jump) : Word :=
  (if j.negative then 0b100 else 0) ||| (if j.zero then 0b010 else 0)
    ||| (if j.positive then 0b001 else 0)

/-- The condition with the lowest three bits of a word. -/
def ofBits (w : Word) : Jump :=
  ⟨w &&& 0b100 != 0, w &&& 0b010 != 0, w &&& 0b001 != 0⟩

end Jump

/-- A computing instruction. -/
structure Calculation where
  dest : Destination
  comp : Computation
  jump : Jump
  deriving DecidableEq, Repr

namespace Calculation

/-- Writes the fields with their separators, each field through its own
function: `dest=comp;jump`, where an empty field and its separator are
left out. -/
def layout (c : Calculation) (dest comp jump : String → String) : String :=
  (if c.dest = .none then "" else dest c.dest.text ++ "=") ++ comp c.comp.text
    ++ (if c.jump = .never then "" else ";" ++ jump c.jump.text)

/-- How the instruction is written. -/
def text (c : Calculation) : String :=
  c.layout id id id

/-- The text with each field in its colour. -/
def painted (c : Calculation) : String :=
  c.layout (Text.styled [.red]) (Text.styled [.blue]) (Text.styled [.magenta])

/-- The thirteen bits of the three fields. -/
def bits (c : Calculation) : Word :=
  c.comp.bits <<< 6 ||| c.dest.bits <<< 3 ||| c.jump.bits

/-- The instruction with the lowest thirteen bits of a word, if they
select a computation. -/
def ofBits? (w : Word) : Option Calculation :=
  (Computation.ofBits? (w >>> 6 &&& 0x7F)).map fun comp =>
    ⟨.ofBits (w >>> 3), comp, .ofBits w⟩

end Calculation

end HackComputer.Isa
