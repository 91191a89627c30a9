import HackComputer.Isa.Word

/-!
# `HackComputer.Isa.Register`: named cells

Eight cells at the bottom of memory have names of their own: the stack
pointer, the four segment bases and three scratch registers. Programs
may also name the first sixteen cells by number, the screen and the
keyboard.
-/

set_option autoImplicit false

namespace HackComputer.Isa

/-- A named cell. -/
inductive Register where
  | sp
  | lcl
  | arg
  | this
  | that
  | r13
  | r14
  | r15
  deriving DecidableEq, Repr

namespace Register

/-- The eight registers by address. -/
def all : List Register :=
  [sp, lcl, arg, this, that, r13, r14, r15]

/-- The name of the register. -/
def name : Register → String
  | sp => "SP"
  | lcl => "LCL"
  | arg => "ARG"
  | this => "THIS"
  | that => "THAT"
  | r13 => "R13"
  | r14 => "R14"
  | r15 => "R15"

/-- The cell of the register. -/
def address : Register → Word
  | sp => 0
  | lcl => 1
  | arg => 2
  | this => 3
  | that => 4
  | r13 => 13
  | r14 => 14
  | r15 => 15

/-- The register with this name. -/
def ofName? (s : String) : Option Register :=
  all.find? (·.name == s)

/-- The register at this cell. -/
def ofAddress? (w : Word) : Option Register :=
  all.find? (·.address == w)

/-- The registers that a listing shows when none are asked for: the
stack pointer and the four segment bases. -/
def bases : List Register :=
  [sp, lcl, arg, this, that]

end Register

/-- The names that every program may use without defining them. -/
def predefined : List (String × Word) :=
  Register.all.map (fun r => (r.name, r.address))
    ++ (List.range 16).map (fun i => ("R" ++ toString i, i.toUInt16))
    ++ [("SCREEN", screenBase), ("KBD", keyboard)]

end HackComputer.Isa
