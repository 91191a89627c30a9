import HackComputer.Proofs.Assembly.Execution
import HackComputer.Proofs.Vm.StackMachine

/-!
# `HackComputer.Proofs.Vm.Fragments`: what generated code does to memory

Each fragment of generated code, followed on the data alone. The
right-hand sides are the operations of the stack machine, so nothing
above this file looks at single instructions again.

The fragments leave `A` and `D` in states that later fragments rely on:
`popD` leaves the popped cell's address in `A`, `fetch` and `addressOf`
leave their answer in `D`. Every lemma says as much of the two registers
as somebody asks for.
-/

set_option autoImplicit false

namespace HackComputer.Vm.Code

open Isa Machine Assembly

section
variable (address : String → Word) (x : Data)

/-! ### The stack -/

/-- Pushing `D` leaves `D` alone. -/
theorem followAll_pushD :
    x.followAll address pushD = ⟨x.ram.push x.d, Register.sp.address, x.d⟩ := rfl

/-- Popping leaves the word in `D` and its address in `A`. -/
theorem followAll_popD :
    x.followAll address popD = ⟨x.ram.drop, x.ram.drop.reg .sp, x.ram.drop.top⟩ := by
  show (⟨x.ram.drop, x.ram.reg .sp - 1, x.ram.drop.load (x.ram.reg .sp - 1)⟩ : Data) = _
  have hsp : x.ram.drop.reg .sp = x.ram.reg .sp - 1 := by
    simp [Ram.drop]
  rw [Ram.top, hsp]

/-- Popping through `R13` finds the address there again, since the pop
itself moves nothing but the stack pointer. -/
theorem followAll_popToD : (x.followAll address popToD).ram = x.ram.popTo x.d := by
  have hwait : ((x.ram.setReg .r13 x.d).drop).reg .r13 = x.d := by
    simp [Ram.drop]
  rw [popToD, Data.followAll_append, Data.followAll_append]
  show (((⟨x.ram.setReg .r13 x.d, Register.r13.address, x.d⟩ : Data).followAll address
    popD).followAll address [register .r13, setA (.y .m), setM .d]).ram = _
  rw [followAll_popD]
  show ((x.ram.setReg .r13 x.d).drop).store (((x.ram.setReg .r13 x.d).drop).reg .r13)
    ((x.ram.setReg .r13 x.d).drop).top = _
  rw [hwait]
  rfl

/-- The fragment of a command with two operands. The computation sees the
upper one in `D` and the lower one in the addressed cell. -/
theorem followAll_binary (comp : Computation) (f : Word → Word → Word)
    (h : ∀ upper lower a, comp.eval upper a lower = f lower upper) :
    (x.followAll address (binary comp)).ram = Ram.binary f x.ram := by
  rw [binary, Data.followAll_append, followAll_popD]
  show x.ram.drop.store (x.ram.drop.reg .sp - 1) (comp.eval x.ram.drop.top
    (x.ram.drop.reg .sp - 1) (x.ram.drop.load (x.ram.drop.reg .sp - 1))) = _
  rw [h]
  rfl

/-- The fragment of a command with one operand. -/
theorem followAll_unary (comp : Computation) (f : Word → Word)
    (h : ∀ d top a, comp.eval d a top = f top) :
    (x.followAll address (unary comp)).ram = Ram.unary f x.ram := by
  show x.ram.store (x.ram.reg .sp - 1) (comp.eval x.d (x.ram.reg .sp - 1)
    (x.ram.load (x.ram.reg .sp - 1))) = _
  rw [h]
  rfl

/-! ### Memory -/

/-- The cell of a location. A constant has none. -/
def locationCell? (address : String → Word) (ram : Ram) : Location → Option Word
  | .immediate _ => none
  | .indirect base offset => some (ram.reg base + offset)
  | .direct place => some place
  | .symbol name => some (address name)

/-- The value at a location. -/
def locationValue (address : String → Word) (ram : Ram) : Location → Word
  | .immediate value => value
  | .indirect base offset => ram.load (ram.reg base + offset)
  | .direct place => ram.load place
  | .symbol name => ram.load (address name)

/-- Fetching puts the value into `D` and leaves memory alone. -/
theorem followAll_fetch (location : Location) :
    (x.followAll address (fetch location)).ram = x.ram ∧
    (x.followAll address (fetch location)).d = locationValue address x.ram location := by
  cases location <;> exact ⟨rfl, rfl⟩

/-- Taking the address of a cell puts it into `D` and leaves memory
alone. -/
theorem followAll_addressOf {location : Location} {lines : Lines}
    (h : addressOf location = .ok lines) :
    (x.followAll address lines).ram = x.ram ∧
    some (x.followAll address lines).d = locationCell? address x.ram location := by
  cases location with
  | immediate value => cases h
  | indirect base offset => cases h; exact ⟨rfl, rfl⟩
  | direct place => cases h; exact ⟨rfl, rfl⟩
  | symbol name => cases h; exact ⟨rfl, rfl⟩

/-! ### Frames -/

/-- Saving a slot pushes the return address or a register. -/
theorem followAll_save (returnLabel : String) (slot : Frame.Slot) :
    (x.followAll address (Frame.save returnLabel slot)).ram
      = match slot with
        | .returnAddress => x.ram.push (address returnLabel)
        | .saved r => x.ram.save r := by
  cases slot <;> rfl

/-- Restoring reads the frame through `R14`. -/
theorem followAll_restore (offset : Word) (r : Register) :
    (x.followAll address (Frame.restore offset r)).ram = x.ram.restore r offset := rfl

end

end HackComputer.Vm.Code
