import HackComputer.Machine.State

/-!
# `HackComputer.Proofs.Machine.Memory`: reading back what was written

Data memory by itself, apart from the machine that holds it. `Ram.load`
and `Ram.store` take any word as an address, and two words address the
same cell when they agree in their lowest fifteen bits. Nothing here asks
for distinct cells: a program may let its stack run into the registers,
so `load_store` keeps both cases.

* `load_store`: what a cell holds after a store.
* `store_store_self`: two stores to one cell.
* `cell_eq_iff`: when two words address the same cell.
* `reg`, `setReg`: the cells that have names.
-/

set_option autoImplicit false

namespace HackComputer.Machine

open Isa

/-- Two words address the same cell when they agree below the highest
bit. -/
theorem cell_eq_iff (a b : Word) :
    cell a = cell b ↔ a.toNat % ramSize = b.toNat % ramSize := by
  simp [cell]

/-- Below the end of memory, different words address different cells. -/
theorem cell_ne_of_lt {a b : Word} (ha : a.toNat < ramSize) (hb : b.toNat < ramSize)
    (hne : a ≠ b) : cell a ≠ cell b := by
  rw [Ne, cell_eq_iff, Nat.mod_eq_of_lt ha, Nat.mod_eq_of_lt hb]
  intro h
  exact hne (UInt16.toNat_inj.mp h)

/-- Different registers are different cells. -/
theorem cell_address_eq_iff (r r' : Register) :
    cell r.address = cell r'.address ↔ r = r' := by
  cases r <;> cases r' <;> decide

namespace Ram

/-- What a cell holds after a store to any cell. -/
theorem load_store (ram : Ram) (a b value : Word) :
    (ram.store a value).load b = if cell a = cell b then value else ram.load b := by
  show (ram.set (cell a) value (cell a).isLt)[(cell b).val]
    = if cell a = cell b then value else ram[(cell b).val]
  rw [Vector.getElem_set]
  simp only [Fin.ext_iff]

/-- The cell of a store holds the value. -/
@[simp] theorem load_store_self (ram : Ram) (a value : Word) :
    (ram.store a value).load a = value := by
  rw [load_store, if_pos rfl]

/-- Every other cell keeps its content. -/
theorem load_store_of_ne (ram : Ram) {a b : Word} (h : cell a ≠ cell b) (value : Word) :
    (ram.store a value).load b = ram.load b := by
  rw [load_store, if_neg h]

/-- Memories that agree in every cell are equal. -/
theorem ext_load {ram ram' : Ram} (h : ∀ a, ram.load a = ram'.load a) : ram = ram' := by
  apply Vector.ext
  intro i hi
  have hword : (UInt16.ofNat i).toNat = i :=
    UInt16.toNat_ofNat_of_lt (Nat.lt_of_lt_of_le hi (by decide))
  have hcell : (cell (UInt16.ofNat i)).val = i := by
    show (UInt16.ofNat i).toNat % ramSize = i
    rw [hword, Nat.mod_eq_of_lt hi]
  have hload := h (UInt16.ofNat i)
  simp only [load, Vector.get] at hload
  simpa [hcell] using hload

/-- Of two stores to one cell the second counts. -/
@[simp] theorem store_store_self (ram : Ram) (a v w : Word) :
    (ram.store a v).store a w = ram.store a w := by
  apply ext_load
  intro b
  simp only [load_store]
  split <;> rfl

/-! ### The cells with names -/

/-- The content of a register. -/
def reg (ram : Ram) (r : Register) : Word :=
  ram.load r.address

/-- Memory with one register changed. -/
def setReg (ram : Ram) (r : Register) (value : Word) : Ram :=
  ram.store r.address value

/-- What a register holds after a store to any register. -/
@[simp] theorem reg_setReg (ram : Ram) (r r' : Register) (value : Word) :
    (ram.setReg r value).reg r' = if r = r' then value else ram.reg r' := by
  show (ram.store r.address value).load r'.address = _
  rw [load_store]
  simp only [cell_address_eq_iff]
  rfl

end Ram

end HackComputer.Machine
