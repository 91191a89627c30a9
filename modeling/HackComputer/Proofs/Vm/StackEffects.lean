import HackComputer.Proofs.Machine.Run
import HackComputer.Proofs.Vm.StackMachine

/-!
# `HackComputer.Proofs.Vm.StackEffects`: commands on a stack that is clear of the registers

The effects of commands are written in the order in which they happen,
so that they hold for any memory. As long as the stack keeps behind the
registers and inside memory (`Plain` addresses), the order does not
matter, and each effect is a few independent changes. This file has
those forms:

* `pushAll`: words that are pushed one after the other. `call_eq` says
  that a call pushes its frame and moves the bases, `pushZeros_eq` that
  the start of a function pushes zeros.
* `ret_eq`: a return reads the four registers and the return address out
  of the frame that it was called with. Storing the result does not harm
  the frame, except for the return address, which is safe in `R15` then.
-/

set_option autoImplicit false

namespace HackComputer.Machine

open Isa

/-- An address behind the registers and inside memory. -/
def Plain (a : Word) : Prop :=
  16 ≤ a.toNat ∧ a.toNat < ramSize

/-- Adding to a word, as long as it does not wrap. -/
theorem toNat_add_toUInt16 {a : Word} {i : Nat} (h : a.toNat + i < 65536) :
    (a + i.toUInt16).toNat = a.toNat + i := by
  have hi : i.toUInt16.toNat = i := UInt16.toNat_ofNat_of_lt (by show i < 65536; omega)
  rw [UInt16.toNat_add, hi, Nat.mod_eq_of_lt h]

/-- Taking one from a word that is not zero. -/
theorem toNat_sub_one {a : Word} (h : 0 < a.toNat) : (a - 1).toNat = a.toNat - 1 :=
  UInt16.toNat_sub_of_le a 1 (UInt16.le_iff_toNat_le.mpr h)

/-- A plain address is no register's. -/
theorem Plain.cell_ne {a : Word} (h : Plain a) (r : Register) : cell a ≠ cell r.address := by
  have hr : r.address.toNat < 16 := by cases r <;> decide
  refine cell_ne_of_lt h.2 (Nat.lt_trans hr (by decide)) ?_
  intro heq
  have hlow := h.1
  rw [heq] at hlow
  omega

namespace Ram

variable {ram : Ram} {a : Word}

/-- Storing at a plain address changes no register. -/
theorem reg_store (h : Plain a) (value : Word) (r : Register) :
    (ram.store a value).reg r = ram.reg r :=
  load_store_of_ne ram (h.cell_ne r) value

/-- Changing a register changes no plain address. -/
theorem load_setReg (h : Plain a) (r : Register) (value : Word) :
    (ram.setReg r value).load a = ram.load a :=
  load_store_of_ne ram (h.cell_ne r).symm value

/-! ### Pushing -/

/-- Words that are pushed one after the other. -/
def pushAll (values : List Word) (ram : Ram) : Ram :=
  values.foldl push ram

/-- A push at a plain address stores the word and moves the pointer. -/
theorem push_eq (h : Plain (ram.reg .sp)) (value : Word) :
    ram.push value = (ram.store (ram.reg .sp) value).setReg .sp (ram.reg .sp + 1) := by
  rw [push, reg_store h]

/-- The pointer after a push. -/
theorem toNat_sp_push (h : Plain (ram.reg .sp)) (value : Word) :
    ((ram.push value).reg .sp).toNat = (ram.reg .sp).toNat + 1 := by
  have hsize : ramSize = 32768 := rfl
  have hlt := h.2
  rw [push_eq h, reg_setReg, if_pos rfl]
  exact toNat_add_toUInt16 (i := 1) (by omega)

/-- The other registers after a push. -/
theorem reg_push (h : Plain (ram.reg .sp)) (value : Word) {r : Register} (hr : r ≠ .sp) :
    (ram.push value).reg r = ram.reg r := by
  rw [push_eq h, reg_setReg, if_neg hr.symm, reg_store h]

/-- Plain addresses after a push. -/
theorem load_push (h : Plain (ram.reg .sp)) (value : Word) (ha : Plain a) :
    (ram.push value).load a = if ram.reg .sp = a then value else ram.load a := by
  rw [push_eq h, load_setReg ha, load_store]
  by_cases heq : ram.reg .sp = a
  · rw [if_pos heq, if_pos (congrArg cell heq)]
  · rw [if_neg heq, if_neg (cell_ne_of_lt h.2 ha.2 heq)]

section
variable {values : List Word} (hlow : 16 ≤ (ram.reg .sp).toNat)
  (hroom : (ram.reg .sp).toNat + values.length ≤ ramSize)
include hlow hroom

/-- Pushing moves the pointer by the number of words. -/
theorem toNat_sp_pushAll :
    ((pushAll values ram).reg .sp).toNat = (ram.reg .sp).toNat + values.length := by
  induction values generalizing ram with
  | nil => rfl
  | cons value values ih =>
      rw [List.length_cons] at hroom ⊢
      have hsp := toNat_sp_push ⟨hlow, by omega⟩ value
      show ((pushAll values (ram.push value)).reg .sp).toNat = _
      rw [ih (by omega) (by omega), hsp]
      omega

/-- The same as a word. -/
theorem sp_pushAll :
    (pushAll values ram).reg .sp = ram.reg .sp + values.length.toUInt16 := by
  have hsize : ramSize = 32768 := rfl
  apply UInt16.toNat_inj.mp
  rw [toNat_sp_pushAll hlow hroom, toNat_add_toUInt16 (by omega)]

/-- Pushing changes no other register. -/
theorem reg_pushAll {r : Register} (hr : r ≠ .sp) :
    (pushAll values ram).reg r = ram.reg r := by
  induction values generalizing ram with
  | nil => rfl
  | cons value values ih =>
      rw [List.length_cons] at hroom
      have hplain : Plain (ram.reg .sp) := ⟨hlow, by omega⟩
      have hsp := toNat_sp_push hplain value
      show (pushAll values (ram.push value)).reg r = _
      rw [ih (by omega) (by omega), reg_push hplain value hr]

/-- Pushing changes nothing below the pointer. -/
theorem load_pushAll_of_lt (ha : 16 ≤ a.toNat) (hlt : a.toNat < (ram.reg .sp).toNat) :
    (pushAll values ram).load a = ram.load a := by
  induction values generalizing ram with
  | nil => rfl
  | cons value values ih =>
      rw [List.length_cons] at hroom
      have hplain : Plain (ram.reg .sp) := ⟨hlow, by omega⟩
      have hsp := toNat_sp_push hplain value
      show (pushAll values (ram.push value)).load a = _
      rw [ih (by omega) (by omega) (by omega), load_push hplain value ⟨ha, by omega⟩, if_neg]
      intro heq
      rw [heq] at hlt
      exact Nat.lt_irrefl _ hlt

/-- The words stand in the order in which they were pushed. -/
theorem load_pushAll {i : Nat} {value : Word} (hvalue : values[i]? = some value) :
    (pushAll values ram).load (ram.reg .sp + i.toUInt16) = value := by
  induction values generalizing ram i with
  | nil => cases hvalue
  | cons first values ih =>
      rw [List.length_cons] at hroom
      have hplain : Plain (ram.reg .sp) := ⟨hlow, by omega⟩
      have hsp := toNat_sp_push hplain first
      show (pushAll values (ram.push first)).load _ = _
      cases i with
      | zero =>
          cases hvalue
          -- What is pushed later stands above.
          rw [show (0 : Nat).toUInt16 = 0 from rfl, UInt16.add_zero,
            load_pushAll_of_lt (by omega) (by omega) hlow (by omega), load_push hplain _ hplain,
            if_pos rfl]
      | succ i =>
          have hnext : ram.reg .sp + (i + 1).toUInt16 = (ram.push first).reg .sp + i.toUInt16 := by
            rw [push_eq hplain, reg_setReg, if_pos rfl, ← toUInt16_succ, UInt16.add_assoc,
              UInt16.add_comm 1]
          rw [hnext]
          exact ih (by omega) (by omega) hvalue

/-- Saving a register after other pushes is one push more. -/
theorem save_pushAll {r : Register} (hr : r ≠ .sp) :
    (pushAll values ram).save r = pushAll (values ++ [ram.reg r]) ram := by
  rw [save, reg_pushAll hlow hroom hr, pushAll, pushAll, List.foldl_append]
  rfl

end

/-- The start of a function pushes its zeros. -/
theorem pushZeros_eq {count : Nat} (hlow : 16 ≤ (ram.reg .sp).toNat)
    (hroom : (ram.reg .sp).toNat + count ≤ ramSize) :
    pushZeros count ram = (pushAll (List.replicate count 0) ram).setReg .r13 0 := by
  induction count generalizing ram with
  | zero => rfl
  | succ count ih =>
      have hplain : Plain (ram.reg .sp) := ⟨hlow, by omega⟩
      have hsp := toNat_sp_push hplain 0
      rw [pushZeros, if_neg (hplain.cell_ne .r13), ih (by omega) (by omega)]
      rfl

/-- A call pushes its frame and moves the bases. -/
theorem call_eq (arguments returnAddress : Word) (hlow : 16 ≤ (ram.reg .sp).toNat)
    (hroom : (ram.reg .sp).toNat + 5 ≤ ramSize) :
    ram.call arguments returnAddress
      = ((pushAll [returnAddress, ram.reg .lcl, ram.reg .arg, ram.reg .this, ram.reg .that]
          ram).setReg .arg (ram.reg .sp - arguments)).setReg .lcl (ram.reg .sp + 5) := by
  have hframe : ((((ram.push returnAddress).save .lcl).save .arg).save .this).save .that
      = pushAll [returnAddress, ram.reg .lcl, ram.reg .arg, ram.reg .this, ram.reg .that] ram := by
    have hfits : ∀ values : List Word, values.length ≤ 5 →
        (ram.reg .sp).toNat + values.length ≤ ramSize := by
      intro values hvalues
      omega
    -- Every register is saved as it was before the first push.
    show ((((pushAll [returnAddress] ram).save .lcl).save .arg).save .this).save .that = _
    rw [save_pushAll hlow (hfits _ (by simp)) (by decide),
      save_pushAll hlow (hfits _ (by simp)) (by decide),
      save_pushAll hlow (hfits _ (by simp)) (by decide),
      save_pushAll hlow (hfits _ (by simp)) (by decide)]
    rfl
  have hsp : (pushAll [returnAddress, ram.reg .lcl, ram.reg .arg, ram.reg .this, ram.reg .that]
      ram).reg .sp = ram.reg .sp + 5 := sp_pushAll hlow hroom
  -- The base is computed from the moved pointer, so the frame is taken off again.
  have hbase : ram.reg .sp + 5 - arguments - 5 = ram.reg .sp - arguments := by
    grind
  rw [call, hframe, reg_setReg, if_neg (by decide), hsp, hbase]

/-! ### Commands that stay above a bound -/

/-- Between the registers and the bound nothing has changed, the two
bases are the same, and the stack pointer is above the bound. -/
structure Tidy (bound : Nat) (ram ram' : Ram) : Prop where
  lcl : ram'.reg .lcl = ram.reg .lcl
  arg : ram'.reg .arg = ram.reg .arg
  load : ∀ x : Word, 16 ≤ x.toNat → x.toNat < bound → ram'.load x = ram.load x
  low : bound ≤ (ram'.reg .sp).toNat
  high : (ram'.reg .sp).toNat ≤ ramSize

section
variable {bound : Nat} (hbound : 16 ≤ bound)

/-- Nothing happens. -/
theorem tidy_refl (hlow : bound ≤ (ram.reg .sp).toNat) (hhigh : (ram.reg .sp).toNat ≤ ramSize) :
    Tidy bound ram ram :=
  ⟨rfl, rfl, fun _ _ _ => rfl, hlow, hhigh⟩

/-- The pointer after a word has gone. -/
theorem toNat_sp_drop (h : 0 < (ram.reg .sp).toNat) :
    (ram.drop.reg .sp).toNat = (ram.reg .sp).toNat - 1 := by
  rw [drop, reg_setReg, if_pos rfl]
  exact toNat_sub_one h

/-- The cell below the word that has gone. -/
theorem toNat_sp_drop_sub_one (h : 1 < (ram.reg .sp).toNat) :
    (ram.drop.reg .sp - 1).toNat = (ram.reg .sp).toNat - 2 := by
  have hsp := toNat_sp_drop (Nat.zero_lt_of_lt h)
  rw [toNat_sub_one (by omega), hsp]
  omega

/-- A word goes and the pointer is taken down. -/
theorem tidy_drop (hlow : bound + 1 ≤ (ram.reg .sp).toNat)
    (hhigh : (ram.reg .sp).toNat ≤ ramSize) : Tidy bound ram ram.drop := by
  have hsp := toNat_sp_drop (Nat.zero_lt_of_lt hlow)
  refine ⟨?_, ?_, ?_, by omega, by omega⟩
  · rw [drop, reg_setReg, if_neg (by decide)]
  · rw [drop, reg_setReg, if_neg (by decide)]
  · intro x hx hlt
    exact load_setReg ⟨hx, by omega⟩ _ _

include hbound

/-- A word is stored above the bound. -/
theorem Tidy.store {ram' : Ram} (h : Tidy bound ram ram') {a : Word} (ha : bound ≤ a.toNat)
    (hroom : a.toNat < ramSize) (value : Word) : Tidy bound ram (ram'.store a value) := by
  have hplain : Plain a := ⟨Nat.le_trans hbound ha, hroom⟩
  refine ⟨?_, ?_, ?_, ?_, ?_⟩
  · rw [reg_store hplain, h.lcl]
  · rw [reg_store hplain, h.arg]
  · intro x hx hlt
    have hne : cell a ≠ cell x := by
      refine cell_ne_of_lt hroom (by omega) ?_
      intro heq
      rw [heq] at ha
      omega
    rw [load_store_of_ne _ hne, h.load x hx hlt]
  · rw [reg_store hplain]
    exact h.low
  · rw [reg_store hplain]
    exact h.high

omit hbound in
/-- A register changes that is neither the stack pointer nor a base. -/
theorem Tidy.setReg {ram' : Ram} (h : Tidy bound ram ram') {r : Register} (hsp : r ≠ .sp)
    (hlcl : r ≠ .lcl) (harg : r ≠ .arg) (value : Word) :
    Tidy bound ram (ram'.setReg r value) := by
  have hlow := h.low
  have hhigh := h.high
  refine ⟨?_, ?_, ?_, ?_, ?_⟩
  · rw [reg_setReg, if_neg hlcl, h.lcl]
  · rw [reg_setReg, if_neg harg, h.arg]
  · intro x hx hlt
    rw [load_setReg ⟨hx, by omega⟩, h.load x hx hlt]
  · rw [reg_setReg, if_neg hsp]
    exact hlow
  · rw [reg_setReg, if_neg hsp]
    exact hhigh

/-- Words are pushed. -/
theorem tidy_pushAll {values : List Word} (hlow : bound ≤ (ram.reg .sp).toNat)
    (hroom : (ram.reg .sp).toNat + values.length ≤ ramSize) :
    Tidy bound ram (pushAll values ram) := by
  have hsp := toNat_sp_pushAll (Nat.le_trans hbound hlow) hroom
  exact ⟨reg_pushAll (by omega) hroom (by decide), reg_pushAll (by omega) hroom (by decide),
    fun x hx hlt => load_pushAll_of_lt (by omega) hroom hx (by omega), by omega, by omega⟩

/-- A function starts. -/
theorem tidy_zeroLocals {locals : Word} (hlow : bound ≤ (ram.reg .sp).toNat)
    (hroom : (ram.reg .sp).toNat + locals.toNat ≤ ramSize) :
    Tidy bound ram (ram.zeroLocals locals) := by
  by_cases hzero : locals = 0
  · rw [zeroLocals, if_pos hzero]
    exact tidy_refl hlow (by omega)
  · have hlength : (List.replicate locals.toNat (0 : Word)).length = locals.toNat :=
      List.length_replicate
    have hpushed := tidy_pushAll hbound hlow (hlength.symm ▸ hroom)
    -- Behind the registers no zero lands on the count in R13.
    rw [zeroLocals, if_neg hzero, pushZeros_eq (by omega) hroom]
    exact hpushed.setReg (by decide) (by decide) (by decide) 0

/-- A command with one operand. -/
theorem tidy_unary {f : Word → Word} (hlow : bound + 1 ≤ (ram.reg .sp).toNat)
    (hhigh : (ram.reg .sp).toNat ≤ ramSize) : Tidy bound ram (unary f ram) := by
  have hslot : (ram.reg .sp - 1).toNat = (ram.reg .sp).toNat - 1 := toNat_sub_one (by omega)
  exact (tidy_refl (by omega) hhigh).store hbound (by omega) (by omega) _

/-- A command with two operands, whatever it leaves in their place. -/
theorem tidy_binary (hlow : bound + 2 ≤ (ram.reg .sp).toNat)
    (hhigh : (ram.reg .sp).toNat ≤ ramSize) (value : Word) :
    Tidy bound ram (ram.drop.store (ram.drop.reg .sp - 1) value) := by
  have hdrop : Tidy bound ram ram.drop := tidy_drop (by omega) hhigh
  have hslot : (ram.drop.reg .sp - 1).toNat = (ram.reg .sp).toNat - 2 :=
    toNat_sp_drop_sub_one (by omega)
  exact hdrop.store hbound (by omega) (by omega) value

/-- A comparison. Its result does not land on the stack pointer. -/
theorem tidy_compare {test : Word → Bool} (hlow : bound + 2 ≤ (ram.reg .sp).toNat)
    (hhigh : (ram.reg .sp).toNat ≤ ramSize) : Tidy bound ram (compare test ram) := by
  have hslot : (ram.drop.reg .sp - 1).toNat = (ram.reg .sp).toNat - 2 :=
    toNat_sp_drop_sub_one (by omega)
  have hplain : Plain (ram.drop.reg .sp - 1) := ⟨by omega, by omega⟩
  rw [compare, if_neg (hplain.cell_ne .sp)]
  split
  · exact tidy_binary hbound hlow hhigh _
  · exact tidy_binary hbound hlow hhigh _

end

/-! ### Returning -/

/-- Restoring a register, with the frame's address in `R14`. -/
theorem restore_eq {top : Word} (h : ram.reg .r14 = top) (r : Register) (distance : Word) :
    ram.restore r distance = ram.setReg r (ram.load (top - distance)) := by
  rw [restore, h]

/-- Popping through a plain cell of the stack. -/
theorem popTo_eq (h : Plain (ram.reg .sp - 1)) (address : Word) :
    ram.popTo address
      = ((ram.setReg .r13 address).setReg .sp (ram.reg .sp - 1)).store address
          (ram.load (ram.reg .sp - 1)) := by
  have hsp : (ram.setReg .r13 address).reg .sp = ram.reg .sp := by
    rw [reg_setReg, if_neg (by decide)]
  rw [popTo, top, drop, hsp, reg_setReg, if_pos rfl, load_setReg h, load_setReg h]

/-- The memory that a return has when the result is stored and the
registers are not yet restored. -/
def returning (ram : Ram) (frame : Word) : Ram :=
  (((((ram.setReg .r14 (frame + 5)).setReg .r15 (ram.load frame)).setReg .r13
    (ram.reg .arg)).setReg .sp (ram.reg .sp - 1)).store (ram.reg .arg)
      (ram.load (ram.reg .sp - 1))).setReg .sp (ram.reg .arg + 1)

section
variable {frame : Word} (hlcl : ram.reg .lcl = frame + 5) (hframe : 16 ≤ frame.toNat)
  (hroom : frame.toNat + 5 ≤ ramSize) (harg : 16 ≤ (ram.reg .arg).toNat)
  (hle : (ram.reg .arg).toNat ≤ frame.toNat) (hsp : Plain (ram.reg .sp - 1))

/-- A word of the frame has a plain address. -/
theorem plain_frame (hframe : 16 ≤ frame.toNat) (hroom : frame.toNat + 5 ≤ ramSize) {i : Nat}
    (hi : i < 5) : Plain (frame + i.toUInt16) := by
  have hsize : ramSize = 32768 := rfl
  have hadd : (frame + i.toUInt16).toNat = frame.toNat + i := toNat_add_toUInt16 (by omega)
  exact ⟨by omega, by omega⟩

/-- A memory from which the frame can still be read through `R14`. The
return address is not asked for: the result may have replaced it. -/
structure Unwinds (ram' ram : Ram) (frame : Word) : Prop where
  top : ram'.reg .r14 = frame + 5
  saved : ∀ i : Nat, 0 < i → i < 5 →
    ram'.load (frame + i.toUInt16) = ram.load (frame + i.toUInt16)

/-- Restoring takes the word out of the frame. -/
theorem Unwinds.restore {ram' : Ram} (h : Unwinds ram' ram frame) (r : Register)
    (distance : Word) (i : Nat) (hpos : 0 < i) (hi : i < 5)
    (hdistance : frame + 5 - distance = frame + i.toUInt16) :
    ram'.restore r distance = ram'.setReg r (ram.load (frame + i.toUInt16)) := by
  rw [restore_eq h.top, hdistance, h.saved i hpos hi]

include hframe hroom

/-- Restoring a register leaves the frame readable. -/
theorem Unwinds.setReg {ram' : Ram} (h : Unwinds ram' ram frame) {r : Register}
    (hr : r ≠ .r14) (value : Word) : Unwinds (ram'.setReg r value) ram frame where
  top := by rw [reg_setReg, if_neg hr, h.top]
  saved i hpos hi := by rw [load_setReg (plain_frame hframe hroom hi), h.saved i hpos hi]

include hle in
/-- The result goes to no word of the frame but the first. -/
theorem unwinds_returning (hplain : Plain (ram.reg .arg)) :
    Unwinds (ram.returning frame) ram frame where
  top := by
    rw [returning, reg_setReg, if_neg (by decide), reg_store hplain]
    simp [reg_setReg]
  saved i hpos hi := by
    have hsize : ramSize = 32768 := rfl
    have hadd : (frame + i.toUInt16).toNat = frame.toNat + i := toNat_add_toUInt16 (by omega)
    have hword := plain_frame hframe hroom hi
    -- Without arguments the result goes to the first word, which is the return address.
    have hne : cell (ram.reg .arg) ≠ cell (frame + i.toUInt16) := by
      refine cell_ne_of_lt hplain.2 hword.2 ?_
      intro heq
      rw [heq] at hle
      omega
    rw [returning, load_setReg hword, load_store_of_ne _ hne, load_setReg hword,
      load_setReg hword, load_setReg hword, load_setReg hword]

include hlcl harg hle hsp

/-- Up to the registers, a return ends in `returning`. -/
theorem ret_eq_restore :
    ram.ret = ((((ram.returning frame).restore .that 1).restore .this 2).restore .arg 3).restore
      .lcl 4 := by
  have hplain : Plain (ram.reg .arg) := ⟨harg, by omega⟩
  have hback : frame + 5 - 5 = frame := UInt16.add_sub_cancel frame 5
  have hfirst : (ram.setReg .r14 (ram.reg .lcl)).restore .r15 5
      = (ram.setReg .r14 (frame + 5)).setReg .r15 (ram.load frame) := by
    rw [restore_eq (by rw [reg_setReg, if_pos rfl]), hlcl, hback,
      load_setReg ⟨hframe, by omega⟩]
  have hkept : ∀ r : Register, r ≠ .r14 → r ≠ .r15 →
      ((ram.setReg .r14 (frame + 5)).setReg .r15 (ram.load frame)).reg r = ram.reg r := by
    intro r h14 h15
    rw [reg_setReg, if_neg h15.symm, reg_setReg, if_neg h14.symm]
  have hsp' := hkept .sp (by decide) (by decide)
  have harg' := hkept .arg (by decide) (by decide)
  have hresult : ((ram.setReg .r14 (frame + 5)).setReg .r15 (ram.load frame)).popTo (ram.reg .arg)
      = ((((ram.setReg .r14 (frame + 5)).setReg .r15 (ram.load frame)).setReg .r13
        (ram.reg .arg)).setReg .sp (ram.reg .sp - 1)).store (ram.reg .arg)
          (ram.load (ram.reg .sp - 1)) := by
    rw [popTo_eq (by rw [hsp']; exact hsp), hsp', load_setReg hsp, load_setReg hsp]
  rw [ret, hfirst, harg', hresult, reg_store hplain, reg_setReg, if_neg (by decide), reg_setReg,
    if_neg (by decide), harg']
  rfl

/-- **A return restores the registers from the frame.** -/
theorem ret_eq :
    ram.ret = ((((ram.returning frame).setReg .that (ram.load (frame + 4))).setReg .this
      (ram.load (frame + 3))).setReg .arg (ram.load (frame + 2))).setReg .lcl
        (ram.load (frame + 1)) := by
  -- Before each restore the rest of the frame can still be read.
  have hthat := unwinds_returning hframe hroom hle ⟨harg, by omega⟩
  have hthis := hthat.setReg hframe hroom (r := .that) (by decide)
    (ram.load (frame + (4 : Nat).toUInt16))
  have harg' := hthis.setReg hframe hroom (r := .this) (by decide)
    (ram.load (frame + (3 : Nat).toUInt16))
  have hlcl' := harg'.setReg hframe hroom (r := .arg) (by decide)
    (ram.load (frame + (2 : Nat).toUInt16))
  rw [ret_eq_restore hlcl hframe hroom harg hle hsp,
    hthat.restore .that 1 4 (by decide) (by decide) (by grind),
    hthis.restore .this 2 3 (by decide) (by decide) (by grind),
    harg'.restore .arg 3 2 (by decide) (by decide) (by grind),
    hlcl'.restore .lcl 4 1 (by decide) (by decide) (by grind)]
  rfl

/-- The registers after a return. -/
theorem reg_ret :
    ram.ret.reg .r15 = ram.load frame ∧ ram.ret.reg .lcl = ram.load (frame + 1) ∧
    ram.ret.reg .arg = ram.load (frame + 2) ∧ ram.ret.reg .this = ram.load (frame + 3) ∧
    ram.ret.reg .that = ram.load (frame + 4) ∧ ram.ret.reg .sp = ram.reg .arg + 1 := by
  have hplain : Plain (ram.reg .arg) := ⟨harg, by omega⟩
  rw [ret_eq hlcl hframe hroom harg hle hsp]
  simp [returning, reg_setReg, reg_store hplain]

/-- Behind the registers a return stores its result and nothing else. -/
theorem load_ret {x : Word} (hx : Plain x) :
    ram.ret.load x = if ram.reg .arg = x then ram.load (ram.reg .sp - 1) else ram.load x := by
  have hplain : Plain (ram.reg .arg) := ⟨harg, by omega⟩
  rw [ret_eq hlcl hframe hroom harg hle hsp]
  simp only [returning, load_setReg hx, load_store]
  by_cases heq : ram.reg .arg = x
  · rw [if_pos heq, if_pos (congrArg cell heq)]
  · rw [if_neg heq, if_neg (cell_ne_of_lt hplain.2 hx.2 heq)]

end

end Ram

end HackComputer.Machine
