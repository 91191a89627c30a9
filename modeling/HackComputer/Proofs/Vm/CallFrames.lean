import HackComputer.Proofs.Vm.Simulation
import HackComputer.Proofs.Vm.StackEffects

/-!
# `HackComputer.Proofs.Vm.CallFrames`: every return finds its caller

A call leaves what the return needs in data memory, where the commands of
the function that is called could overwrite it. This file says when they
do not, for calls that are nested to any depth.

`Activation` records what a call knew. `StackMachine.track` runs the
stack machine and keeps the list of the activations that are live, the
latest one first. The commands themselves know nothing of the list.

`StackMachine.isTidy` is what a program has to keep to: its commands take
their operands from the stack of the function that they are in, its pops
spare the frames, and the stack does not run out of memory. Then the
whole chain of frames is found in memory between any two commands
(`Framed`, kept by every step in `framed_step`), and each return takes
the machine back to where the call was (`return_restores_caller`).

One thing has to be asked beyond that. When the function that the start
of the machine called has returned, no activation is live, `LCL` is what
it was at power-on, and nothing keeps the stack away from the registers.
A call from there has to have its arguments behind them. Without that the
frame can lie on the scratch registers of the return itself
(`frame_on_scratch_registers_lost`).
-/

set_option autoImplicit false

namespace HackComputer.Vm

open Isa Machine Assembly Code

/-- What a call knew. -/
structure Activation where
  /-- Where the call continues. -/
  returnAddress : Word
  /-- The cell of argument 0, which receives the result. -/
  base : Word
  /-- The first of the five saved cells. -/
  frame : Word
  lcl : Word
  arg : Word
  this : Word
  that : Word
  deriving DecidableEq, Repr

namespace Activation

/-- The activation of a call, with memory as it is right before. -/
def ofCall (ram : Ram) (arguments returnAddress : Word) : Activation where
  returnAddress := returnAddress
  base := ram.reg .sp - arguments
  frame := ram.reg .sp
  lcl := ram.reg .lcl
  arg := ram.reg .arg
  this := ram.reg .this
  that := ram.reg .that

/-- The cell is one of the five saved ones. -/
def holds (a : Activation) (i : Nat) : Bool :=
  a.frame.toNat ≤ i && i < a.frame.toNat + 5

/-- The five saved words, from the first cell on. -/
def saved (a : Activation) : List Word :=
  [a.returnAddress, a.lcl, a.arg, a.this, a.that]

end Activation

/-- The number of words that a command takes from the stack. -/
def Command.operands : Command → Nat
  | .arithmetic .neg | .arithmetic .not | .pop _ _ | .ifGoto _ | .ret => 1
  | .arithmetic _ => 2
  | .call _ arguments => arguments.toNat
  | .push _ _ | .label _ | .goto _ | .function _ _ => 0

/-- The number of words that a command pushes. -/
def Command.pushes : Command → Nat
  | .push _ _ => 1
  | .function _ locals => locals.toNat
  | .call _ _ => 5
  | _ => 0

namespace StackMachine

variable (m : StackMachine)

/-- The live activations after a step. The start of the machine sets up
an empty stack, so nothing older is live after it. -/
def activations (c : Config) (live : List Activation) : List Activation :=
  match m.origins[c.entry]? with
  | some (.start _) =>
      [.ofCall (c.ram.setReg .sp 256) 0 (m.address (c.entry + 1)).toUInt16]
  | some (.line _ ⟨_, _, .call _ arguments⟩) =>
      .ofCall c.ram arguments (m.address (c.entry + 1)).toUInt16 :: live
  | some (.line _ ⟨_, _, .ret⟩) => live.tail
  | _ => live

/-- Exactly `n` steps, together with the live activations. -/
def track : Nat → Config → List Activation → Option (Config × List Activation)
  | 0, c, live => some (c, live)
  | n + 1, c, live => (m.step c).bind fun c' => track n c' (m.activations c live)

/-- A call has its arguments above `LCL`, and at `floor` or above while
no activation is live. -/
def callFits (floor : Nat) (ram : Ram) (live : List Activation) : Command → Bool
  | .call _ arguments =>
      (ram.reg .lcl).toNat + arguments.toNat ≤ (ram.reg .sp).toNat
        && (!live.isEmpty || floor + arguments.toNat ≤ (ram.reg .sp).toNat)
  | _ => true

/-- A pop stores into none of `SP`, `LCL` and `ARG` and into no saved
cell. -/
def spares (unit : String) (ram : Ram) (live : List Activation) : Command → Bool
  | .pop segment index =>
      (m.cell? unit ram segment index).all fun place =>
        2 < (cell place).val && live.all fun a => !a.holds (cell place).val
  | _ => true

/-- The next command keeps to its part of memory: its operands are above
`LCL`, what it pushes is inside memory, and it spares the frames. -/
def isTidy (floor : Nat) (c : Config) (live : List Activation) : Bool :=
  match m.origins[c.entry]? with
  | some (.line context ⟨_, _, command⟩) =>
      (command.operands == 0
          || (c.ram.reg .lcl).toNat + command.operands ≤ (c.ram.reg .sp).toNat)
        && (c.ram.reg .sp).toNat + command.pushes ≤ ramSize
        && callFits floor c.ram live command && m.spares context.unit c.ram live command
  | _ => true

/-- All commands up to the one after `n` steps are tidy, that one
included. -/
def staysTidy (floor : Nat) : Nat → Config → List Activation → Bool
  | 0, c, live => m.isTidy floor c live
  | n + 1, c, live => m.isTidy floor c live
      && (m.step c).all fun c' => staysTidy floor n c' (m.activations c live)

/-- What a tidy command keeps to. -/
theorem isTidy_line {floor : Nat} {c : Config} {live : List Activation} {context : Context}
    {row : Nat} {text : String} {command : Command} (h : m.isTidy floor c live = true)
    (ho : m.origins[c.entry]? = some (.line context ⟨row, text, command⟩)) :
    (command.operands = 0 ∨
      (c.ram.reg .lcl).toNat + command.operands ≤ (c.ram.reg .sp).toNat) ∧
    (c.ram.reg .sp).toNat + command.pushes ≤ ramSize ∧
    callFits floor c.ram live command = true ∧ m.spares context.unit c.ram live command = true := by
  simp only [isTidy, ho, Bool.and_eq_true, Bool.or_eq_true, beq_iff_eq, decide_eq_true_eq] at h
  obtain ⟨⟨⟨hoperands, hroom⟩, hcall⟩, hspares⟩ := h
  exact ⟨hoperands, hroom, hcall, hspares⟩

end StackMachine

/-! ### The chain of frames -/

/-- The frame is behind the registers and inside memory, and the
arguments are below it. -/
structure Activation.Sound (a : Activation) : Prop where
  low : 16 ≤ a.base.toNat
  base_le : a.base.toNat ≤ a.frame.toNat
  room : a.frame.toNat + 5 ≤ ramSize

/-- The live activations lie one above the other, and each one knows the
bases of the one before. -/
def Nested : List Activation → Prop
  | [] => True
  | a :: live =>
      a.Sound ∧ (∀ b ∈ live.head?, a.lcl = b.frame + 5 ∧ a.arg = b.base ∧
        b.frame.toNat + 5 ≤ a.base.toNat) ∧ Nested live

/-- Older frames are below the arguments of younger ones. -/
theorem Nested.below {a : Activation} {live : List Activation} (h : Nested (a :: live)) :
    ∀ b ∈ live, b.Sound ∧ b.frame.toNat + 5 ≤ a.base.toNat := by
  induction live generalizing a with
  | nil => intro b hb; cases hb
  | cons d live ih =>
      obtain ⟨-, hhead, hrest⟩ := h
      obtain ⟨-, -, hd⟩ := hhead d rfl
      have hsound := hrest.1
      intro b hb
      rcases List.mem_cons.mp hb with rfl | hb
      · exact ⟨hsound, hd⟩
      · obtain ⟨hb', hbelow⟩ := ih hrest b hb
        exact ⟨hb', by have := hsound.base_le; omega⟩

/-- The live activations are found in memory: the bases are those of the
latest one, and all saved cells hold what was saved. -/
structure Framed (m : StackMachine) (ram : Ram) (a : Activation) (live : List Activation) :
    Prop where
  lcl : ram.reg .lcl = a.frame + 5
  arg : ram.reg .arg = a.base
  low : a.frame.toNat + 5 ≤ (ram.reg .sp).toNat
  high : (ram.reg .sp).toNat ≤ ramSize
  nested : Nested (a :: live)
  saved : ∀ b ∈ a :: live, ∀ (i : Nat) w, b.saved[i]? = some w →
    ram.load (b.frame + i.toUInt16) = w
  returns : ∀ b ∈ a :: live, ∃ i ≤ m.origins.length, b.returnAddress = (m.address i).toUInt16

namespace Framed

variable {m : StackMachine} {ram ram' : Ram} {a : Activation} {live : List Activation}

/-- The frame of every live activation is behind the registers, and at
or below that of the latest one. -/
theorem frame_le (h : Framed m ram a live) {b : Activation} (hb : b ∈ a :: live) :
    16 ≤ b.frame.toNat ∧ b.frame.toNat ≤ a.frame.toNat ∧ b.frame.toNat + 5 ≤ ramSize := by
  have ha := h.nested.1
  have hlow := ha.low
  have hle := ha.base_le
  rcases List.mem_cons.mp hb with rfl | hb
  · exact ⟨by omega, Nat.le_refl _, ha.room⟩
  · obtain ⟨hsound, hbelow⟩ := h.nested.below b hb
    have hlow' := hsound.low
    have hle' := hsound.base_le
    exact ⟨by omega, by omega, hsound.room⟩

/-- The saved cells of a live activation, as numbers. -/
theorem toNat_slot (h : Framed m ram a live) {b : Activation} (hb : b ∈ a :: live) {i : Nat}
    {w : Word} (hw : b.saved[i]? = some w) :
    i < 5 ∧ (b.frame + i.toUInt16).toNat = b.frame.toNat + i := by
  have hsize : ramSize = 32768 := rfl
  have hi : i < 5 := (List.getElem?_eq_some_iff.mp hw).1
  obtain ⟨-, -, hroom⟩ := h.frame_le hb
  exact ⟨hi, toNat_add_toUInt16 (by omega)⟩

/-- A change that spares the bases and the saved cells. -/
theorem of_spared (h : Framed m ram a live) (hlcl : ram'.reg .lcl = ram.reg .lcl)
    (harg : ram'.reg .arg = ram.reg .arg) (hlow : a.frame.toNat + 5 ≤ (ram'.reg .sp).toNat)
    (hhigh : (ram'.reg .sp).toNat ≤ ramSize)
    (hspared : ∀ b ∈ a :: live, ∀ x : Word, b.holds x.toNat = true → Plain x →
      ram'.load x = ram.load x) : Framed m ram' a live := by
  refine ⟨hlcl.trans h.lcl, harg.trans h.arg, hlow, hhigh, h.nested, ?_, h.returns⟩
  intro b hb i w hw
  obtain ⟨hi, hslot⟩ := h.toNat_slot hb hw
  obtain ⟨hbase, -, hroom⟩ := h.frame_le hb
  have hholds : b.holds (b.frame + i.toUInt16).toNat = true := by
    simp only [Activation.holds, Bool.and_eq_true, decide_eq_true_eq]
    omega
  rw [hspared b hb _ hholds (Ram.plain_frame hbase hroom hi), h.saved b hb i w hw]

/-- A command that stays above the latest frame. -/
theorem of_tidy (h : Framed m ram a live) (ht : Ram.Tidy (a.frame.toNat + 5) ram ram') :
    Framed m ram' a live := by
  refine h.of_spared ht.lcl ht.arg ht.low ht.high ?_
  intro b hb x hx hplain
  obtain ⟨-, hle, -⟩ := h.frame_le hb
  simp only [Activation.holds, Bool.and_eq_true, decide_eq_true_eq] at hx
  exact ht.load x hplain.1 (by omega)

/-- A pop that spares the frames. -/
theorem popTo (h : Framed m ram a live) (hoperand : a.frame.toNat + 6 ≤ (ram.reg .sp).toNat)
    {place : Word} (hplace : 2 < (cell place).val)
    (hspares : ∀ b ∈ a :: live, b.holds (cell place).val = false) :
    Framed m (ram.popTo place) a live := by
  have hhigh := h.high
  have htop : (ram.reg .sp - 1).toNat = (ram.reg .sp).toNat - 1 := toNat_sub_one (by omega)
  have hlow : 16 ≤ a.frame.toNat := (h.frame_le List.mem_cons_self).1
  have hplain : Plain (ram.reg .sp - 1) := ⟨by omega, by omega⟩
  -- The cell is none of the three registers that the chain hangs on.
  have hreg : ∀ r : Register, r.address.toNat ≤ 2 → ∀ (y : Ram) value,
      (y.store place value).reg r = y.reg r := by
    intro r hr y value
    refine Ram.load_store_of_ne y ?_ value
    intro heq
    have hval : (cell r.address).val = r.address.toNat := by cases r <;> decide
    rw [heq, hval] at hplace
    omega
  rw [Ram.popTo_eq hplain]
  refine h.of_spared ?_ ?_ ?_ ?_ ?_
  · rw [hreg .lcl (by decide)]
    simp [Ram.reg_setReg]
  · rw [hreg .arg (by decide)]
    simp [Ram.reg_setReg]
  · rw [hreg .sp (by decide), Ram.reg_setReg, if_pos rfl, htop]
    omega
  · rw [hreg .sp (by decide), Ram.reg_setReg, if_pos rfl, htop]
    omega
  · intro b hb x hx hx'
    have hne : cell place ≠ cell x := by
      intro heq
      have hval : (cell x).val = x.toNat := Nat.mod_eq_of_lt hx'.2
      have hfree := hspares b hb
      rw [heq, hval, hx] at hfree
      cases hfree
    rw [Ram.load_store_of_ne _ hne, Ram.load_setReg hx', Ram.load_setReg hx']

/-- A return takes everything out of the frame that the call put in, and
leaves the word on top of the stack as its result. -/
theorem returned (h : Framed m ram a live)
    (hoperand : a.frame.toNat + 6 ≤ (ram.reg .sp).toNat) :
    ram.ret.reg .r15 = a.returnAddress ∧ ram.ret.reg .lcl = a.lcl ∧ ram.ret.reg .arg = a.arg ∧
    ram.ret.reg .this = a.this ∧ ram.ret.reg .that = a.that ∧
    ram.ret.reg .sp = a.base + 1 ∧
    ∀ x, Plain x → ram.ret.load x
      = if a.base = x then ram.load (ram.reg .sp - 1) else ram.load x := by
  obtain ⟨hframe, -, hroom⟩ := h.frame_le List.mem_cons_self
  obtain ⟨hlow, hle, -⟩ := h.nested.1
  have hhigh := h.high
  have htop : (ram.reg .sp - 1).toNat = (ram.reg .sp).toNat - 1 := toNat_sub_one (by omega)
  have hplain : Plain (ram.reg .sp - 1) := ⟨by omega, by omega⟩
  rw [← h.arg] at hlow hle
  have hsaved := h.saved a List.mem_cons_self
  obtain ⟨hr15, hlcl, harg, hthis, hthat, hsp⟩ :=
    Ram.reg_ret h.lcl hframe hroom hlow hle hplain
  refine ⟨?_, hlcl.trans (hsaved 1 a.lcl rfl), harg.trans (hsaved 2 a.arg rfl),
    hthis.trans (hsaved 3 a.this rfl), hthat.trans (hsaved 4 a.that rfl), h.arg ▸ hsp, ?_⟩
  · rw [hr15, ← hsaved 0 a.returnAddress rfl]
    exact congrArg ram.load (UInt16.add_zero _).symm
  · intro x hx
    rw [Ram.load_ret h.lcl hframe hroom hlow hle hplain hx, h.arg]

/-- After a return the activation before is the latest one. Its frame is
below the cell of the result. -/
theorem ret {b : Activation} (h : Framed m ram a (b :: live))
    (hoperand : a.frame.toNat + 6 ≤ (ram.reg .sp).toNat) : Framed m ram.ret b live := by
  obtain ⟨-, hlcl, harg, -, -, hsp, hload⟩ := h.returned hoperand
  obtain ⟨hsound, hhead, hnested⟩ := h.nested
  obtain ⟨hblcl, hbarg, hbelow⟩ := hhead b rfl
  have hsize : ramSize = 32768 := rfl
  have hle := hsound.base_le
  have hroom := hsound.room
  have hsp' : (ram.ret.reg .sp).toNat = a.base.toNat + 1 := by
    rw [hsp]
    exact toNat_add_toUInt16 (i := 1) (by omega)
  refine ⟨hlcl.trans hblcl, harg.trans hbarg, by omega, by omega, hnested, ?_, ?_⟩
  · intro d hd i w hw
    have hd' : d ∈ a :: b :: live := List.mem_cons_of_mem a hd
    obtain ⟨hi, hslot⟩ := h.toNat_slot hd' hw
    obtain ⟨hframe, -, hdroom⟩ := h.frame_le hd'
    obtain ⟨-, hdbelow⟩ := h.nested.below d hd
    have hne : a.base ≠ d.frame + i.toUInt16 := by
      intro heq
      have := congrArg UInt16.toNat heq
      omega
    rw [hload _ (Ram.plain_frame hframe hdroom hi), if_neg hne, h.saved d hd' i w hw]
  · exact fun d hd => h.returns d (List.mem_cons_of_mem a hd)

end Framed

/-- The invariant: if an activation is live, the chain is in memory. -/
def FramedAll (m : StackMachine) (ram : Ram) : List Activation → Prop
  | [] => True
  | a :: live => Framed m ram a live

/-- The activation of a call lies above the live ones. -/
theorem nested_call {m : StackMachine} {ram : Ram} {live : List Activation}
    {arguments returnAddress : Word} (hlive : FramedAll m ram live)
    (hroom : (ram.reg .sp).toNat + 5 ≤ ramSize)
    (hlow : 16 + arguments.toNat ≤ (ram.reg .sp).toNat)
    (habove : ∀ b ∈ live.head?, b.frame.toNat + 5 + arguments.toNat ≤ (ram.reg .sp).toNat) :
    Nested (.ofCall ram arguments returnAddress :: live) := by
  have hbase : (Activation.ofCall ram arguments returnAddress).base.toNat
      = (ram.reg .sp).toNat - arguments.toNat :=
    UInt16.toNat_sub_of_le _ _ (UInt16.le_iff_toNat_le.mpr (by omega))
  refine ⟨⟨?_, ?_, hroom⟩, ?_, ?_⟩
  · omega
  · rw [hbase]
    exact Nat.sub_le _ _
  · -- `LCL` and `ARG` are still the bases of the latest activation.
    intro b hb
    obtain ⟨older, rfl⟩ := List.head?_eq_some_iff.mp hb
    have hb' : Framed m ram b older := hlive
    have hbelow := habove b hb
    exact ⟨hb'.lcl, hb'.arg, by omega⟩
  · cases live with
    | nil => trivial
    | cons b older => exact Framed.nested hlive

/-- A call fills the cells of its own frame and keeps those of the live
ones, which are below the stack pointer. -/
theorem saved_call {m : StackMachine} {ram : Ram} {live : List Activation}
    {arguments returnAddress : Word} (hlive : FramedAll m ram live)
    (hroom : (ram.reg .sp).toNat + 5 ≤ ramSize) (hlow : 16 ≤ (ram.reg .sp).toNat) :
    ∀ b ∈ .ofCall ram arguments returnAddress :: live, ∀ (i : Nat) w, b.saved[i]? = some w →
      (ram.call arguments returnAddress).load (b.frame + i.toUInt16) = w := by
  generalize hnew : Activation.ofCall ram arguments returnAddress = new
  have hframe : new.frame = ram.reg .sp := by rw [← hnew]; rfl
  have hfits : (ram.reg .sp).toNat + new.saved.length ≤ ramSize := hroom
  have hload : ∀ x, Plain x →
      (ram.call arguments returnAddress).load x = (Ram.pushAll new.saved ram).load x := by
    intro x hx
    rw [Ram.call_eq arguments returnAddress hlow hroom, Ram.load_setReg hx, Ram.load_setReg hx,
      ← hnew]
    rfl
  intro b hb i w hw
  rcases List.mem_cons.mp hb with rfl | hb
  · have hi : i < 5 := (List.getElem?_eq_some_iff.mp hw).1
    rw [hframe, hload _ (Ram.plain_frame hlow hroom hi)]
    exact Ram.load_pushAll hlow hfits hw
  · obtain ⟨a, older, rfl⟩ := List.exists_cons_of_ne_nil (List.ne_nil_of_mem hb)
    have ha : Framed m ram a older := hlive
    have hbelow := ha.low
    obtain ⟨hi, hslot⟩ := ha.toNat_slot hb hw
    obtain ⟨hbframe, hble, hbroom⟩ := ha.frame_le hb
    rw [hload _ (Ram.plain_frame hbframe hbroom hi),
      Ram.load_pushAll_of_lt hlow hfits (by omega) (by omega), ha.saved b hb i w hw]

/-- A call puts its activation in front. Its arguments have to be behind
the registers and above the frame of the latest activation. -/
theorem framed_call {m : StackMachine} {ram : Ram} (live : List Activation)
    {arguments returnAddress : Word} (hlive : FramedAll m ram live)
    (hroom : (ram.reg .sp).toNat + 5 ≤ ramSize)
    (hreturn : ∃ i ≤ m.origins.length, returnAddress = (m.address i).toUInt16)
    (hlow : 16 + arguments.toNat ≤ (ram.reg .sp).toNat)
    (habove : ∀ b ∈ live.head?, b.frame.toNat + 5 + arguments.toNat ≤ (ram.reg .sp).toNat) :
    Framed m (ram.call arguments returnAddress) (.ofCall ram arguments returnAddress) live := by
  have hlow' : 16 ≤ (ram.reg .sp).toNat := by omega
  have hcall := Ram.call_eq arguments returnAddress hlow' hroom
  have hsp : ((ram.call arguments returnAddress).reg .sp).toNat = (ram.reg .sp).toNat + 5 := by
    rw [hcall, Ram.reg_setReg, if_neg (by decide), Ram.reg_setReg, if_neg (by decide)]
    exact Ram.toNat_sp_pushAll hlow' hroom
  refine ⟨?_, ?_, Nat.le_of_eq hsp.symm, hsp ▸ hroom, nested_call hlive hroom hlow habove,
    saved_call hlive hroom hlow', ?_⟩
  · rw [hcall, Ram.reg_setReg, if_pos rfl]
    rfl
  · rw [hcall, Ram.reg_setReg, if_neg (by decide), Ram.reg_setReg, if_pos rfl]
    rfl
  · intro b hb
    rcases List.mem_cons.mp hb with rfl | hb
    · exact hreturn
    · obtain ⟨a, older, rfl⟩ := List.exists_cons_of_ne_nil (List.ne_nil_of_mem hb)
      exact Framed.returns hlive b hb

/-! ### One command -/

/-- The base of the local variables, as a number. -/
theorem Framed.toNat_lcl {m : StackMachine} {ram : Ram} {a : Activation} {live : List Activation}
    (h : Framed m ram a live) : (ram.reg .lcl).toNat = a.frame.toNat + 5 := by
  have hsize : ramSize = 32768 := rfl
  have hroom := h.nested.1.room
  rw [h.lcl]
  exact toNat_add_toUInt16 (i := 5) (by omega)

/-- An arithmetic command stays above the latest frame. -/
theorem tidy_arithmetic {op : Arithmetic} {ram : Ram} {bound : Nat} (hbound : 16 ≤ bound)
    (hlow : bound + (Command.arithmetic op).operands ≤ (ram.reg .sp).toNat)
    (hhigh : (ram.reg .sp).toNat ≤ ramSize) : Ram.Tidy bound ram (op.act ram) := by
  cases op with
  | neg | not => exact Ram.tidy_unary hbound hlow hhigh
  | add | sub | and | or => exact Ram.tidy_binary hbound hlow hhigh _
  | eq | gt | lt =>
      rw [Arithmetic.act]
      exact Ram.tidy_compare hbound hlow hhigh

/-- A command that neither calls nor returns keeps the chain. -/
theorem framed_execute {m : StackMachine} {c c' : StackMachine.Config} {a : Activation}
    {live : List Activation} {context : Context} {command : Command}
    (h : Framed m c.ram a live)
    (hoperands : command.operands = 0 ∨
      (c.ram.reg .lcl).toNat + command.operands ≤ (c.ram.reg .sp).toNat)
    (hroom : (c.ram.reg .sp).toNat + command.pushes ≤ ramSize)
    (hspares : m.spares context.unit c.ram (a :: live) command = true)
    (hcall : ∀ name arguments, command ≠ .call name arguments) (hret : command ≠ .ret)
    (hexecute : m.execute context command c = some c') : Framed m c'.ram a live := by
  have hlow := h.low
  have hhigh := h.high
  have hframe : 16 ≤ a.frame.toNat + 5 := by have := (h.frame_le List.mem_cons_self).1; omega
  rw [h.toNat_lcl] at hoperands
  cases command with
  | arithmetic op =>
      cases hexecute
      have hsome : (Command.arithmetic op).operands ≠ 0 := by cases op <;> decide
      exact h.of_tidy (tidy_arithmetic hframe (hoperands.resolve_left hsome) hhigh)
  | push segment index =>
      cases hexecute
      have hpushed : Ram.Tidy (a.frame.toNat + 5) c.ram
          (Ram.pushAll [m.value context.unit c.ram segment index] c.ram) :=
        Ram.tidy_pushAll hframe hlow hroom
      exact h.of_tidy hpushed
  | pop segment index =>
      -- The only command that stores below the stack, and the reason for `spares`.
      obtain ⟨place, hplace, rfl⟩ := Option.map_eq_some_iff.mp hexecute
      simp only [StackMachine.spares, hplace, Option.all_some, Bool.and_eq_true,
        decide_eq_true_eq, List.all_eq_true, Bool.not_eq_true'] at hspares
      exact h.popTo (hoperands.resolve_left Nat.one_ne_zero) hspares.1 hspares.2
  | label name =>
      cases hexecute
      exact h
  | goto target =>
      obtain ⟨i, -, rfl⟩ := Option.map_eq_some_iff.mp hexecute
      exact h
  | ifGoto target =>
      have hdrop : Ram.Tidy (a.frame.toNat + 5) c.ram c.ram.drop :=
        Ram.tidy_drop (hoperands.resolve_left Nat.one_ne_zero) hhigh
      have hram : c'.ram = c.ram.drop := by
        by_cases hzero : c.ram.drop.top = 0
        · have hpast : some ⟨c.entry + 1, c.ram.drop⟩ = some c' :=
            (if_pos hzero).symm.trans hexecute
          cases hpast
          rfl
        · have hjump : (Origin.labelPlace? m.origins context target).map (⟨·, c.ram.drop⟩)
              = some c' := (if_neg hzero).symm.trans hexecute
          obtain ⟨i, -, rfl⟩ := Option.map_eq_some_iff.mp hjump
          rfl
      rw [hram]
      exact h.of_tidy hdrop
  | function name locals =>
      cases hexecute
      exact h.of_tidy (Ram.tidy_zeroLocals hframe hlow hroom)
  | call name arguments => exact absurd rfl (hcall name arguments)
  | ret => exact absurd rfl hret

/-- **Every command of a tidy program keeps the chain of frames.** -/
theorem framed_step {m : StackMachine} {c c' : StackMachine.Config} {live : List Activation}
    (hlive : FramedAll m c.ram live) (htidy : m.isTidy 16 c live = true)
    (hstep : m.step c = some c') : FramedAll m c'.ram (m.activations c live) := by
  obtain ⟨o, ho, hperform⟩ := Option.bind_eq_some_iff.mp hstep
  have hreturn : ∃ i ≤ m.origins.length,
      (m.address (c.entry + 1)).toUInt16 = (m.address i).toUInt16 :=
    ⟨c.entry + 1, (List.getElem?_eq_some_iff.mp ho).1, rfl⟩
  rw [StackMachine.activations, ho]
  cases o with
  | start entryPoint =>
      -- The chain starts anew here, so nothing is asked of memory.
      obtain ⟨i, -, rfl⟩ := Option.map_eq_some_iff.mp hperform
      have hsp : (c.ram.setReg .sp 256).reg .sp = 256 := by rw [Ram.reg_setReg, if_pos rfl]
      exact framed_call [] trivial (by rw [hsp]; decide) hreturn
        (by rw [hsp]; decide) (fun b hb => nomatch hb)
  | line context l =>
      obtain ⟨row, text, command⟩ := l
      obtain ⟨hoperands, hroom, hfits, hspares⟩ := m.isTidy_line htidy ho
      have hkeep : (∀ name arguments, command ≠ .call name arguments) → command ≠ .ret →
          FramedAll m c'.ram live := by
        intro hcall hret
        cases live with
        | nil => trivial
        | cons a live => exact framed_execute hlive hoperands hroom hspares hcall hret hperform
      cases command with
      | call name arguments =>
          obtain ⟨i, -, rfl⟩ := Option.map_eq_some_iff.mp hperform
          simp only [StackMachine.callFits, Bool.and_eq_true, Bool.or_eq_true,
            decide_eq_true_eq] at hfits
          have habove : ∀ b ∈ live.head?,
              b.frame.toNat + 5 + arguments.toNat ≤ (c.ram.reg .sp).toNat := by
            intro b hb
            obtain ⟨older, rfl⟩ := List.head?_eq_some_iff.mp hb
            rw [← Framed.toNat_lcl hlive]
            exact hfits.1
          -- The frame of a live activation is behind the registers already. Only the first
          -- call of all needs the floor.
          have hlow : 16 + arguments.toNat ≤ (c.ram.reg .sp).toNat := by
            cases live with
            | nil => exact hfits.2.resolve_left (by decide)
            | cons b older =>
                have hframe := (Framed.frame_le hlive List.mem_cons_self).1
                have := habove b rfl
                omega
          exact framed_call live hlive hroom hreturn hlow habove
      | ret =>
          obtain ⟨i, -, rfl⟩ := Option.map_eq_some_iff.mp hperform
          -- Whether one is live after the return is for the older ones to say.
          match live, hlive with
          | [], _ => trivial
          | [a], _ => trivial
          | a :: b :: older, h =>
              have h' : Framed m c.ram a (b :: older) := h
              rw [h'.toNat_lcl] at hoperands
              exact h'.ret (hoperands.resolve_left Nat.one_ne_zero)
      | arithmetic | push | pop | label | goto | ifGoto | function =>
          exact hkeep (fun _ _ h => nomatch h) (fun h => nomatch h)

/-! ### Whole runs -/

/-- A tracked run is a run. -/
theorem StackMachine.run_of_track {m : StackMachine} {n : Nat} {c c' : Config}
    {live live' : List Activation} (htrack : m.track n c live = some (c', live')) :
    m.run n c = some c' := by
  induction n generalizing c live with
  | zero =>
      cases htrack
      rfl
  | succ n ih =>
      obtain ⟨c₁, hstep, hrest⟩ := Option.bind_eq_some_iff.mp htrack
      exact (m.run_succ hstep n).trans (ih hrest)

/-- **At the end of a tidy run the chain is in memory**, and the next
command is tidy as well. -/
theorem framed_track {m : StackMachine} {n : Nat} {c c' : StackMachine.Config}
    {live live' : List Activation} (hlive : FramedAll m c.ram live)
    (htidy : m.staysTidy 16 n c live = true) (htrack : m.track n c live = some (c', live')) :
    FramedAll m c'.ram live' ∧ m.isTidy 16 c' live' = true := by
  induction n generalizing c live with
  | zero =>
      cases htrack
      exact ⟨hlive, htidy⟩
  | succ n ih =>
      obtain ⟨c₁, hstep, hrest⟩ := Option.bind_eq_some_iff.mp htrack
      rw [StackMachine.staysTidy, hstep, Option.all_some, Bool.and_eq_true] at htidy
      exact ih (framed_step hlive htidy.1 hstep) htidy.2 hrest

/-- One step more of a tracked run. -/
theorem StackMachine.track_add_one {m : StackMachine} {n : Nat} {c c₁ c' : Config}
    {live live₁ : List Activation} (htrack : m.track n c live = some (c₁, live₁))
    (hstep : m.step c₁ = some c') :
    m.track (n + 1) c live = some (c', m.activations c₁ live₁) := by
  induction n generalizing c live with
  | zero =>
      cases htrack
      rw [track, hstep]
      rfl
  | succ n ih =>
      obtain ⟨c₂, hstep₂, hrest⟩ := Option.bind_eq_some_iff.mp htrack
      rw [track, hstep₂]
      exact ih hrest

/-- A return that moves the stack pointer is no idle loop. -/
theorem StackMachine.not_idles_of_ret {m : StackMachine} {c : Config} {context : Context}
    {row : Nat} {text : String}
    (ho : m.origins[c.entry]? = some (.line context ⟨row, text, .ret⟩))
    (hsp : c.ram.ret.reg .sp ≠ c.ram.reg .sp) : ¬ m.Idles c := by
  intro hidles
  obtain ⟨c₁, hrun, -, hsame⟩ := hidles 1
  obtain ⟨c₂, hstep, hzero⟩ := m.exists_step hrun
  cases hzero
  rw [m.step_ret ho] at hstep
  obtain ⟨i, -, rfl⟩ := Option.map_eq_some_iff.mp hstep
  exact hsp (congrArg (fun ram : Ram => ram.reg .sp) hsame)

/-- A return from a live activation is no idle loop: the callee's stack is
above the cell where the caller's stack is going to end. -/
theorem Framed.not_idles_of_ret {m : StackMachine} {c : StackMachine.Config} {a : Activation}
    {live : List Activation} (h : Framed m c.ram a live)
    (hoperand : a.frame.toNat + 6 ≤ (c.ram.reg .sp).toNat) {context : Context} {row : Nat}
    {text : String} (ho : m.origins[c.entry]? = some (.line context ⟨row, text, .ret⟩)) :
    ¬ m.Idles c := by
  refine StackMachine.not_idles_of_ret ho ?_
  intro hsame
  have hsp := (h.returned hoperand).2.2.2.2.2.1
  have hle := h.nested.1.base_le
  have hroom := h.nested.1.room
  have hsize : ramSize = 32768 := rfl
  have hnat : (a.base + 1).toNat = a.base.toNat + 1 := toNat_add_toUInt16 (i := 1) (by omega)
  rw [← hsame, hsp, hnat] at hoperand
  omega

/-- **A return takes the machine back to where the call was**, whatever
was called in between and how deep.

The processor starts a program at power-on, with any data memory. After
`n` commands, all of them tidy, it is at a return and `a` is the latest
live activation. Then it goes on behind the call of `a`, with the four
registers as the call had them, with the word that was on top of the
stack in the cell of argument 0, and with the stack ending right above
that cell. The activations before are live again. -/
theorem Program.return_restores_caller {entryPoint : String} {units : List SourceUnit}
    {p : Program} {e : Executable} (hassemble : assemble (some entryPoint) units = .ok p)
    (hlink : Executable.link p.code = .ok e)
    (hclosed : Origin.Closed (origins (some entryPoint) units)) (s : State)
    (hrom : s.rom = e.rom) (hrunning : s.halted = false) (hpc : s.pc = 0) (n : Nat)
    (c : StackMachine.Config) (a : Activation) (live : List Activation)
    (htrack : (p.stackMachine (some entryPoint) units e).track n ⟨0, s.ram⟩ []
      = some (c, a :: live))
    (htidy : (p.stackMachine (some entryPoint) units e).staysTidy 16 n ⟨0, s.ram⟩ [] = true)
    (context : Context) (row : Nat) (text : String)
    (hret : (origins (some entryPoint) units)[c.entry]? = some (.line context ⟨row, text, .ret⟩)) :
    let m := p.stackMachine (some entryPoint) units e
    ∃ t k s₁ s₂ c', s.run t = (t, s₁) ∧ s₁.pc.toNat = m.address c.entry ∧ s₁.ram = c.ram ∧
      s₁.run k = (k, s₂) ∧ s₂.pc = a.returnAddress ∧
      s₂.ram.reg .lcl = a.lcl ∧ s₂.ram.reg .arg = a.arg ∧ s₂.ram.reg .this = a.this ∧
      s₂.ram.reg .that = a.that ∧ s₂.ram.reg .sp = a.base + 1 ∧
      s₂.ram.load a.base = s₁.ram.load (s₁.ram.reg .sp - 1) ∧
      m.track (n + 1) ⟨0, s.ram⟩ [] = some (c', live) ∧ m.Agrees c' s₂ := by
  intro m
  have hp : Placed m p.code e.rom e.symbol := placed hassemble hlink
  have hnone : FramedAll m s.ram [] := trivial
  have hrun := StackMachine.run_of_track htrack
  obtain ⟨hall, hlast⟩ := framed_track (c := ⟨0, s.ram⟩) hnone htidy htrack
  have hframed : Framed m c.ram a live := hall
  have ho : m.origins[c.entry]? = some (.line context ⟨row, text, .ret⟩) := hret
  obtain ⟨hoperands, -, -, -⟩ := m.isTidy_line hlast ho
  have hoperand := hoperands.resolve_left Nat.one_ne_zero
  rw [hframed.toNat_lcl] at hoperand
  obtain ⟨hr15, hlcl, harg, hthis, hthat, hsp, hload⟩ := hframed.returned hoperand
  -- The stack machine finds an entry at the return address, since a call put it there.
  obtain ⟨i, hi, haddress⟩ := hframed.returns a List.mem_cons_self
  obtain ⟨j, hj⟩ := hp.exists_entryAt? hi
  have hstep : m.step c = some ⟨j, c.ram.ret⟩ := by
    rw [m.step_ret ho, hr15, haddress, hj]
    rfl
  have hnext : m.track (n + 1) ⟨0, s.ram⟩ [] = some (⟨j, c.ram.ret⟩, live) := by
    have hadd := StackMachine.track_add_one htrack hstep
    rw [StackMachine.activations, ho] at hadd
    exact hadd
  -- The processor gets to the return and through it.
  have hs : s = (Data.mk s.ram s.a s.d).state e.rom (m.address 0) := by
    rw [← hrom]
    exact (State.eq_state hrunning).trans (by rw [hpc]; rfl)
  rcases hp.run_forward hclosed (Nat.zero_le _) (x := ⟨s.ram, s.a, s.d⟩) rfl hrun with
    ⟨t, x, hsteps, hx⟩ | ⟨hidles, -⟩
  · obtain ⟨k, x', -, hsteps', hx'⟩ := hp.reaches_ret hx ho
    have hpc' : (x'.state e.rom (c.ram.ret.reg .r15).toNat).pc = a.returnAddress :=
      UInt16.ofNat_toNat.trans hr15
    have hentry := m.entry_le_of_run (Nat.zero_le _) hrun
    refine ⟨t, k, _, _, ⟨j, c.ram.ret⟩, hs ▸ hsteps.run_eq, hp.toNat_address hentry, hx,
      hsteps'.run_eq, hpc', ?_⟩
    have hram : (x'.state e.rom (c.ram.ret.reg .r15).toNat).ram = c.ram.ret := hx'
    have hram₁ : (x.state e.rom (m.address c.entry)).ram = c.ram := hx
    have hbase : Plain a.base := by
      have hsound := hframed.nested.1
      exact ⟨hsound.low, by have := hsound.base_le; have := hsound.room; omega⟩
    rw [hram, hram₁, hload a.base hbase, if_pos rfl]
    refine ⟨hlcl, harg, hthis, hthat, hsp, rfl, hnext, ?_, hram, fun hhalted => nomatch hhalted⟩
    rw [hpc', haddress]
    exact (m.entryAt?_eq_some hj).2.symm
  · exact absurd hidles (hframed.not_idles_of_ret hoperand ho)

/-- A program with a call inside the first function. -/
def callingUnit : SourceUnit :=
  ⟨"Sys", [⟨1, "function Sys.init 0", .function "Sys.init" 0⟩,
    ⟨2, "push constant 5", .push .constant 5⟩, ⟨3, "call Sys.id 1", .call "Sys.id" 1⟩,
    ⟨4, "return", .ret⟩, ⟨5, "function Sys.id 1", .function "Sys.id" 1⟩,
    ⟨6, "push argument 0", .push .argument 0⟩, ⟨7, "return", .ret⟩]⟩

/-- The inner function of the calling program returns behind its call,
with its argument as the result. -/
theorem Program.return_restores_caller_of_callingUnit :
    let p := compiled (some "Sys.init") [callingUnit]
    let m := p.stackMachine (some "Sys.init") [callingUnit] p.linked
    let s := State.start p.linked.rom
    m.staysTidy 16 6 ⟨0, s.ram⟩ [] = true ∧
    ∃ c a b, m.track 6 ⟨0, s.ram⟩ [] = some (c, [a, b]) ∧
      ∃ t k s₁ s₂, s.run t = (t, s₁) ∧ s₁.pc.toNat = m.address c.entry ∧ s₁.run k = (k, s₂) ∧
        s₂.pc = a.returnAddress ∧ s₂.ram.reg .lcl = a.lcl ∧ s₂.ram.reg .arg = a.arg ∧
        s₂.ram.reg .sp = a.base + 1 ∧
        s₂.ram.load a.base = s₁.ram.load (s₁.ram.reg .sp - 1) := by
  intro p m s
  have hlinkable : isLinkable (some "Sys.init") [callingUnit] = true := by decide +kernel
  have hclosed : Origin.Closed (origins (some "Sys.init") [callingUnit]) := by decide
  obtain ⟨hassemble, hlink⟩ := link_compiled hlinkable
  have htidy : m.staysTidy 16 6 ⟨0, s.ram⟩ [] = true := by decide +kernel
  -- Six commands lead to the inner return, entry 7 with the start counted.
  have hend : ((m.track 6 ⟨0, s.ram⟩ []).any fun x => x.1.entry == 7
      && x.2.length == 2) = true := by
    decide +kernel
  obtain ⟨⟨c, live⟩, htrack, hc⟩ := (Option.any_eq_true _ _).mp hend
  simp only [Bool.and_eq_true, beq_iff_eq] at hc
  obtain ⟨a, b, rfl⟩ : ∃ a b, live = [a, b] := by
    match live, hc.2 with
    | [a, b], _ => exact ⟨a, b, rfl⟩
  have hret : (origins (some "Sys.init") [callingUnit])[c.entry]?
      = some (.line ⟨"Sys", some "Sys.id"⟩ ⟨7, "return", .ret⟩) := by
    rw [hc.1]
    rfl
  obtain ⟨t, k, s₁, s₂, -, hrun, hpc, -, hrun', hpc', hlcl, harg, -, -, hsp, hresult, -⟩ :=
    return_restores_caller hassemble hlink hclosed s rfl rfl rfl 6 c a [b] htrack htidy _ _ _ hret
  exact ⟨htidy, c, a, b, htrack, t, k, s₁, s₂, hrun, hpc, hrun', hpc', hlcl, harg, hsp, hresult⟩

/-- A program that goes on after its first function has returned. The
first call leaves the stack on the scratch registers. -/
def fallingUnit : SourceUnit :=
  ⟨"F", [⟨1, "call F.f 246", .call "F.f" 246⟩, ⟨2, "call F.f 0", .call "F.f" 0⟩,
    ⟨3, "label END", .label "END"⟩, ⟨4, "goto END", .goto "END"⟩,
    ⟨5, "function F.f 0", .function "F.f" 0⟩, ⟨6, "push constant 7", .push .constant 7⟩,
    ⟨7, "return", .ret⟩]⟩

/-- Without a floor under the first call the chain can be lost. The
falling program keeps to everything else, but its last return, right
behind the call as it should be, comes back with another `LCL`. -/
theorem Program.frame_on_scratch_registers_lost :
    let p := compiled (some "F.f") [fallingUnit]
    let m := p.stackMachine (some "F.f") [fallingUnit] p.linked
    let s := State.start p.linked.rom
    assemble (some "F.f") [fallingUnit] = .ok p ∧ Executable.link p.code = .ok p.linked ∧
    Origin.Closed (origins (some "F.f") [fallingUnit]) ∧
    m.staysTidy 0 11 ⟨0, s.ram⟩ [] = true ∧
    ∃ c a, m.track 11 ⟨0, s.ram⟩ [] = some (c, [a]) ∧
      ∃ t k s₁ s₂, s.run t = (t, s₁) ∧ s₁.pc.toNat = m.address c.entry ∧ s₁.ram = c.ram ∧
        s₁.run k = (k, s₂) ∧ s₂.pc = a.returnAddress ∧ s₂.ram = c.ram.ret ∧
        s₂.ram.reg .lcl ≠ a.lcl := by
  intro p m s
  have hlinkable : isLinkable (some "F.f") [fallingUnit] = true := by decide +kernel
  have hclosed : Origin.Closed (origins (some "F.f") [fallingUnit]) := by decide
  obtain ⟨hassemble, hlink⟩ := link_compiled hlinkable
  have hp : Placed m p.code p.linked.rom p.linked.symbol := placed hassemble hlink
  have htidy : m.staysTidy 0 11 ⟨0, s.ram⟩ [] = true := by decide +kernel
  -- The second call of the unit has its frame on the cells 12 to 16, and the return that
  -- belongs to it moves R13, R14 and R15 while it reads them.
  have hend : ((m.track 11 ⟨0, s.ram⟩ []).any fun x => x.1.entry == 7
      && x.1.ram.ret.reg .sp != x.1.ram.reg .sp && x.2.length == 1
      && x.2.all fun a => x.1.ram.ret.reg .r15 == a.returnAddress
        && x.1.ram.ret.reg .lcl != a.lcl) = true := by
    decide +kernel
  obtain ⟨⟨c, live⟩, htrack, hc⟩ := (Option.any_eq_true _ _).mp hend
  simp only [Bool.and_eq_true, beq_iff_eq, bne_iff_ne] at hc
  obtain ⟨⟨⟨hentry, hsp⟩, hlength⟩, hall⟩ := hc
  obtain ⟨a, rfl⟩ := List.length_eq_one_iff.mp hlength
  have ho : m.origins[c.entry]? = some (.line ⟨"F", some "F.f"⟩ ⟨7, "return", .ret⟩) := by
    rw [hentry]
    rfl
  simp only [List.all_cons, List.all_nil, Bool.and_true, Bool.and_eq_true, beq_iff_eq,
    bne_iff_ne] at hall
  have hrun := StackMachine.run_of_track htrack
  rcases hp.run_forward hclosed (Nat.zero_le _) (x := ⟨s.ram, 0, 0⟩) rfl hrun with
    ⟨t, x, hsteps, hx⟩ | ⟨hidles, -⟩
  · obtain ⟨k, x', -, hsteps', hx'⟩ := hp.reaches_ret hx ho
    have hlcl : (x'.state p.linked.rom (c.ram.ret.reg .r15).toNat).ram.reg .lcl ≠ a.lcl := by
      show x'.ram.reg .lcl ≠ a.lcl
      rw [hx']
      exact hall.2
    exact ⟨hassemble, hlink, hclosed, htidy, c, a, htrack, t, k, _, _, hsteps.run_eq,
      hp.toNat_address (m.entry_le_of_run (Nat.zero_le _) hrun), hx, hsteps'.run_eq,
      UInt16.ofNat_toNat.trans hall.1, hx', hlcl⟩
  · exact absurd hidles (StackMachine.not_idles_of_ret ho hsp)

end HackComputer.Vm
