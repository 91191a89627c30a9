import HackComputer.Proofs.Vm.Blocks
import HackComputer.Proofs.Vm.Placement
import HackComputer.Proofs.Vm.StackEffects

/-!
# `HackComputer.Proofs.Vm.Comparisons`: what comparisons decide

A comparison subtracts its words and looks at the sign of the difference.
Subtraction wraps around, so this is the sign of the true difference only
as long as that one fits into a signed word (`InRange`). If it does not,
wrapping turns the sign around: `32767` is then less than `-1`.

* `signed_sub_of_inRange`, `signed_sub_of_not_inRange`: the difference of
  two words as a signed number, in the two cases.
* `Arithmetic.order?`: the question that a comparison asks.
* `order_signed_sub`: the sign of the difference answers the question, or
  its opposite. Equality is always answered, because only equal words
  have the difference zero.
* `comparison_answers`: the code of a comparison, run where it
  stands in a linked program.
-/

set_option autoImplicit false

namespace HackComputer

open Isa

/-! ### Differences of words -/

namespace Machine

/-- The number can be read from a signed word. -/
def InRange (n : Int) : Prop :=
  -32768 ≤ n ∧ n ≤ 32767

/-- Both bounds can be tested. -/
instance (n : Int) : Decidable (InRange n) :=
  inferInstanceAs (Decidable (-32768 ≤ n ∧ n ≤ 32767))

/-- Every word is read as a number in range. -/
theorem inRange_signed (w : Word) : InRange w.signed := by
  have hlow : -32768 ≤ w.signed := Int16.le_toInt w.toInt16
  have hhigh : w.signed < 32768 := Int16.toInt_lt w.toInt16
  exact ⟨hlow, by omega⟩

/-- The difference of two words is that of the numbers, wrapped around. -/
theorem signed_sub (x y : Word) : (x - y).signed = (x.signed - y.signed).bmod 65536 := by
  rw [Word.signed, UInt16.toInt16_sub]
  exact Int16.toInt_sub x.toInt16 y.toInt16

/-- A difference in range is read as it is. -/
theorem signed_sub_of_inRange {x y : Word} (h : InRange (x.signed - y.signed)) :
    (x - y).signed = x.signed - y.signed := by
  obtain ⟨hlow, hhigh⟩ := h
  rw [signed_sub, Int.bmod_def]
  split <;> omega

/-- A difference out of range has the opposite sign. -/
theorem signed_sub_of_not_inRange {x y : Word} (h : ¬InRange (x.signed - y.signed)) :
    y.signed < x.signed ∧ (x - y).signed < 0 ∨ x.signed < y.signed ∧ 0 < (x - y).signed := by
  obtain ⟨hxlow, hxhigh⟩ := inRange_signed x
  obtain ⟨hylow, hyhigh⟩ := inRange_signed y
  rw [InRange] at h
  -- Both numbers are in range, so wrapping once is enough.
  have hwrap : (x - y).signed = x.signed - y.signed - 65536 ∧ 32767 < x.signed - y.signed ∨
      (x - y).signed = x.signed - y.signed + 65536 ∧ x.signed - y.signed < -32768 := by
    rw [signed_sub, Int.bmod_def]
    split <;> omega
  omega

/-- The word that a comparison leaves: all ones or zero. -/
def truth (b : Bool) : Word :=
  if b then 0xFFFF else 0

/-- A comparison of two words behind the registers takes the stack pointer
down and answers in the cell of the lower word. -/
theorem Ram.compare_eq {ram : Ram} (test : Word → Bool) (hlow : 18 ≤ (ram.reg .sp).toNat)
    (hhigh : (ram.reg .sp).toNat ≤ ramSize) :
    ram.compare test = (ram.setReg .sp (ram.reg .sp - 1)).store (ram.reg .sp - 2)
      (truth (test (ram.load (ram.reg .sp - 2) - ram.load (ram.reg .sp - 1)))) := by
  have hsp : ram.drop.reg .sp = ram.reg .sp - 1 := by
    rw [drop, reg_setReg, if_pos rfl]
  have hslot : ram.reg .sp - 1 - 1 = ram.reg .sp - 2 := by grind
  have hupper : Plain (ram.reg .sp - 1) := by
    have hsub : (ram.reg .sp - 1).toNat = (ram.reg .sp).toNat - 1 := toNat_sub_one (by omega)
    exact ⟨by omega, by omega⟩
  have hlower : Plain (ram.reg .sp - 2) := by
    have hsub : (ram.drop.reg .sp - 1).toNat = (ram.reg .sp).toNat - 2 :=
      toNat_sp_drop_sub_one (by omega)
    rw [hsp, hslot] at hsub
    exact ⟨by omega, by omega⟩
  -- Neither word is the stack pointer, so taking it down leaves both as they are.
  have hx : ram.drop.load (ram.reg .sp - 2) = ram.load (ram.reg .sp - 2) := load_setReg hlower _ _
  have hy : ram.drop.top = ram.load (ram.reg .sp - 1) := by
    rw [top, hsp]
    exact load_setReg hupper _ _
  simp only [compare, hsp, hslot, hx, hy, if_neg (hlower.cell_ne .sp), truth]
  split <;> rfl

end Machine

namespace Vm

open Machine Assembly Code

/-! ### The three questions -/

/-- The question that a comparison asks of the lower and the upper
number. -/
def Arithmetic.order? : Arithmetic → Option (Int → Int → Bool)
  | eq => some fun x y => decide (x = y)
  | gt => some fun x y => decide (y < x)
  | lt => some fun x y => decide (x < y)
  | _ => none

/-- A comparison asks its question of the difference and zero. -/
theorem act_of_order? {op : Arithmetic} {order : Int → Int → Bool} (h : op.order? = some order)
    (ram : Ram) : op.act ram = ram.compare fun difference => order difference.signed 0 := by
  cases op with
  | eq | gt | lt =>
      cases h
      rfl
  | add | sub | neg | and | or | not => cases h

/-- What a comparison answers on two words: its question if their
difference is in range, and the opposite if not. Equality is never
wrong. -/
def Arithmetic.answer (op : Arithmetic) (order : Int → Int → Bool) (x y : Word) : Bool :=
  if op = .eq ∨ InRange (x.signed - y.signed) then order x.signed y.signed
  else !order x.signed y.signed

/-- **The sign of the difference gives the answer.** -/
theorem order_signed_sub {op : Arithmetic} {order : Int → Int → Bool}
    (h : op.order? = some order) (x y : Word) :
    order (x - y).signed 0 = op.answer order x y := by
  rw [Arithmetic.answer]
  by_cases hrange : InRange (x.signed - y.signed)
  · rw [if_pos (.inr hrange), signed_sub_of_inRange hrange]
    cases op with
    | eq | gt | lt =>
        cases h
        simp only [decide_eq_decide]
        omega
    | add | sub | neg | and | or | not => cases h
  · have hsign := signed_sub_of_not_inRange hrange
    cases op with
    | eq =>
        -- Unequal numbers, and a difference that is not zero.
        cases h
        rw [if_pos (.inl rfl), decide_eq_decide]
        omega
    | gt | lt =>
        cases h
        rw [if_neg (by simp [hrange]), ← decide_not, decide_eq_decide]
        omega
    | add | sub | neg | and | or | not => cases h

/-! ### In a linked program -/

/-- The code of a comparison where it stands. -/
theorem reaches_comparison {code before : Lines} {rom : Array Operation}
    {address : String → Word} (h : Loaded code rom address) {op : Arithmetic}
    {order : Int → Int → Bool} (hop : op.order? = some order) {supply : LabelSupply}
    (hcode : before ++ (arithmetic op supply).1 <+: code) (x : Data)
    (hlow : 18 ≤ (x.ram.reg .sp).toNat) (hhigh : (x.ram.reg .sp).toNat ≤ ramSize) :
    Reaches rom x (romLength before) (romLength (before ++ (arithmetic op supply).1))
      ((x.ram.setReg .sp (x.ram.reg .sp - 1)).store (x.ram.reg .sp - 2)
        (truth (op.answer order (x.ram.load (x.ram.reg .sp - 2))
          (x.ram.load (x.ram.reg .sp - 1))))) := by
  rw [← order_signed_sub hop,
    ← Ram.compare_eq (fun difference => order difference.signed 0) hlow hhigh,
    ← act_of_order? hop]
  exact reaches_arithmetic h op supply hcode x

/-- **A comparison answers its question as long as the difference of its
words is in range, and the opposite if it is not.** Its code may stand
anywhere in a linked program, and the machine comes out behind it, with
the stack pointer one lower and the answer in the cell of the lower word.
No other cell changes. -/
theorem comparison_answers {context : Context} {supply supply' : LabelSupply}
    {op : Arithmetic} {order : Int → Int → Bool} {before block after : Lines} {e : Executable}
    (hop : op.order? = some order)
    (hblock : Command.compile context supply (.arithmetic op) = .ok (block, supply'))
    (hlink : Executable.link (before ++ block ++ after) = .ok e) (s : State)
    (hrom : s.rom = e.rom) (hlive : s.halted = false) (hpc : s.pc.toNat = romLength before)
    (hlow : 18 ≤ (s.ram.reg .sp).toNat) (hhigh : (s.ram.reg .sp).toNat ≤ ramSize) :
    let x := s.ram.load (s.ram.reg .sp - 2)
    let y := s.ram.load (s.ram.reg .sp - 1)
    ∃ t s', s.run t = (t, s') ∧ s'.halted = false ∧ s'.pc.toNat = romLength (before ++ block) ∧
      s'.ram = (s.ram.setReg .sp (s.ram.reg .sp - 1)).store (s.ram.reg .sp - 2)
        (truth (op.answer order x y)) := by
  intro x y
  obtain rfl : (arithmetic op supply).1 = block := congrArg Prod.fst (Except.ok.inj hblock)
  have hloaded := Loaded.of_link hlink
  have hcode : before ++ (arithmetic op supply).1 <+: before ++ (arithmetic op supply).1 ++ after :=
    List.prefix_append _ _
  obtain ⟨t, x', -, hsteps, hx'⟩ := reaches_comparison hloaded hop hcode
    ⟨s.ram, s.a, s.d⟩ hlow hhigh
  have hs : s = (Data.mk s.ram s.a s.d).state e.rom (romLength before) := by
    rw [← hrom, ← hpc]
    exact State.eq_state hlive
  rw [← hs] at hsteps
  exact ⟨t, _, hsteps.run_eq, rfl, hloaded.toNat_romLength hcode, hx'⟩

/-- Any two words can be the only ones on the stack. -/
theorem exists_two_on_stack (x y : Word) :
    ∃ ram : Ram, ram.reg .sp = 258 ∧ ram.load (ram.reg .sp - 2) = x ∧
      ram.load (ram.reg .sp - 1) = y := by
  obtain ⟨empty⟩ : Nonempty Ram := ⟨Vector.replicate ramSize 0⟩
  have hsp : (((empty.setReg .sp 258).store 256 x).store 257 y).reg .sp = 258 := by
    rw [Ram.reg_store ⟨by decide, by decide⟩, Ram.reg_store ⟨by decide, by decide⟩,
      Ram.reg_setReg, if_pos rfl]
  refine ⟨_, hsp, ?_, ?_⟩
  · rw [hsp]
    have hne : cell 257 ≠ cell 256 := by decide
    exact (Ram.load_store_of_ne _ hne y).trans (Ram.load_store_self _ 256 x)
  · rw [hsp]
    exact Ram.load_store_self _ 257 y

/-- The lowest number is less than `-1`, and a comparison inside a longer
program says so. -/
theorem comparison_answers_at_lowest_number :
    ∃ (block : Lines) (supply : LabelSupply) (e : Executable) (s : State),
      Command.compile ⟨"Main", none⟩ {} (.arithmetic .lt) = .ok (block, supply) ∧
      Executable.link ([setD .one] ++ block ++ [setD .zero]) = .ok e ∧ s.rom = e.rom ∧
      s.pc = 1 ∧ s.ram.load 256 = 0x8000 ∧ s.ram.load 257 = 0xFFFF ∧
      ∃ t s', s.run t = (t, s') ∧ s'.ram.reg .sp = 257 ∧ s'.ram.load 256 = 0xFFFF := by
  obtain ⟨ram, hsp, hx, hy⟩ := exists_two_on_stack 0x8000 0xFFFF
  have hlow : 18 ≤ (ram.reg .sp).toNat := by rw [hsp]; decide
  have hhigh : (ram.reg .sp).toNat ≤ ramSize := by rw [hsp]; decide
  have hblock : Command.compile ⟨"Main", none⟩ {} (.arithmetic .lt)
      = .ok (Code.arithmetic .lt {}) := rfl
  obtain ⟨e, hlink⟩ : ∃ e, Executable.link ([setD .one] ++ (Code.arithmetic .lt {}).1
      ++ [setD .zero]) = .ok e := Executable.exists_link (by decide) (by decide)
  obtain ⟨t, s', hrun, -, -, hram⟩ := comparison_answers rfl hblock hlink
    ((⟨ram, 0, 0⟩ : Data).state e.rom 1) rfl rfl rfl hlow hhigh
  have hanswer : s'.ram = (ram.setReg .sp (ram.reg .sp - 1)).store (ram.reg .sp - 2)
      (truth (Arithmetic.lt.answer (fun x y => decide (x < y)) (ram.load (ram.reg .sp - 2))
        (ram.load (ram.reg .sp - 1)))) := hram
  rw [hx, hy, hsp] at hanswer
  rw [hsp] at hx hy
  refine ⟨_, _, e, _, hblock, hlink, rfl, rfl, hx, hy, t, s', hrun, ?_, ?_⟩
  · rw [hanswer, Ram.reg_store ⟨by decide, by decide⟩, Ram.reg_setReg, if_pos rfl]
    rfl
  · rw [hanswer]
    exact (Ram.load_store_self _ 256 _).trans (by decide)

/-- A program that compares and does nothing else. -/
def greaterUnit : SourceUnit :=
  ⟨"Main", [⟨1, "gt", .arithmetic .gt⟩]⟩

/-- Comparisons do not always decide the order. `32767` is greater than
`-1`, and the answer is zero. -/
theorem Program.distant_words_are_compared_wrongly :
    ∃ (p : Program) (e : Executable) (s : State), assemble none [greaterUnit] = .ok p ∧
      Executable.link p.code = .ok e ∧ s.rom = e.rom ∧ s.halted = false ∧ s.pc = 0 ∧
      s.ram.reg .sp = 258 ∧ (s.ram.load 257).signed < (s.ram.load 256).signed ∧
      (∃ t, (s.run t).2.pc.toNat = e.rom.size) ∧
      ∀ t, (s.run t).2.pc.toNat = e.rom.size → (s.run t).2.ram.load 256 ≠ 0xFFFF := by
  obtain ⟨ram, hsp, hx, hy⟩ := exists_two_on_stack 0x7FFF 0xFFFF
  have hlow : 18 ≤ (ram.reg .sp).toNat := by rw [hsp]; decide
  have hhigh : (ram.reg .sp).toNat ≤ ramSize := by rw [hsp]; decide
  have hlinkable : isLinkable none [greaterUnit] = true := by decide
  obtain ⟨hassemble, hlink⟩ := link_compiled hlinkable
  have hcode : (compiled none [greaterUnit]).code = [] ++ (Code.arithmetic .gt {}).1 := rfl
  generalize compiled none [greaterUnit] = p at hassemble hlink hcode
  generalize p.linked = e at hlink
  have hloaded := Loaded.of_link hlink
  have hprefix : [] ++ (Code.arithmetic .gt {}).1 <+: p.code := hcode ▸ List.prefix_rfl
  have hop : Arithmetic.gt.order? = some fun x y => decide (y < x) := rfl
  obtain ⟨t, x, -, hsteps, hram⟩ := reaches_comparison hloaded hop hprefix ⟨ram, 0, 0⟩ hlow hhigh
  have hanswer : x.ram.load 256 = 0 := by
    rw [hram]
    show (Ram.store _ (ram.reg .sp - 2) (truth (Arithmetic.gt.answer _ (ram.load (ram.reg .sp - 2))
      (ram.load (ram.reg .sp - 1))))).load 256 = 0
    rw [hx, hy, hsp]
    exact (Ram.load_store_self _ 256 _).trans (by decide)
  have hall : State.Steps t ((⟨ram, 0, 0⟩ : Data).state e.rom 0) (x.state e.rom e.rom.size) := by
    rw [hloaded.size_eq, hcode]
    exact hsteps
  refine ⟨p, e, (⟨ram, 0, 0⟩ : Data).state e.rom 0, hassemble, hlink, rfl, rfl, rfl, hsp, ?_,
    ⟨t, ?_⟩, ?_⟩
  · rw [hsp] at hx hy
    show (ram.load 257).signed < (ram.load 256).signed
    rw [show ram.load 257 = 0xFFFF from hy, show ram.load 256 = 0x7FFF from hx]
    decide
  · rw [hall.run_eq, hloaded.size_eq]
    exact hloaded.toNat_romLength (List.prefix_refl _)
  · intro t' ht'
    rw [ram_of_end hloaded.size_le hall ht', hanswer]
    decide

end Vm

end HackComputer
