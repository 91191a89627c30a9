import HackComputer.Proofs.Assembly.Layout
import Mathlib.Logic.Equiv.Basic

/-!
# `HackComputer.Proofs.Assembly.Respelling`: names count only as names

Linking compares names and looks them up; it should not matter how they
are spelled. `IsRespelling` says what a change of spelling may do: names
that differ stay different, and a predefined name stays as it is. Linking
a respelled program is then linking the program and respelling the result
(`link_respell`).

The statement is about two runs of both passes, so the proof walks through
them side by side. The tables of the two runs are never equal, because
they hold different names and hash them differently. What relates them is
`SymbolTable.Respells`: the pairs are the same up to spelling, in the same
order.

* `Respells.get?`, `Respells.push`: related tables answer alike and stay
  related.
* `collectLabels_respell`, `resolve_respell`: the two passes.
-/

set_option autoImplicit false

namespace HackComputer.Assembly

open Isa

/-- A change of spelling: it keeps names apart, and leaves the predefined
ones alone. -/
structure IsRespelling (f : String → String) : Prop where
  injective : Function.Injective f
  predefined : ∀ name, (Isa.predefined.lookup name).isSome → f name = name

/-- The operand with its name respelled. The name of a register is predefined,
so it stays. -/
def Operand.respell (f : String → String) : Operand → Operand
  | symbol name => symbol (f name)
  | operand => operand

/-- The line with its name respelled. -/
def Instruction.respell (f : String → String) : Instruction → Instruction
  | load operand => load (operand.respell f)
  | compute c => compute c
  | label name => label (f name)

/-- The error with its name respelled. -/
def Error.respell (f : String → String) : Error → Error
  | redefinedLabel name => redefinedLabel (f name)
  | err => err

/-- Pairs with their names respelled. -/
def respellNames (f : String → String) (pairs : List (String × Word)) : List (String × Word) :=
  pairs.map fun (name, address) => (f name, address)

/-- The program with the names in its tables respelled. -/
def Executable.respell (f : String → String) (e : Executable) : Executable :=
  { e with labels := respellNames f e.labels, vars := respellNames f e.vars }

/-! ### Tables -/

/-- The second table is the first with its names respelled. -/
structure SymbolTable.Respells (f : String → String) (t t' : SymbolTable) : Prop where
  toList_eq : t'.toList = respellNames f t.toList

/-- A respelled name is found where the name was. -/
theorem lookup_respellNames {f : String → String} (hf : Function.Injective f)
    (pairs : List (String × Word)) (name : String) :
    (respellNames f pairs).lookup (f name) = pairs.lookup name := by
  induction pairs with
  | nil => rfl
  | cons p pairs ih =>
      obtain ⟨other, address⟩ := p
      have hsame : (f name == f other) = (name == other) := by
        rw [Bool.eq_iff_iff, beq_iff_eq, beq_iff_eq]
        exact hf.eq_iff
      show ((f other, address) :: respellNames f pairs).lookup (f name) = _
      rw [List.lookup_cons, List.lookup_cons, hsame, ih]

section
variable {f : String → String} (hf : IsRespelling f)
include hf

/-- No other name is respelled to a predefined one, since that one is
respelled to itself. -/
theorem IsRespelling.lookup_predefined (name : String) :
    Isa.predefined.lookup (f name) = Isa.predefined.lookup name := by
  cases hnew : Isa.predefined.lookup (f name) with
  | some address =>
      have hfixed : f (f name) = f name := hf.predefined (f name) (by rw [hnew]; rfl)
      rw [← hnew, hf.injective hfixed]
  | none =>
      cases hold : Isa.predefined.lookup name with
      | none => rfl
      | some address =>
          rw [hf.predefined name (by rw [hold]; rfl), hold] at hnew
          cases hnew

namespace SymbolTable.Respells

/-- Related tables give related names one address. -/
theorem get? {t t' : SymbolTable} (h : t.Respells f t') (name : String) :
    t'.get? (f name) = t.get? name := by
  rw [get?_eq_lookup, get?_eq_lookup, h.toList_eq, lookup_respellNames hf.injective]

/-- Tables stay related when a new name goes to their ends. -/
theorem push {t t' : SymbolTable} (h : t.Respells f t') {name : String}
    (hnew : t.get? name = none) (address : Word) :
    (t.push name address).Respells f (t'.push (f name) address) := by
  have hnew' : t'.get? (f name) = none := by rw [h.get? hf, hnew]
  constructor
  rw [toList_push hnew, toList_push hnew', h.toList_eq]
  simp [respellNames]

end SymbolTable.Respells

end

namespace SymbolTable.Respells
variable {f : String → String}

/-- Tables without names are related. -/
theorem empty : SymbolTable.empty.Respells f SymbolTable.empty := ⟨rfl⟩

/-- Related tables are of one size, so they give out the same next cell. -/
theorem size_eq {t t' : SymbolTable} (h : t.Respells f t') : t'.size = t.size := by
  have hlength := congrArg List.length h.toList_eq
  simpa [respellNames, toList, size] using hlength

end SymbolTable.Respells

namespace Executable

/-! ### The first pass -/

/-- What the first pass yields for a program and for its respelling. -/
inductive FirstPassRespells (f : String → String) :
    Except Error (Nat × SymbolTable) → Except Error (Nat × SymbolTable) → Prop
  | ok (size : Nat) {labels labels' : SymbolTable} :
      labels.Respells f labels' → FirstPassRespells f (.ok (size, labels)) (.ok (size, labels'))
  | error (err : Error) : FirstPassRespells f (.error err) (.error (err.respell f))

section
variable {f : String → String} (hf : IsRespelling f)
include hf

/-- **The first pass finds the same labels**, or stops at the same one. -/
theorem collectLabels_respell (code : List Instruction) (size : Nat) {labels labels' : SymbolTable}
    (h : labels.Respells f labels') :
    FirstPassRespells f (collectLabels code size labels)
      (collectLabels (code.map (Instruction.respell f)) size labels') := by
  induction code generalizing size labels labels' with
  | nil => exact .ok size h
  | cons line code ih =>
      cases line with
      | load operand => exact ih (size + 1) h
      | compute c => exact ih (size + 1) h
      | label name =>
          simp only [List.map_cons, Instruction.respell, collectLabels, h.get? hf]
          cases hname : labels.get? name with
          | some address => exact .error (.redefinedLabel name)
          | none => exact ih size (h.push hf hname size.toUInt16)

/-! ### The second pass -/

/-- A name and its respelling get one address, be it old or new. -/
theorem resolveSymbol_respell {labels labels' vars vars' : SymbolTable}
    (hlabels : labels.Respells f labels') (hvars : vars.Respells f vars') (name : String) :
    (resolveSymbol labels' vars' (f name)).1 = (resolveSymbol labels vars name).1 ∧
    (resolveSymbol labels vars name).2.Respells f (resolveSymbol labels' vars' (f name)).2 := by
  have hlookup : lookupName labels' vars' (f name) = lookupName labels vars name := by
    rw [lookupName, lookupName, hlabels.get? hf, hvars.get? hf, hf.lookup_predefined]
  unfold lookupName at hlookup
  simp only [resolveSymbol, hlookup]
  split
  · exact ⟨rfl, hvars⟩
  · rename_i hnone
    simp only [Option.orElse_eq_orElse, Option.orElse_eq_or, Option.or_eq_none_iff] at hnone
    rw [hvars.size_eq]
    exact ⟨rfl, hvars.push hf hnone.2.2 _⟩

/-- An operand and its respelling have one value. -/
theorem resolveOperand_respell {labels labels' vars vars' : SymbolTable}
    (hlabels : labels.Respells f labels') (hvars : vars.Respells f vars') (operand : Operand) :
    (resolveOperand labels' vars' (operand.respell f)).1
      = (resolveOperand labels vars operand).1 ∧
    (resolveOperand labels vars operand).2.Respells f
      (resolveOperand labels' vars' (operand.respell f)).2 := by
  cases operand with
  | literal value => exact ⟨rfl, hvars⟩
  | register r => exact ⟨rfl, hvars⟩
  | symbol name => exact resolveSymbol_respell hf hlabels hvars name

/-- **The second pass yields the same operations**, and the same
variables in the same order. -/
theorem resolve_respell {labels labels' : SymbolTable} (hlabels : labels.Respells f labels')
    (code : List Instruction) {vars vars' : SymbolTable} (hvars : vars.Respells f vars')
    (rom : Array Operation) :
    (resolve labels' (code.map (Instruction.respell f)) vars' rom).2
      = (resolve labels code vars rom).2 ∧
    (resolve labels code vars rom).1.Respells f
      (resolve labels' (code.map (Instruction.respell f)) vars' rom).1 := by
  induction code generalizing vars vars' rom with
  | nil => exact ⟨rfl, hvars⟩
  | cons line code ih =>
      cases line with
      | label name => exact ih hvars rom
      | compute c => exact ih hvars (rom.push (.compute c))
      | load operand =>
          obtain ⟨hvalue, hvars'⟩ := resolveOperand_respell hf hlabels hvars operand
          simp only [List.map_cons, Instruction.respell, resolve, hvalue]
          exact ih hvars' _

/-! ### Linking -/

/-- **Linking does not depend on how names are spelled.** The respelled
program links exactly if the program does. It then has the same program
memory and the same addresses in the same order under the new names. If it
does not link, it fails with the same error, which names the respelled
label. -/
theorem link_respell (code : List Instruction) :
    link (code.map (Instruction.respell f))
      = ((link code).map (Executable.respell f)).mapError (Error.respell f) := by
  have hfirst := collectLabels_respell hf code 0 SymbolTable.Respells.empty
  generalize hold : collectLabels code 0 .empty = old at hfirst
  generalize hnew : collectLabels (code.map (Instruction.respell f)) 0 .empty = new at hfirst
  cases hfirst with
  | error err =>
      rw [link_of_error hold, link_of_error hnew]
      rfl
  | ok size hlabels =>
      rw [link_of_ok hold, link_of_ok hnew]
      by_cases hfull : romCapacity < size
      · -- The number of instructions is no matter of spelling.
        simp only [hfull, if_true]
        rfl
      · obtain ⟨hrom, hvars⟩ := resolve_respell hf hlabels code SymbolTable.Respells.empty #[]
        simp only [hfull, if_false, hrom, hlabels.toList_eq, hvars.toList_eq]
        rfl

end

/-- Exchanging two names that are not predefined is a change of
spelling. -/
theorem isRespelling_swap {name other : String} (hname : Isa.predefined.lookup name = none)
    (hother : Isa.predefined.lookup other = none) : IsRespelling (Equiv.swap name other) := by
  refine ⟨(Equiv.swap name other).injective, ?_⟩
  intro fixed hfixed
  apply Equiv.swap_apply_of_ne_of_ne
  · rintro rfl
    simp [hname] at hfixed
  · rintro rfl
    simp [hother] at hfixed

/-- A label that is used before its line, variables, a register and a
predefined name. -/
def loopingCode : List Instruction :=
  [.load (.symbol "LOOP"), .load (.symbol "x"), .load (.register .sp), .load (.symbol "R5"),
    .label "LOOP", .load (.symbol "y"), .load (.symbol "x")]

/-- A label and a variable change their names, and the program stays the same.
Written twice it is refused under either name. -/
theorem link_respell_of_loopingCode :
    let f := Equiv.swap "LOOP" "x"
    IsRespelling f ∧
    (∃ e e', link loopingCode = .ok e ∧ link (loopingCode.map (Instruction.respell f)) = .ok e' ∧
      e'.rom = e.rom ∧ e.labels = [("LOOP", 4)] ∧ e'.labels = [("x", 4)] ∧
      e.vars = [("x", 16), ("y", 17)] ∧ e'.vars = [("LOOP", 16), ("y", 17)]) ∧
    ∃ name, link (loopingCode ++ loopingCode) = .error (.redefinedLabel name) ∧
      link ((loopingCode ++ loopingCode).map (Instruction.respell f))
        = .error (.redefinedLabel (f name)) := by
  intro f
  have hf : IsRespelling f := isRespelling_swap (by decide) (by decide)
  refine ⟨hf, ?_, ?_⟩
  · obtain ⟨e, hlink⟩ : ∃ e, link loopingCode = .ok e := exists_link (by decide) (by decide)
    obtain ⟨hlabels, hvars⟩ := link_tables hlink
    have hrespelled := link_respell hf loopingCode
    rw [hlink] at hrespelled
    refine ⟨e, e.respell f, hlink, hrespelled, rfl, hlabels, ?_, hvars, ?_⟩
    · show respellNames f e.labels = _
      rw [hlabels]
      decide
    · show respellNames f e.vars = _
      rw [hvars]
      decide
  · have hrepeated : ¬ (labelNames (loopingCode ++ loopingCode)).Nodup := by decide
    obtain ⟨name, hlink⟩ := link_eq_redefinedLabel_iff.mpr hrepeated
    have hrespelled := link_respell hf (loopingCode ++ loopingCode)
    rw [hlink] at hrespelled
    exact ⟨name, hlink, hrespelled⟩

end Executable

end HackComputer.Assembly
