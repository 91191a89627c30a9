import HackComputer.Proofs.Assembly.Linking
import HackComputer.Proofs.Machine.Run

/-!
# `HackComputer.Proofs.Assembly.Execution`: lines of assembly as they run

The machine runs operations at addresses, and generated code is lines
with names. Between the two stands `Data.followAll`: it runs lines on the
data alone, without a program counter and without program memory, so
that a fragment's effect is a computation on lists.

* `steps_straight`: where a loaded program holds lines without jumps, the
  machine follows them and comes out behind them.
* `steps_jump_taken`, `steps_jump_missed`: the two ends of a jump.

A place in the program is given by the lines before it, and its address
is the number of words that they take.
-/

set_option autoImplicit false

namespace HackComputer.Machine

open Isa Assembly

namespace Data

/-- The data after a line, as long as the line does not jump. -/
def follow (address : String → Word) (x : Data) : Instruction → Data
  | .load operand => { x with a := operand.value address }
  | .compute c => x.perform (.compute c)
  | .label _ => x

/-- The data after some lines. -/
def followAll (address : String → Word) (x : Data) (lines : List Instruction) : Data :=
  lines.foldl (follow address) x

section
variable (address : String → Word) (x : Data)

/-- No lines leave the data as they are. -/
@[simp] theorem followAll_nil : x.followAll address [] = x := rfl

/-- Lines are followed from the first one on. -/
@[simp] theorem followAll_cons (i : Instruction) (lines : List Instruction) :
    x.followAll address (i :: lines) = (x.follow address i).followAll address lines := rfl

/-- Two pieces of code are followed one after the other. -/
@[simp] theorem followAll_append (lines lines' : List Instruction) :
    x.followAll address (lines ++ lines') = (x.followAll address lines).followAll address lines' :=
  List.foldl_append

end

end Data

end HackComputer.Machine

namespace HackComputer.Assembly

open Isa Machine

/-- A line that cannot jump. -/
def Instruction.isStraight : Instruction → Bool
  | compute c => c.jump == .never
  | _ => true

namespace Loaded

variable {code : List Instruction} {rom : Array Operation} {address : String → Word}

/-- One line without a jump. -/
theorem steps_line (h : Loaded code rom address) {before : List Instruction} {i : Instruction}
    (hcode : before ++ [i] <+: code) (hi : i.isStraight = true) (x : Data) :
    State.Steps (romLength [i]) (x.state rom (romLength before))
      ((x.follow address i).state rom (romLength (before ++ [i]))) := by
  rw [romLength_append]
  cases i with
  | label name => exact State.Steps.refl rfl
  | load operand => exact step_perform h.size_le (h.getElem?_eq hcode rfl) x rfl
  | compute c =>
      have hnever : c.jump = .never := by simpa [Instruction.isStraight] using hi
      have hmiss : x.jumps (.compute c) = false := by
        show c.jump.holds (x.result c) = false
        rw [hnever, holds_never]
      exact step_perform h.size_le (h.getElem?_eq hcode rfl) x hmiss

/-- **Lines without jumps are followed one by one**, and the machine
comes out behind them. -/
theorem steps_straight (h : Loaded code rom address) {before : List Instruction}
    (lines : List Instruction) (hcode : before ++ lines <+: code)
    (hlines : lines.all Instruction.isStraight = true) (x : Data) :
    State.Steps (romLength lines) (x.state rom (romLength before))
      ((x.followAll address lines).state rom (romLength (before ++ lines))) := by
  induction lines generalizing before x with
  | nil =>
      rw [List.append_nil]
      exact State.Steps.refl rfl
  | cons i lines ih =>
      rw [List.all_cons, Bool.and_eq_true] at hlines
      rw [← List.singleton_append] at hcode ⊢
      have hhead := h.steps_line (isPrefix_left hcode) hlines.1 x
      have htail := ih (isPrefix_right hcode) hlines.2 (x.follow address i)
      rw [romLength_append, ← List.append_assoc]
      exact hhead.trans htail

section
variable {before : List Instruction} {c : Calculation}

/-- A jump that is not taken moves on. -/
theorem steps_jump_missed (h : Loaded code rom address)
    (hcode : before ++ [.compute c] <+: code) (x : Data)
    (hmiss : c.jump.holds (x.result c) = false) :
    State.Steps 1 (x.state rom (romLength before))
      ((x.perform (.compute c)).state rom (romLength (before ++ [.compute c]))) := by
  rw [romLength_append]
  exact step_perform h.size_le (h.getElem?_eq hcode rfl) x hmiss

/-- A jump that is taken goes where `A` points. -/
theorem steps_jump_taken (h : Loaded code rom address)
    (hcode : before ++ [.compute c] <+: code) (x : Data)
    (htake : c.jump.holds (x.result c) = true)
    (hidle : State.isIdle rom c (romLength before).toUInt16 x.a = false) :
    State.Steps 1 (x.state rom (romLength before))
      ((x.perform (.compute c)).state rom x.a.toNat) :=
  steps_jump h.size_le (h.getElem?_eq hcode rfl) x htake hidle

end

end Loaded

end HackComputer.Assembly
