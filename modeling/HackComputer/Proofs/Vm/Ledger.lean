import HackComputer.Vm.Program

/-!
# `HackComputer.Proofs.Vm.Ledger`: a program as two growing sequences

A `Program` is a list of blocks, each with its code. It can also be kept the
way a file is written: all the code in one sequence, and beside it a sequence
of records that say where the code of each source line starts and how long it
is. The code of a line is then cut out of the whole, and that goes wrong if a
record points beyond the end.

`Ledger.assemble` makes a program in this form. It walks through the units on
its own, and shares with `Program.assemble` only what a single command is
compiled to. Both forms agree:

* `Ledger.assemble_eq`: the two fail alike, and where they succeed the ledger
  is the one that the blocks give when they are entered one by one.
* `Ledger.toList_code_ofBlocks`, `Ledger.toList_records_ofBlocks`: what such a
  ledger holds, in terms of the blocks.
-/

set_option autoImplicit false

namespace HackComputer.Vm

open Isa Assembly Code

/-- A line of the source, and where its code stands. -/
structure Record where
  /-- There is none for the start of the machine. -/
  unit : Option String
  row : Nat
  text : String
  /-- The number of lines of code before those of this record. -/
  line : Nat
  /-- The number of lines of code. -/
  length : Nat
  deriving DecidableEq, Repr

/-- What the entry of a block says. -/
def Entry.record (e : Entry) : Record :=
  ⟨e.block.unit, e.block.row, e.block.text, e.line, e.length⟩

/-- The code of a program, and a record for each of its parts. -/
structure Ledger where
  code : Array Instruction := #[]
  records : Array Record := #[]

namespace Ledger

/-- Enters the code of a source line. It starts where the code so far
ends. -/
def emit (l : Ledger) (unit : Option String) (row : Nat) (text : String) (code : Lines) :
    Ledger where
  records := l.records.push ⟨unit, row, text, l.code.size, code.length⟩
  code := l.code ++ code.toArray

/-- The lines of code from one up to another, if there are so many. -/
def slice? (code : Array Instruction) (first last : Nat) : Option Lines :=
  if first ≤ last ∧ last ≤ code.size then some (code.extract first last).toList else none

/-- Every record with the code that it speaks of, if none of them points
beyond the end. -/
def blocks? (l : Ledger) : Option (List (Record × Lines)) :=
  l.records.toList.mapM fun r => (slice? l.code r.line (r.line + r.length)).map (r, ·)

/-! ### Assembling -/

/-- How far assembling has come. -/
structure Draft where
  supply : LabelSupply := {}
  ledger : Ledger := {}

/-- Enters the code that starts the machine and calls `entryPoint`. -/
def addBootstrap (entryPoint : String) (draft : Draft) : Except Error Draft :=
  match Frame.bootstrap entryPoint draft.supply with
  | .ok (code, supply) => .ok ⟨supply, draft.ledger.emit none 0 Program.bootstrapText code⟩
  | .error fault =>
      .error (.located ⟨Program.bootstrapText, 0, "call " ++ entryPoint ++ " 0"⟩ (.fault fault))

/-- The context that a command is compiled in, behind lines that leave a
context. -/
def contextAt (context : Context) : Command → Context
  | .function name _ => { context with function := some name }
  | _ => context

/-- Enters the code of one line of a unit. A line that starts a function
changes the context before it is compiled. -/
def addLine (state : Context × Draft) (line : Line) : Except Error (Context × Draft) :=
  let (context, draft) := state
  let context := contextAt context line.command
  match line.command.compile context draft.supply with
  | .ok (code, supply) =>
      .ok (context, ⟨supply, draft.ledger.emit (some context.unit) line.row line.text code⟩)
  | .error fault => .error (.located ⟨context.unit, line.row, line.text⟩ (.fault fault))

/-- Enters the code of a unit, at whose start no function is open. -/
def addUnit (draft : Draft) (unit : SourceUnit) : Except Error Draft := do
  let (_, draft) ← unit.lines.foldlM addLine (⟨unit.name, none⟩, draft)
  return draft

/-- Compiles units into one ledger, first in it the call of `entryPoint?` if
there is one. -/
def assemble (entryPoint? : Option String) (units : List SourceUnit) : Except Error Ledger := do
  let start ← match entryPoint? with
    | some entryPoint => addBootstrap entryPoint {}
    | none => .ok {}
  let draft ← units.foldlM addUnit start
  return draft.ledger

/-! ### Entering blocks one by one -/

/-- Enters a block. -/
def enter (l : Ledger) (b : Block) : Ledger :=
  l.emit b.unit b.row b.text b.code

/-- The ledger of a list of blocks. -/
def ofBlocks (bs : List Block) : Ledger :=
  bs.foldl enter {}

/-- One more block is entered last. -/
theorem ofBlocks_concat (bs : List Block) (b : Block) :
    ofBlocks (bs ++ [b]) = (ofBlocks bs).enter b := by
  rw [ofBlocks, List.foldl_append]
  rfl

/-- Blocks that are entered add their code at the end. -/
theorem toList_code_foldl (bs : List Block) (l : Ledger) :
    (bs.foldl enter l).code.toList = l.code.toList ++ bs.flatMap Block.code := by
  induction bs generalizing l with
  | nil => simp
  | cons b bs ih => simp [ih, enter, emit]

/-- Blocks that are entered add the records of their entries, which count on
from the code that is there. -/
theorem toList_records_foldl (bs : List Block) (l : Ledger) :
    (bs.foldl enter l).records.toList
      = l.records.toList ++ (Program.entriesFrom l.code.size bs).map Entry.record := by
  -- The ledger is general: its length of code is what the entries start to count from.
  induction bs generalizing l with
  | nil => simp [Program.entriesFrom]
  | cons b bs ih => simp [ih, enter, emit, Program.entriesFrom, Entry.record, Entry.length]

/-- The code of a ledger of blocks is their code, one after the other. -/
theorem toList_code_ofBlocks (p : Program) : (ofBlocks p.blocks).code.toList = p.code :=
  toList_code_foldl p.blocks {}

/-- The records of a ledger of blocks say what the entries say. -/
theorem toList_records_ofBlocks (p : Program) :
    (ofBlocks p.blocks).records.toList = p.entries.map Entry.record :=
  toList_records_foldl p.blocks {}

/-! ### Both forms agree -/

/-- A fold that may fail goes through a view of its states if every step
does. -/
theorem foldlM_view {ε σ τ α : Type} {view : σ → τ} {f : σ → α → Except ε σ}
    {g : τ → α → Except ε τ} (h : ∀ s a, g (view s) a = (f s a).map view) (as : List α) (s : σ) :
    as.foldlM g (view s) = (as.foldlM f s).map view := by
  induction as generalizing s with
  | nil => rfl
  | cons a as ih =>
      rw [List.foldlM_cons, List.foldlM_cons, h]
      cases f s a with
      | error err => rfl
      | ok s' => exact ih s'

/-- What has been assembled so far, as a ledger. -/
def draftOf (progress : Program.Progress) : Draft :=
  ⟨progress.supply, ofBlocks progress.blocks.toList⟩

/-- The state between two lines of a unit, with a ledger. -/
def stateOf (unit : String) (state : Option String × Program.Progress) : Context × Draft :=
  (⟨unit, state.1⟩, draftOf state.2)

/-- A block that is pushed is a block that is entered. -/
theorem draftOf_push (supply : LabelSupply) (blocks : Array Block) (b : Block) :
    draftOf ⟨supply, blocks.push b⟩ = ⟨supply, (ofBlocks blocks.toList).enter b⟩ := by
  rw [draftOf, Array.toList_push, ofBlocks_concat]

/-- The two walks find a line in the same function. -/
theorem contextAt_eq (unit : String) (current : Option String) (c : Command) :
    contextAt ⟨unit, current⟩ c = ⟨unit, Program.functionAt current c⟩ := by
  cases c <;> rfl

/-- A line adds the same to both. -/
theorem addLine_stateOf (unit : String) (state : Option String × Program.Progress) (line : Line) :
    addLine (stateOf unit state) line
      = (Program.addLine unit state line).map (stateOf unit) := by
  simp only [addLine, stateOf, contextAt_eq, Program.addLine]
  -- Both compile the line in one context and with one supply, so one split decides both.
  rw [show (draftOf state.2).supply = state.2.supply from rfl]
  cases line.command.compile ⟨unit, Program.functionAt state.1 line.command⟩ state.2.supply with
  | error fault => rfl
  | ok compiled =>
      show Except.ok (_, _) = Except.ok (_, draftOf ⟨compiled.2, state.2.blocks.push _⟩)
      rw [draftOf_push]
      rfl

/-- A unit adds the same to both. -/
theorem addUnit_draftOf (progress : Program.Progress) (unit : SourceUnit) :
    addUnit (draftOf progress) unit = (Program.addUnit progress unit).map draftOf := by
  have hlines := foldlM_view (addLine_stateOf unit.name) unit.lines (none, progress)
  rw [addUnit, Program.addUnit]
  rw [show (⟨unit.name, none⟩, draftOf progress) = stateOf unit.name (none, progress) from rfl,
    hlines]
  cases unit.lines.foldlM (Program.addLine unit.name) (none, progress) <;> rfl

/-- The start of the machine adds the same to both. -/
theorem addBootstrap_draftOf (entryPoint : String) (progress : Program.Progress) :
    addBootstrap entryPoint (draftOf progress)
      = (Program.addBootstrap entryPoint progress).map draftOf := by
  simp only [addBootstrap, Program.addBootstrap]
  rw [show (draftOf progress).supply = progress.supply from rfl]
  cases Frame.bootstrap entryPoint progress.supply with
  | error fault => rfl
  | ok compiled =>
      show Except.ok _ = Except.ok (draftOf ⟨compiled.2, progress.blocks.push _⟩)
      rw [draftOf_push]
      rfl

/-- **Assembling into a ledger is assembling into blocks**, which are then
entered one by one. -/
theorem assemble_eq (entryPoint? : Option String) (units : List SourceUnit) :
    assemble entryPoint? units
      = (Program.assemble entryPoint? units).map fun p => ofBlocks p.blocks := by
  have hunits (progress : Program.Progress) :
      (units.foldlM addUnit (draftOf progress) >>= fun draft => pure draft.ledger)
        = (units.foldlM Program.addUnit progress >>= fun progress =>
            pure (⟨progress.blocks.toList⟩ : Program)).map fun p => ofBlocks p.blocks := by
    rw [foldlM_view addUnit_draftOf]
    cases units.foldlM Program.addUnit progress <;> rfl
  cases entryPoint? with
  | none => exact hunits {}
  | some entryPoint =>
      show (addBootstrap entryPoint (draftOf {}) >>= fun start =>
          units.foldlM addUnit start >>= fun draft => pure draft.ledger)
        = (Program.addBootstrap entryPoint {} >>= fun start =>
            units.foldlM Program.addUnit start >>= fun progress =>
              pure (⟨progress.blocks.toList⟩ : Program)).map fun p => ofBlocks p.blocks
      rw [addBootstrap_draftOf]
      cases Program.addBootstrap entryPoint {} with
      | error err => rfl
      | ok start => exact hunits start

end Ledger

end HackComputer.Vm
