import HackComputer.Proofs.FirstFailure
import HackComputer.Proofs.Vm.AsmFile
import HackComputer.Proofs.Vm.Ledger
import HackComputer.Proofs.Vm.Origin

/-!
# `HackComputer.Proofs.Vm.Tiling`: entries cover the code, line by line of the source

The entries of a program say which lines of the code belong to which line of
the source. The assembly file, the summary and the listing all rely on them.
Two things have to be right for that, and they are independent:

* The entries cut the code into pieces without gaps or overlaps. This holds
  for every list of blocks (`Program.tiles_entries`), since the line of an
  entry is the length of the blocks before it (`getElem?_entries`).
* The pieces are what the source lines compile to, in order. Here assembling
  threads two things through its walk. The current function is forgotten at
  the end of a unit, so it can be read off the lines of one unit alone
  (`lineOrigins_eq`). The label supply is never forgotten, so each block goes
  on where the block before it stopped (`Emits.exists_supplies`).

`Program.entries_of_assemble` puts them together, and says the same of the
ledger, in which the code is one sequence: none of its records points beyond
the end, and what is cut out for a record is the code of its block
(`Ledger.blocks?_ofBlocks`).
-/

set_option autoImplicit false

namespace HackComputer.Vm

open Isa Assembly Code

/-! ### Pieces of the code -/

/-- The lines of the code that the entry speaks of. -/
def Entry.slice (code : Lines) (e : Entry) : Lines :=
  (code.drop e.line).take e.length

/-- The entries cut the code into pieces, in order. -/
structure Tiles (entries : List Entry) (code : Lines) : Prop where
  /-- The first entry starts with the code. -/
  first : ∀ e, entries[0]? = some e → e.line = 0
  /-- Every other entry starts where the one before it ends. -/
  next : ∀ (i : Nat) e e', entries[i]? = some e → entries[i + 1]? = some e' →
    e'.line = e.line + e.length
  /-- The last entry ends with the code. -/
  last : ∀ e, entries.getLast? = some e → e.line + e.length = code.length
  /-- No entry reaches beyond the code. -/
  inside : ∀ e ∈ entries, e.line + e.length ≤ code.length
  /-- The code in an entry's range is that of its block. -/
  slice_eq : ∀ e ∈ entries, e.slice code = e.block.code
  /-- The pieces make up the code. -/
  flatten_slices : (entries.map (Entry.slice code)).flatten = code

namespace Program

/-- An entry stands behind the blocks before it. -/
theorem getElem?_entriesFrom (line : Nat) (bs : List Block) (i : Nat) :
    (entriesFrom line bs)[i]?
      = bs[i]?.map fun b => ⟨b, line + ((bs.take i).flatMap Block.code).length⟩ := by
  induction bs generalizing line i with
  | nil => rfl
  | cons b bs ih =>
      cases i with
      | zero => rfl
      | succ i =>
          rw [entriesFrom, List.getElem?_cons_succ, List.getElem?_cons_succ, ih]
          simp [Nat.add_assoc]

section
variable {p : Program}

/-- The line of an entry is the length of the blocks before it. -/
theorem getElem?_entries {i : Nat} {e : Entry} (h : p.entries[i]? = some e) :
    p.blocks[i]? = some e.block ∧ e.line = ((p.blocks.take i).flatMap Block.code).length := by
  rw [entries, getElem?_entriesFrom, Option.map_eq_some_iff] at h
  obtain ⟨b, hb, rfl⟩ := h
  exact ⟨hb, Nat.zero_add _⟩

/-- Where an entry ends is the length of the blocks up to its own. -/
theorem end_of_entry {i : Nat} {e : Entry} (h : p.entries[i]? = some e) :
    e.line + e.length = ((p.blocks.take (i + 1)).flatMap Block.code).length := by
  obtain ⟨hb, hline⟩ := getElem?_entries h
  rw [List.take_add_one, hb, hline, Entry.length]
  simp

/-- The code before, in and behind the block of an entry. -/
theorem code_eq_of_entry {i : Nat} {e : Entry} (h : p.entries[i]? = some e) :
    p.code = (p.blocks.take i).flatMap Block.code
      ++ (e.block.code ++ (p.blocks.drop (i + 1)).flatMap Block.code) := by
  obtain ⟨hi, hb⟩ := List.getElem?_eq_some_iff.mp (getElem?_entries h).1
  have hsplit : p.blocks = p.blocks.take i ++ e.block :: p.blocks.drop (i + 1) := by
    rw [← hb, List.getElem_cons_drop, List.take_append_drop]
  calc p.code = (p.blocks.take i ++ e.block :: p.blocks.drop (i + 1)).flatMap Block.code := by
        rw [← hsplit]; rfl
    _ = _ := by rw [List.flatMap_append, List.flatMap_cons]

/-- An entry's range in the code holds the code of its block. -/
theorem slice_of_entry {i : Nat} {e : Entry} (h : p.entries[i]? = some e) :
    e.slice p.code = e.block.code := by
  rw [Entry.slice, code_eq_of_entry h, (getElem?_entries h).2, List.drop_left, Entry.length,
    List.take_left]

end

/-- **The entries of any program cut its code into pieces.** -/
theorem tiles_entries (p : Program) : Tiles p.entries p.code := by
  have hslice : ∀ e ∈ p.entries, e.slice p.code = e.block.code := by
    intro e he
    obtain ⟨i, hi⟩ := List.getElem?_of_mem he
    exact slice_of_entry hi
  refine ⟨?_, ?_, ?_, ?_, hslice, ?_⟩
  · intro e he
    exact (getElem?_entries he).2
  · intro i e e' he he'
    rw [end_of_entry he]
    exact (getElem?_entries he').2
  · intro e he
    rw [List.getLast?_eq_getElem?] at he
    -- Behind the last entry there are no blocks left.
    have hall : p.blocks.length ≤ p.entries.length - 1 + 1 := by
      have hlength := congrArg List.length p.map_block_entries
      rw [List.length_map] at hlength
      omega
    rw [end_of_entry he, List.take_of_length_le hall]
    rfl
  · intro e he
    obtain ⟨i, hi⟩ := List.getElem?_of_mem he
    rw [code_eq_of_entry hi, List.length_append, List.length_append, (getElem?_entries hi).2,
      Entry.length]
    omega
  · rw [List.map_congr_left hslice, ← List.flatMap_def, code, ← p.map_block_entries,
      List.flatMap_map]

end Program

/-! ### Cutting the code of a ledger -/

namespace Ledger

/-- A range inside the code is cut out of it. -/
theorem slice?_of_le {code : Array Instruction} {e : Entry}
    (h : e.line + e.length ≤ code.size) :
    slice? code e.line (e.line + e.length) = some (e.slice code.toList) := by
  rw [slice?, if_pos ⟨Nat.le_add_right _ _, h⟩, Array.toList_extract, List.extract_eq_take_drop,
    Nat.add_sub_cancel_left]
  rfl

/-- The records of a ledger of blocks never point beyond its code, and cut it
into the pieces of the entries. -/
theorem blocks?_ofBlocks (p : Program) :
    (ofBlocks p.blocks).blocks? = some (p.entries.map fun e => (e.record, e.slice p.code)) := by
  have hcut : ∀ e ∈ p.entries,
      slice? (ofBlocks p.blocks).code e.line (e.line + e.length) = some (e.slice p.code) := by
    intro e he
    have hsize : (ofBlocks p.blocks).code.size = p.code.length := by
      rw [← Array.length_toList, toList_code_ofBlocks]
    rw [slice?_of_le (hsize ▸ p.tiles_entries.inside e he), toList_code_ofBlocks]
  rw [blocks?, toList_records_ofBlocks, mapM_eq_some_iff, List.forall₂_map_left_iff,
    List.forall₂_map_right_iff, List.forall₂_same]
  intro e he
  show (slice? _ e.line (e.line + e.length)).map _ = _
  rw [hcut e he]
  rfl

end Ledger

namespace Program

/-! ### The function that a line belongs to -/

/-- The function that a command starts. -/
def functionName? : Command → Option String
  | .function name _ => some name
  | _ => none

/-- The function that line `i` belongs to: the name in the nearest `function`
command at or before it. -/
def enclosingFunction? (lines : List Line) (i : Nat) : Option String :=
  ((lines.take (i + 1)).filterMap fun l => functionName? l.command).getLast?

/-- A first line counts for the lines behind it if none of them starts a
function. -/
theorem enclosingFunction?_cons_succ (l : Line) (lines : List Line) (i : Nat) :
    enclosingFunction? (l :: lines) (i + 1)
      = (enclosingFunction? lines i).or (functionName? l.command) := by
  rw [enclosingFunction?, List.take_succ_cons, List.filterMap_cons, enclosingFunction?]
  cases functionName? l.command with
  | none => simp
  | some name =>
      rw [List.getLast?_cons]
      cases ((lines.take (i + 1)).filterMap fun l => functionName? l.command).getLast? <;> rfl

/-- The walk keeps the function of the nearest command that starts one. -/
theorem functionAt_eq (current : Option String) (c : Command) :
    functionAt current c = (functionName? c).or current := by
  cases c <;> rfl

/-- The lines of a unit in their contexts, without the walk. -/
theorem lineOrigins_eq (unit : String) (current : Option String) (lines : List Line) :
    lineOrigins unit current lines
      = lines.mapIdx fun i l => .line ⟨unit, (enclosingFunction? lines i).or current⟩ l := by
  induction lines generalizing current with
  | nil => rfl
  | cons l lines ih =>
      have hhead : enclosingFunction? (l :: lines) 0 = functionName? l.command := by
        rw [enclosingFunction?]
        cases h : functionName? l.command <;> simp [h]
      rw [lineOrigins, ih, List.mapIdx_cons, functionAt_eq, hhead]
      simp only [enclosingFunction?_cons_succ, Option.or_assoc]

/-- What the entries of a program stand for: the start of the machine if it is
asked for, and every line of every unit. -/
def sources (entryPoint? : Option String) (units : List SourceUnit) : List Origin :=
  (entryPoint?.map Origin.start).toList ++ units.flatMap fun unit =>
    unit.lines.mapIdx fun i l => .line ⟨unit.name, enclosingFunction? unit.lines i⟩ l

/-- Walking and looking back find the same. -/
theorem origins_eq_sources (entryPoint? : Option String) (units : List SourceUnit) :
    origins entryPoint? units = sources entryPoint? units := by
  simp only [origins, sources, lineOrigins_eq, Option.or_none]

/-! ### The supply along the blocks -/

/-- The label supply before each block, and behind the last one: every block
takes its labels from what the block before it has left. -/
theorem Emits.exists_supplies {supply supply' : LabelSupply} {os : List Origin} {bs : List Block}
    (h : Emits supply os bs supply') :
    ∃ supplies : Nat → LabelSupply, supplies 0 = supply ∧
      ∀ (i : Nat) o, os[i]? = some o → ∃ code, bs[i]? = some (o.block code) ∧
        o.compile (supplies i) = .ok (code, supplies (i + 1)) := by
  induction h with
  | nil supply =>
      refine ⟨fun _ => supply, rfl, ?_⟩
      intro i o ho
      cases ho
  | @cons supply _ _ origin _ code _ hcode _ ih =>
      obtain ⟨supplies, hfirst, hblocks⟩ := ih
      refine ⟨fun i => if i = 0 then supply else supplies (i - 1), rfl, ?_⟩
      intro i o ho
      cases i with
      | zero =>
          cases ho
          refine ⟨code, rfl, ?_⟩
          show origin.compile supply = .ok (code, supplies 0)
          rw [hfirst, hcode]
      | succ i => exact hblocks i o ho

end Program

/-! ### Assembled programs -/

/-- The line of the source that a block belongs to: its unit, its row and its
text. -/
def Block.sourceLine (b : Block) : Option String × Nat × String :=
  (b.unit, b.row, b.text)

/-- The line of the source that an origin is. -/
def Origin.sourceLine : Origin → Option String × Nat × String
  | start _ => (none, 0, "BOOTSTRAP")
  | line context l => (some context.unit, l.row, l.text)

/-- A block keeps the line of the source that its origin is. -/
@[simp] theorem Origin.sourceLine_block (o : Origin) (code : Lines) :
    (o.block code).sourceLine = o.sourceLine := by
  cases o <;> rfl

namespace Program

/-- Blocks keep the lines of the source that they come from. -/
theorem Emits.map_sourceLine {supply supply' : LabelSupply} {os : List Origin} {bs : List Block}
    (h : Emits supply os bs supply') : bs.map Block.sourceLine = os.map Origin.sourceLine := by
  induction h with
  | nil supply => rfl
  | cons _ _ ih => simp [ih]

/-- The lines of the source, in order. -/
theorem map_sourceLine_sources (entryPoint? : Option String) (units : List SourceUnit) :
    (sources entryPoint? units).map Origin.sourceLine
      = (entryPoint?.map fun _ => (none, 0, "BOOTSTRAP")).toList
        ++ units.flatMap fun unit => unit.lines.map fun l => (some unit.name, l.row, l.text) := by
  have hstart : ((entryPoint?.map Origin.start).toList).map Origin.sourceLine
      = (entryPoint?.map fun _ => (none, 0, "BOOTSTRAP")).toList := by
    cases entryPoint? <;> rfl
  have hline (unit : SourceUnit) :
      (unit.lines.mapIdx fun i l =>
        Origin.line ⟨unit.name, enclosingFunction? unit.lines i⟩ l).map Origin.sourceLine
          = unit.lines.map fun l => (some unit.name, l.row, l.text) := by
    apply List.ext_getElem?
    intro i
    simp [Function.comp_def, Origin.sourceLine]
  simp only [sources, List.map_append, hstart, List.map_flatMap, hline]

/-- **The entries of an assembled program** are those of its source, in order:
one for the start of the machine if it is asked for, then one for each line.
They cut the code into pieces. Each piece is what its line compiles to, in the
unit and the function that the line stands in, with labels from what all pieces
before it have left of one supply. A ledger that is kept on the way has this
code and these entries, and every piece can be cut out of it. -/
theorem entries_of_assemble {entryPoint? : Option String} {units : List SourceUnit} {p : Program}
    (h : assemble entryPoint? units = .ok p) :
    p.entries.map (fun e => e.block.sourceLine)
      = (entryPoint?.map fun _ => (none, 0, "BOOTSTRAP")).toList
        ++ units.flatMap (fun unit => unit.lines.map fun l => (some unit.name, l.row, l.text)) ∧
    Tiles p.entries p.code ∧
    (∃ supplies : Nat → LabelSupply, supplies 0 = {} ∧
      ∀ (i : Nat) e, p.entries[i]? = some e → ∃ o, (sources entryPoint? units)[i]? = some o ∧
        o.compile (supplies i) = .ok (e.slice p.code, supplies (i + 1))) ∧
    ∃ ledger, Ledger.assemble entryPoint? units = .ok ledger ∧
      ledger.code.toList = p.code ∧ ledger.records.toList = p.entries.map Entry.record ∧
      ledger.blocks? = some (p.entries.map fun e => (e.record, e.slice p.code)) := by
  obtain ⟨supply, hemits⟩ := assemble_emits h
  rw [origins_eq_sources] at hemits
  refine ⟨?_, tiles_entries p, ?_, Ledger.ofBlocks p.blocks, ?_, Ledger.toList_code_ofBlocks p,
    Ledger.toList_records_ofBlocks p, Ledger.blocks?_ofBlocks p⟩
  · rw [← map_sourceLine_sources, ← hemits.map_sourceLine, ← p.map_block_entries, List.map_map]
    rfl
  · obtain ⟨supplies, hfirst, hblocks⟩ := hemits.exists_supplies
    refine ⟨supplies, hfirst, ?_⟩
    intro i e he
    have hblock := (getElem?_entries he).1
    -- There are as many origins as blocks, so the entry has one.
    have hi : i < (sources entryPoint? units).length := by
      rw [← hemits.length_eq]
      exact (List.getElem?_eq_some_iff.mp hblock).1
    obtain ⟨code, hcode, hcompile⟩ := hblocks i _ (List.getElem?_eq_getElem hi)
    refine ⟨_, List.getElem?_eq_getElem hi, ?_⟩
    rw [hblock, Option.some.injEq] at hcode
    rw [slice_of_entry he, hcode, Origin.code_block, hcompile]
  · rw [Ledger.assemble_eq, h]
    rfl

/-- Two units with labels before and inside a function, and an empty unit
between them. -/
def steppingUnits : List SourceUnit :=
  [⟨"A", [⟨1, "label X", .label "X"⟩, ⟨3, "function A.f 1", .function "A.f" 1⟩,
      ⟨4, "eq", .arithmetic .eq⟩, ⟨5, "label X", .label "X"⟩]⟩,
    ⟨"B", []⟩,
    ⟨"C", [⟨1, "label X", .label "X"⟩, ⟨2, "call A.f 0", .call "A.f" 0⟩,
      ⟨7, "function C.g 0", .function "C.g" 0⟩, ⟨8, "lt", .arithmetic .lt⟩]⟩]

/-- Their entries, and the ledger that is kept on the way. -/
theorem entries_of_steppingUnits :
    let p := compiled (some "A.f") steppingUnits
    assemble (some "A.f") steppingUnits = .ok p ∧
    p.entries.map Entry.line = [0, 54, 55, 72, 84, 85, 86, 136, 137] ∧ p.code.length = 149 ∧
    Tiles p.entries p.code ∧
    (∃ supplies : Nat → LabelSupply, supplies 0 = {} ∧
      ∀ (i : Nat) e, p.entries[i]? = some e →
        ∃ o, (sources (some "A.f") steppingUnits)[i]? = some o ∧
          o.compile (supplies i) = .ok (e.slice p.code, supplies (i + 1))) ∧
    ∃ ledger, Ledger.assemble (some "A.f") steppingUnits = .ok ledger ∧
      ledger.code.toList = p.code ∧ ledger.records.toList = p.entries.map Entry.record ∧
      ledger.blocks? = some (p.entries.map fun e => (e.record, e.slice p.code)) := by
  intro p
  have hassemble : assemble (some "A.f") steppingUnits = .ok p := rfl
  obtain ⟨-, htiles, hsupplies, hledger⟩ := entries_of_assemble hassemble
  exact ⟨hassemble, rfl, rfl, htiles, hsupplies, hledger⟩

end Program

end HackComputer.Vm
