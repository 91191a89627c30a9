import HackComputer.Proofs.Assembly.Reading
import HackComputer.Proofs.Vm.SourceNames
import HackComputer.Vm.Listing

/-!
# `HackComputer.Proofs.Vm.AsmFile`: the assembly file denotes the program

The assembly file of a program shows every block behind a comment with its
source text. Reading the file has to give back the code of the program and
nothing else, whatever stands in those comments.

`Entry.fileLines` is the file line by line, each line with what it holds:
the comment holds nothing, every line of code its instruction, and the
empty line between blocks nothing again. The file is these lines written
one after the other (`toList_asm`), and what they hold is the code
(`filterMap_fileLines`). So it is left to see that each line is read as
what it holds.

* `parse_asm`: if all instructions are expressible, the file is read back.
* `parse_asm_eq_ok_iff`: whatever is read from a text is expressible, so no
  other program is read back from its file.
-/

set_option autoImplicit false

namespace HackComputer.Vm

open Isa Assembly Text

/-! ### The file, line by line -/

/-- The lines of the assembly file for an entry, each with what it holds. -/
def Entry.fileLines (e : Entry) : List (List Char × Option Instruction) :=
  ('/' :: '/' :: ' ' :: e.heading.toList, none)
    :: e.block.code.map (fun i => (i.text.toList, some i)) ++ [([], none)]

namespace Entry

/-- The file lines of an entry are written one after the other. -/
theorem flatMap_fileLines (e : Entry) :
    (e.fileLines.map Prod.fst).flatMap (· ++ ['\n'])
      = ("// " ++ e.heading ++ "\n" ++ Program.asmLines e.block.code ++ "\n").toList := by
  have hcode : (Program.asmLines e.block.code).toList
      = e.block.code.flatMap fun i => i.text.toList ++ ['\n'] := by
    rw [Program.asmLines, String.toList_join, List.flatMap_map]
    simp only [String.toList_append]
    rfl
  simp only [String.toList_append, hcode, fileLines, List.map_cons, List.map_append, List.map_map,
    List.flatMap_cons, List.flatMap_append, List.flatMap_map, List.map_nil, List.flatMap_nil,
    List.cons_append]
  simp

/-- What the file lines of an entry hold is its code. -/
theorem filterMap_fileLines (e : Entry) :
    e.fileLines.filterMap Prod.snd = e.block.code := by
  rw [fileLines, List.filterMap_append, List.filterMap_cons_none rfl, List.filterMap_map]
  show e.block.code.filterMap some ++ [] = e.block.code
  rw [List.filterMap_some, List.append_nil]

/-- Every file line is read as what it holds. -/
theorem parse_fileLine {e : Entry} (hcode : ∀ i ∈ e.block.code, i.isExpressible = true) :
    ∀ l ∈ e.fileLines, Instruction.parse l.1 = .ok l.2 := by
  intro l hl
  rcases List.mem_append.mp hl with hl | hempty
  · rcases List.mem_cons.mp hl with rfl | hinstruction
    · rw [Instruction.parse, uncommented_comment]
      rfl
    · obtain ⟨i, hi, rfl⟩ := List.mem_map.mp hinstruction
      exact Instruction.parse_text (hcode i hi)
  · rw [List.mem_singleton.mp hempty]
    rfl

/-- The comment holds no line feed if the source text holds none, and it
ends with a digit. -/
theorem comment_lineEnd {e : Entry} (htext : '\n' ∉ e.block.text.toList) :
    let comment := '/' :: '/' :: ' ' :: e.heading.toList
    '\n' ∉ comment ∧ comment.getLast? ≠ some '\r' := by
  have hfeed : '\n' ∉ Nat.toDigits 10 e.line := not_mem_toDigits (by decide) e.line
  have hreturn : '\r' ∉ Nat.toDigits 10 e.line := not_mem_toDigits (by decide) e.line
  have hheading : e.heading.toList
      = e.block.text.toList ++ List.replicate (30 - e.block.text.length) ' '
        ++ " | LINE ".toList ++ Nat.toDigits 10 e.line := by
    simp only [heading, padRight, String.toList_append, String.toList_ofList, toList_decimal]
  intro comment
  constructor
  · simp [comment, hheading, htext, hfeed]
  · intro hlast
    have hsplit : comment = ('/' :: '/' :: ' ' :: (e.block.text.toList
        ++ List.replicate (30 - e.block.text.length) ' ' ++ " | LINE ".toList))
          ++ Nat.toDigits 10 e.line := by
      simp only [comment, hheading, List.cons_append]
    rw [hsplit, List.getLast?_append, List.getLast?_eq_some_getLast Nat.toDigits_ne_nil,
      Option.some_or, Option.some.injEq] at hlast
    exact hreturn (hlast ▸ List.getLast_mem Nat.toDigits_ne_nil)

/-- No file line holds a line end. -/
theorem fileLine_lineEnd {e : Entry} (htext : '\n' ∉ e.block.text.toList)
    (hcode : ∀ i ∈ e.block.code, i.isExpressible = true) :
    ∀ l ∈ e.fileLines, '\n' ∉ l.1 ∧ l.1.getLast? ≠ some '\r' := by
  intro l hl
  rcases List.mem_append.mp hl with hl | hempty
  · rcases List.mem_cons.mp hl with rfl | hinstruction
    · exact comment_lineEnd htext
    · obtain ⟨i, hi, rfl⟩ := List.mem_map.mp hinstruction
      exact not_lineEnd_of_plain (Instruction.isPlain_text (hcode i hi))
  · rw [List.mem_singleton.mp hempty]
    exact ⟨by simp, by simp⟩

end Entry

namespace Program

/-- The entries from any line on stand for the blocks. -/
theorem map_block_entriesFrom (line : Nat) (bs : List Block) :
    (entriesFrom line bs).map Entry.block = bs := by
  induction bs generalizing line with
  | nil => rfl
  | cons b bs ih => rw [entriesFrom, List.map_cons, ih]

/-- The entries stand for the blocks. -/
theorem map_block_entries (p : Program) : p.entries.map Entry.block = p.blocks :=
  map_block_entriesFrom 0 p.blocks

/-- The block of an entry is a block of the program. -/
theorem block_mem_of_mem_entries {p : Program} {e : Entry} (he : e ∈ p.entries) :
    e.block ∈ p.blocks := by
  rw [← p.map_block_entries]
  exact List.mem_map_of_mem he

/-- The file is its lines, written one after the other. -/
theorem toList_asm (p : Program) :
    p.asm.toList = ((p.entries.flatMap Entry.fileLines).map Prod.fst).flatMap (· ++ ['\n']) := by
  rw [asm, String.toList_join, List.flatMap_map, List.map_flatMap, List.flatMap_assoc]
  simp only [Entry.flatMap_fileLines]

/-- What the lines of the file hold is the code. -/
theorem filterMap_fileLines (p : Program) :
    (p.entries.flatMap Entry.fileLines).filterMap Prod.snd = p.code := by
  rw [List.filterMap_flatMap]
  simp only [Entry.filterMap_fileLines]
  rw [code, ← p.map_block_entries, List.flatMap_map]

/-- **The file is read back** if all instructions are expressible. -/
theorem parse_asm {p : Program} (htext : ∀ b ∈ p.blocks, '\n' ∉ b.text.toList)
    (hcode : ∀ i ∈ p.code, i.isExpressible = true) :
    Assembly.parse p.asm.toList = .ok p.code := by
  have hblock : ∀ e ∈ p.entries, '\n' ∉ e.block.text.toList ∧
      ∀ i ∈ e.block.code, i.isExpressible = true := by
    intro e he
    have hb := block_mem_of_mem_entries he
    exact ⟨htext _ hb, fun i hi => hcode i (List.mem_flatMap.mpr ⟨_, hb, hi⟩)⟩
  have hlines : lines p.asm.toList = (p.entries.flatMap Entry.fileLines).map Prod.fst := by
    rw [toList_asm]
    apply lines_flatMap
    intro line hline
    obtain ⟨l, hl, rfl⟩ := List.mem_map.mp hline
    obtain ⟨e, he, hl⟩ := List.mem_flatMap.mp hl
    exact Entry.fileLine_lineEnd (hblock e he).1 (hblock e he).2 l hl
  rw [Assembly.parse, readLines_of_lines hlines, filterMap_fileLines]
  intro l hl
  obtain ⟨e, he, hl⟩ := List.mem_flatMap.mp hl
  exact Entry.parse_fileLine (hblock e he).2 l hl

/-- **The assembly file denotes the program** exactly if all instructions
are expressible. Of the source texts in its comments only the line feed
matters: slashes, parentheses, marks and texts of any length are read
past. -/
theorem parse_asm_eq_ok_iff {p : Program} (htext : ∀ b ∈ p.blocks, '\n' ∉ b.text.toList) :
    Assembly.parse p.asm.toList = .ok p.code ↔ ∀ i ∈ p.code, i.isExpressible = true := by
  constructor
  · exact isExpressible_of_mem_parse
  · exact parse_asm htext

/-- A unit whose source texts look like comments, labels and loads. -/
def disguisedUnit : SourceUnit :=
  ⟨"Main", [⟨1, "push constant 7 // (LOOP) @SP and more than thirty characters",
      .push .constant 7⟩,
    ⟨2, "(Main$top.a)", .label "a"⟩, ⟨3, "@16384", .pop .static 3⟩,
    ⟨4, "// D;JLT\r", .arithmetic .lt⟩, ⟨5, "", .call "Main.f" 1⟩]⟩

/-- The texts stand in the file as comments, and reading it back gives the code
alone. -/
theorem parse_asm_of_disguisedUnit :
    let p := compiled (some "Sys.init") [disguisedUnit]
    assemble (some "Sys.init") [disguisedUnit] = .ok p ∧
    (∀ b ∈ p.blocks, '\n' ∉ b.text.toList) ∧ (∀ i ∈ p.code, i.isExpressible = true) ∧
    Assembly.parse p.asm.toList = .ok p.code := by
  intro p
  have htext : ∀ b ∈ p.blocks, '\n' ∉ b.text.toList := by decide
  have hcode : ∀ i ∈ p.code, i.isExpressible = true := List.all_eq_true.mp rfl
  exact ⟨rfl, htext, hcode, (parse_asm_eq_ok_iff htext).mpr hcode⟩

end Program

end HackComputer.Vm
