import HackComputer.Assembly.Source
import HackComputer.Proofs.Assembly.Grammar

/-!
# `HackComputer.Proofs.Assembly.Reading`: assembly that is read as it was written

Not every instruction can be written down. A literal that is too large has
no notation, nor has a name with a character that names cannot hold; what
is left is `Instruction.isSpellable`. A symbol that is called like a
register can be written, but comes back as the register, so only an
`Instruction.isExpressible` one is read as it was written.

* `Instruction.written_text`: the text of an expressible instruction
  stands for it.
* `Instruction.parse_text`: so it is read back from its text.
* `Instruction.isExpressible_of_parse`: whatever is read is expressible.
* `Instruction.parse_text_iff`: the two together for single lines.
* `readLines_of_lines`: a whole text is read line by line, and lines that
  hold nothing leave no trace.
* `readLines_cases`: all that can come of reading a text.
* `parse_lines`, `isExpressible_of_mem_parse`: the two together for whole
  programs.

The characters carry the step from the grammar to the line: the text of an
expressible instruction holds neither slashes nor blanks, so looking for a
comment and dropping blanks changes nothing.
-/

set_option autoImplicit false

namespace HackComputer.Assembly

open Isa Text

/-! ### Names and numbers -/

/-- Names are made of plain characters. -/
theorem isPlain_of_isSymbolChar {c : Char} (h : isSymbolChar c = true) : isPlain c = true := by
  delta isSymbolChar Char.isAlphanum Char.isAlpha Char.isUpper Char.isLower Char.isDigit at h
  simp only [Bool.or_eq_true, Bool.and_eq_true, decide_eq_true_eq, List.contains_iff_mem] at h
  have hmarks : ['_', '.', '$', ':'].all isPlain = true := rfl
  rcases h with h | h
  · have hslash : c ≠ '/' := by
      rintro rfl
      revert h
      decide
    simp only [UInt32.le_iff_toNat_le, ge_iff_le] at h
    simp only [isPlain, isBlank, Bool.and_eq_true, bne_iff_ne, hslash, ne_eq, not_false_eq_true,
      true_and, Bool.not_eq_true', Char.toNat]
    simp at h ⊢
    omega
  · exact List.all_eq_true.mp hmarks c h

/-- A symbol is made of symbol characters only. -/
theorem isSymbolChar_of_isSymbol {cs : List Char} (h : isSymbol cs = true) :
    ∀ c ∈ cs, isSymbolChar c = true := by
  cases cs with
  | nil => cases h
  | cons c cs =>
      simp only [isSymbol, Bool.and_eq_true, List.all_eq_true] at h
      exact h.2

/-- Digits are among the characters of names. -/
theorem isSymbolChar_of_isDigit {c : Char} (h : c.isDigit = true) : isSymbolChar c = true := by
  simp [isSymbolChar, Char.isAlphanum, h]

/-! ### Expressible instructions -/

/-- The operand has a notation. -/
def Operand.isSpellable : Operand → Bool
  | literal value => value ≤ maxImmediate
  | register _ => true
  | symbol name => isSymbol name.toList

/-- The operand has a notation that stands for no other operand. -/
def Operand.isExpressible : Operand → Bool
  | symbol name => isSymbol name.toList && (Register.ofName? name).isNone
  | operand => operand.isSpellable

/-- The instruction has a notation. -/
def Instruction.isSpellable : Instruction → Bool
  | load operand => operand.isSpellable
  | compute _ => true
  | label name => isSymbol name.toList

/-- The instruction has a notation that stands for no other instruction. -/
def Instruction.isExpressible : Instruction → Bool
  | load operand => operand.isExpressible
  | instruction => instruction.isSpellable

namespace Operand

/-- The text of an expressible operand stands for it. -/
theorem written_text {operand : Operand} (h : operand.isExpressible = true) :
    operand.Written operand.text.toList := by
  cases operand with
  | literal value =>
      obtain ⟨hsome, hdigits, hvalue⟩ :=
        (decimal?_eq_some_iff _ _).mp (decimal?_toDigits value.toNat)
      rw [text, toList_decimal]
      exact .literal hsome hdigits hvalue (by simpa [isExpressible, isSpellable] using h)
  | register r => exact .register r
  | symbol name =>
      simp only [isExpressible, Bool.and_eq_true, Option.isNone_iff_eq_none] at h
      refine .symbol h.1 ?_
      intro r hr
      rw [(Register.ofName?_eq_some_iff name r).mpr hr] at h
      cases h.2

/-- What a text stands for is expressible. -/
theorem Written.isExpressible {cs : List Char} {operand : Operand} (h : operand.Written cs) :
    operand.isExpressible = true := by
  cases h with
  | literal hsome hdigits hvalue hmax => exact decide_eq_true hmax
  | register r => rfl
  | @symbol name hname hfree =>
      rw [Operand.isExpressible, Bool.and_eq_true, Option.isNone_iff_eq_none,
        Option.eq_none_iff_forall_ne_some]
      exact ⟨hname, fun r hr => hfree r ((Register.ofName?_eq_some_iff name r).mp hr)⟩

/-- The text of an operand is plain. -/
theorem isPlain_text {operand : Operand} (h : operand.isExpressible = true) :
    ∀ c ∈ operand.text.toList, isPlain c = true := by
  cases operand with
  | literal value =>
      intro c hc
      rw [text, toList_decimal] at hc
      have hdigit := Nat.isDigit_of_mem_toDigits (by decide) (by decide) hc
      exact isPlain_of_isSymbolChar (isSymbolChar_of_isDigit hdigit)
  | register r => cases r <;> exact List.all_eq_true.mp rfl
  | symbol name =>
      intro c hc
      simp only [isExpressible, Bool.and_eq_true] at h
      exact isPlain_of_isSymbolChar (isSymbolChar_of_isSymbol h.1 c hc)

end Operand

namespace Instruction

/-- The text of a calculation, field by field. -/
theorem toList_text_calculation (c : Calculation) :
    c.text.toList = ((if c.dest = .none then "" else c.dest.text ++ "=").toList
      ++ c.comp.text.toList) ++ (if c.jump = .never then "" else ";" ++ c.jump.text).toList := by
  simp only [Calculation.text, Calculation.layout, id, String.toList_append]

/-- The text of a calculation stands for it. -/
theorem written_text_calculation (c : Calculation) : Written c.text.toList (.compute c) := by
  rw [toList_text_calculation]
  refine .compute ?_ ?_ ?_
  · by_cases hnone : c.dest = .none
    · rw [if_pos hnone, hnone]
      exact .omitted
    · rw [if_neg hnone, String.toList_append]
      exact .given (List.Perm.refl _)
  · rw [String.ofList_toList]
    exact List.mem_cons_self
  · by_cases hnever : c.jump = .never
    · rw [if_pos hnever, hnever]
      exact .omitted
    · rw [if_neg hnever, String.toList_append]
      exact .given c.jump

/-- The text of an expressible instruction stands for it. -/
theorem written_text {i : Instruction} (h : i.isExpressible = true) :
    Written i.text.toList i := by
  cases i with
  | load operand =>
      rw [text, String.toList_append]
      exact .load (Operand.written_text h)
  | compute c => exact written_text_calculation c
  | label name =>
      rw [text, String.toList_append, String.toList_append, List.append_assoc]
      exact .label h

/-- The text of an instruction is plain. -/
theorem isPlain_text {i : Instruction} (h : i.isExpressible = true) :
    ∀ c ∈ i.text.toList, isPlain c = true := by
  intro c hc
  cases i with
  | load operand =>
      rw [text, String.toList_append, List.mem_append] at hc
      rcases hc with hmark | hc
      · rw [List.mem_singleton.mp hmark]
        decide
      · exact Operand.isPlain_text h c hc
  | compute calculation =>
      rcases (written_text_calculation calculation).mem_compute hc with hfield | rfl | rfl
      · exact (plain_of_mem_fieldChars hfield).1
      · decide
      · decide
  | label name =>
      rw [text, String.toList_append, String.toList_append, List.mem_append, List.mem_append] at hc
      rcases hc with (hmark | hc) | hmark
      · rw [List.mem_singleton.mp hmark]
        decide
      · exact isPlain_of_isSymbolChar (isSymbolChar_of_isSymbol h c hc)
      · rw [List.mem_singleton.mp hmark]
        decide

/-- **An expressible instruction is read back from its text.** -/
theorem parse_text {i : Instruction} (h : i.isExpressible = true) :
    parse i.text.toList = .ok (some i) := by
  rw [parse_eq_ok_some_iff, squeeze_uncommented (isPlain_text h)]
  exact written_text h

/-- What a text stands for is expressible. -/
theorem Written.isExpressible {cs : List Char} {i : Instruction} (h : Written cs i) :
    i.isExpressible = true := by
  cases h with
  | label hname => exact hname
  | load hoperand => exact hoperand.isExpressible
  | compute => rfl

/-- Whatever is read from a line is expressible. -/
theorem isExpressible_of_parse {line : List Char} {i : Instruction}
    (h : parse line = .ok (some i)) : i.isExpressible = true :=
  ((parse_eq_ok_some_iff line i).mp h).isExpressible

/-- **An instruction is read back from its text exactly if it is
expressible.** Whatever is read from a line is, so it may be written and
read again as often as one likes. -/
theorem parse_text_iff :
    (∀ i : Instruction, parse i.text.toList = .ok (some i) ↔ i.isExpressible = true) ∧
    ∀ (line : List Char) (i : Instruction), parse line = .ok (some i) →
      i.isExpressible = true ∧ parse i.text.toList = .ok (some i) := by
  refine ⟨fun i => ⟨isExpressible_of_parse, parse_text⟩, ?_⟩
  intro line i h
  have hexpressible := isExpressible_of_parse h
  exact ⟨hexpressible, parse_text hexpressible⟩

/-- A line with a comment, blanks, a sum the other way round and an empty
condition is read, and what was read is read back from its text. -/
theorem parse_text_of_loose_line :
    parse " D M = M + D ; // add".toList
      = .ok (some (.compute ⟨⟨false, true, true⟩, .addDY .m, .never⟩)) ∧
    parse "MD=D+M".toList = .ok (some (.compute ⟨⟨false, true, true⟩, .addDY .m, .never⟩)) := by
  have hline : parse " D M = M + D ; // add".toList
      = .ok (some (.compute ⟨⟨false, true, true⟩, .addDY .m, .never⟩)) := rfl
  exact ⟨hline, (parse_text_iff.2 _ _ hline).2⟩

end Instruction

/-! ### Whole texts -/

/-- Lines are read one by one, whatever number the first of them has. -/
theorem mapM_zipIdx_of_read {α : Type} {read : List Char → Except Malformed (Option α)}
    {ls : List (List Char × Option α)} (h : ∀ l ∈ ls, read l.1 = .ok l.2) (row : Nat) :
    (((ls.map Prod.fst).zipIdx row).mapM fun (line, row) =>
      (read line).mapError (Error.malformed row (String.ofList (trim line))))
        = .ok (ls.map Prod.snd) := by
  induction ls generalizing row with
  | nil => rfl
  | cons l ls ih =>
      have hrest := ih (fun l' hl' => h l' (List.mem_cons_of_mem l hl')) (row + 1)
      have hfirst := h l List.mem_cons_self
      rw [List.map_cons, List.zipIdx_cons, List.mapM_cons, hrest]
      simp only [hfirst]
      rfl

/-- **A text is read line by line.** -/
theorem readLines_of_lines {α : Type} {read : List Char → Except Malformed (Option α)}
    {source : List Char} {ls : List (List Char × Option α)}
    (hlines : lines source = ls.map Prod.fst) (hread : ∀ l ∈ ls, read l.1 = .ok l.2) :
    readLines read source = .ok (ls.filterMap Prod.snd) := by
  rw [readLines, numberedLines, hlines, mapM_zipIdx_of_read hread 1]
  show Except.ok ((ls.map Prod.snd).filterMap id) = _
  rw [List.filterMap_map]
  rfl

/-- Numbered lines are all read, or the first that cannot be read ends the
reading. -/
theorem mapM_zipIdx_cases {α : Type} (read : List Char → Except Malformed (Option α))
    (ls : List (List Char)) (row : Nat) :
    let result := (ls.zipIdx row).mapM fun (line, row) =>
      (read line).mapError (Error.malformed row (String.ofList (trim line)))
    (∃ held : List (Option α), ls.map read = held.map .ok ∧ result = .ok held) ∨
    ∃ before line after cause, ls = before ++ line :: after ∧
      (∀ l ∈ before, ∃ a, read l = .ok a) ∧ read line = .error cause ∧
      result = .error (.malformed (row + before.length) (String.ofList (trim line)) cause) := by
  induction ls generalizing row with
  | nil => exact .inl ⟨[], rfl, rfl⟩
  | cons l ls ih =>
      simp only [List.zipIdx_cons, List.mapM_cons]
      cases hl : read l with
      | error cause => exact .inr ⟨[], l, ls, cause, rfl, by simp, hl, rfl⟩
      | ok a =>
          rcases ih (row + 1) with ⟨held, hheld, hok⟩ | ⟨before, line, after, cause, hls, hbefore,
            hline, herror⟩
          · refine .inl ⟨a :: held, by simp [hl, hheld], ?_⟩
            rw [hok]
            rfl
          · refine .inr ⟨l :: before, line, after, cause, by simp [hls], ?_, hline, ?_⟩
            · intro l' hl'
              rcases List.mem_cons.mp hl' with rfl | hl'
              · exact ⟨a, hl⟩
              · exact hbefore l' hl'
            · rw [herror, List.length_cons, Nat.add_comm before.length, ← Nat.add_assoc]
              rfl

/-- **A text is read as a whole, or its first line that cannot be read is
reported**, with the number of that line. -/
theorem readLines_cases {α : Type} (read : List Char → Except Malformed (Option α))
    (source : List Char) :
    (∃ held : List (Option α), (lines source).map read = held.map .ok ∧
      readLines read source = .ok (held.filterMap id)) ∨
    ∃ before line after cause, lines source = before ++ line :: after ∧
      (∀ l ∈ before, ∃ a, read l = .ok a) ∧ read line = .error cause ∧
      readLines read source
        = .error (.malformed (1 + before.length) (String.ofList (trim line)) cause) := by
  rw [readLines, numberedLines]
  rcases mapM_zipIdx_cases read (lines source) 1 with ⟨held, hheld, hok⟩ | ⟨before, line, after,
    cause, hlines, hbefore, hline, herror⟩
  · refine .inl ⟨held, hheld, ?_⟩
    rw [hok]
    rfl
  · refine .inr ⟨before, line, after, cause, hlines, hbefore, hline, ?_⟩
    rw [herror]
    rfl

/-- What is read from a text comes from one of its lines. -/
theorem exists_line_of_mem_readLines {α : Type}
    {read : List Char → Except Malformed (Option α)} {source : List Char} {found : List α}
    (h : readLines read source = .ok found) {a : α} (ha : a ∈ found) :
    ∃ line ∈ lines source, read line = .ok (some a) := by
  rcases readLines_cases read source with ⟨held, hheld, hok⟩ | ⟨_, _, _, _, _, _, _, herror⟩
  · rw [hok] at h
    cases h
    obtain ⟨a?, hmem, hsome⟩ := List.mem_filterMap.mp ha
    have ha? : a? = some a := hsome
    have hread : Except.ok a? ∈ (lines source).map read := hheld ▸ List.mem_map_of_mem hmem
    obtain ⟨line, hline, hread⟩ := List.mem_map.mp hread
    exact ⟨line, hline, ha? ▸ hread⟩
  · rw [herror] at h
    cases h

/-- **Whatever is read from an assembly text is expressible.** -/
theorem isExpressible_of_mem_parse {source : List Char} {code : List Instruction}
    (h : parse source = .ok code) : ∀ i ∈ code, i.isExpressible = true := by
  intro i hi
  obtain ⟨line, -, hread⟩ := exists_line_of_mem_readLines h hi
  exact Instruction.isExpressible_of_parse hread

/-- **Expressible instructions are read back** from a text with one of them
in each line. -/
theorem parse_lines {code : List Instruction} (h : ∀ i ∈ code, i.isExpressible = true) :
    parse (code.flatMap fun i => i.text.toList ++ ['\n']) = .ok code := by
  have htext : (code.flatMap fun i => i.text.toList ++ ['\n'])
      = (code.map fun i => i.text.toList).flatMap (· ++ ['\n']) := by
    rw [List.flatMap_map]
  have hlines : lines (code.flatMap fun i => i.text.toList ++ ['\n'])
      = (code.map fun i => (i.text.toList, some i)).map Prod.fst := by
    rw [htext, lines_flatMap, List.map_map]
    · rfl
    · intro line hline
      obtain ⟨i, hi, rfl⟩ := List.mem_map.mp hline
      exact not_lineEnd_of_plain (Instruction.isPlain_text (h i hi))
  have hread : ∀ l ∈ code.map fun i => (i.text.toList, some i),
      Instruction.parse l.1 = .ok l.2 := by
    intro l hl
    obtain ⟨i, hi, rfl⟩ := List.mem_map.mp hl
    exact Instruction.parse_text (h i hi)
  rw [parse, readLines_of_lines hlines hread, List.filterMap_map]
  show Except.ok (code.filterMap some) = .ok code
  rw [List.filterMap_some]

end HackComputer.Assembly
