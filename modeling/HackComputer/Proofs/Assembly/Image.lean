import HackComputer.Assembly.Image
import HackComputer.Proofs.Assembly.Reading
import HackComputer.Proofs.Isa.Encoding
import HackComputer.Proofs.Text.Binary

/-!
# `HackComputer.Proofs.Assembly.Image`: images written and read

An image is written one word a line and read in the same way, so both
round trips come down to a single line. `digits` is the line of a word, and
`word?_eq_some_iff` says that it is the only text that is read as this
word.

* `read_write`: what is read from a written image. A loaded value comes
  back with fifteen bits, and an image that is too long is not read.
* `write_of_read`: what is written for an image that was read, and which
  images are not read. `contentLines` are the lines of a text that hold
  something, and `completedLine` is such a line with the two digits that
  reading does not ask for.
-/

set_option autoImplicit false

namespace HackComputer.Assembly.Image

open Isa Text

/-! ### The line of a word -/

/-- The line of a word: its sixteen binary digits. -/
def digits (w : Word) : List Char :=
  (binary16 w.toNat).toList

/-- The line of a word is the one row of sixteen digits with its value. -/
theorem digits_eq_iff {w : Word} {cs : List Char} :
    digits w = cs ↔ cs.length = 16 ∧ isBinary cs = true ∧ binaryValue cs = w.toNat :=
  toList_binary16_eq_iff w.toNat_lt

/-- **A word is read from its line and from no other text.** -/
theorem word?_eq_some_iff {cs : List Char} {w : Word} : word? cs = some w ↔ digits w = cs := by
  have hread : word? cs = if cs.length = 16 ∧ isBinary cs = true
      then some (binaryValue cs).toUInt16 else none := rfl
  rw [digits_eq_iff, hread]
  by_cases hdigits : cs.length = 16 ∧ isBinary cs = true
  · have hlt := binaryValue_lt hdigits.2
    rw [hdigits.1] at hlt
    have hvalue : (binaryValue cs).toUInt16.toNat = binaryValue cs := UInt16.toNat_ofNat_of_lt hlt
    rw [if_pos hdigits, Option.some.injEq, ← UInt16.toNat_inj, hvalue]
    exact ⟨fun h => ⟨hdigits.1, hdigits.2, h⟩, fun h => h.2.2⟩
  · rw [if_neg hdigits]
    constructor
    · intro h
      cases h
    · intro h
      exact absurd ⟨h.1, h.2.1⟩ hdigits

/-- Different words have different lines. -/
theorem digits_inj {v w : Word} (h : digits v = digits w) : v = w := by
  have hv : word? (digits w) = some v := word?_eq_some_iff.mpr h
  have hw : word? (digits w) = some w := word?_eq_some_iff.mpr rfl
  rw [hv] at hw
  exact Option.some.inj hw

/-- Digits are neither blanks nor slashes. -/
theorem isPlain_digits (w : Word) : ∀ c ∈ digits w, isPlain c = true := by
  intro c hc
  have hbinary : isBinary (digits w) = true := (digits_eq_iff.mp rfl).2.1
  have hdigit : c = '0' ∨ c = '1' := by simpa using List.all_eq_true.mp hbinary c hc
  rcases hdigit with rfl | rfl <;> rfl

/-- The line of a word is not empty, so it is never skipped. -/
theorem digits_ne_nil (w : Word) : digits w ≠ [] := by
  intro h
  have hlength := (digits_eq_iff.mp h).1
  cases hlength

/-! ### Reading a line -/

/-- A line with the digits of a word holds the operation of the word. -/
theorem readLine_of_digits {line : List Char} {w : Word} (h : trim line = digits w) :
    readLine line = some <$> Operation.decode w := by
  have hword : word? (digits w) = some w := word?_eq_some_iff.mpr rfl
  rw [readLine, h]
  split
  · rename_i hnil
    exact absurd hnil (digits_ne_nil w)
  · rw [hword]

/-- A line holds nothing, the operation of a word, or something that is no
word. -/
theorem readLine_cases (line : List Char) :
    (trim line = [] ∧ readLine line = .ok none) ∨
    (∃ w, trim line = digits w ∧ readLine line = some <$> Operation.decode w) ∨
    (trim line ≠ [] ∧ readLine line = .error .binary) := by
  cases hline : trim line with
  | nil => exact .inl ⟨rfl, by rw [readLine, hline]⟩
  | cons c cs =>
      cases hword : word? (c :: cs) with
      | some w =>
          have hdigits := word?_eq_some_iff.mp hword
          exact .inr (.inl ⟨w, hdigits.symm, readLine_of_digits (hline.trans hdigits.symm)⟩)
      | none => exact .inr (.inr ⟨by simp, by simp only [readLine, hline, hword]⟩)

/-- A line that holds nothing is blank. -/
theorem trim_of_readLine {line : List Char} (h : readLine line = .ok none) : trim line = [] := by
  rcases readLine_cases line with ⟨hnil, -⟩ | ⟨w, -, hread⟩ | ⟨-, hread⟩
  · exact hnil
  · rw [hread] at h
    cases hdecode : Operation.decode w with
    | error cause => rw [hdecode] at h; cases h
    | ok op => rw [hdecode] at h; cases h
  · rw [hread] at h
    cases h

/-- What a line holds was written in it as a word. -/
theorem exists_word_of_readLine {line : List Char} {op : Operation}
    (h : readLine line = .ok (some op)) :
    ∃ w, trim line = digits w ∧ Operation.decode w = .ok op := by
  rcases readLine_cases line with ⟨-, hread⟩ | ⟨w, hdigits, hread⟩ | ⟨-, hread⟩
  · rw [hread] at h
    cases h
  · rw [hread] at h
    refine ⟨w, hdigits, ?_⟩
    cases hdecode : Operation.decode w with
    | error cause => rw [hdecode] at h; cases h
    | ok found => rw [hdecode] at h; cases h; rfl
  · rw [hread] at h
    cases h

/-! ### Reading what was written -/

/-- An image has one line for each operation. -/
theorem lines_write (rom : Array Operation) :
    lines (write rom).toList = rom.toList.map fun op => digits op.encode := by
  have htext : (write rom).toList
      = (rom.toList.map fun op => digits op.encode).flatMap (· ++ ['\n']) := by
    rw [write, String.toList_join, List.flatMap_map, List.flatMap_map]
    simp only [String.toList_append]
    rfl
  rw [htext]
  apply lines_flatMap
  intro line hline
  obtain ⟨op, -, rfl⟩ := List.mem_map.mp hline
  exact not_lineEnd_of_plain (isPlain_digits op.encode)

/-- The line of an operation is read as what its word has room for. -/
theorem readLine_encode (op : Operation) :
    readLine (digits op.encode) = .ok (some op.truncated) := by
  rw [readLine_of_digits (trim_of_plain (isPlain_digits op.encode)), Operation.decode_encode]
  rfl

/-- All lines of an image are read. -/
theorem readLines_write (rom : Array Operation) :
    readLines readLine (write rom).toList = .ok (rom.map Operation.truncated).toList := by
  -- Every line of the image, with what it holds.
  have hlines : lines (write rom).toList
      = (rom.toList.map fun op => (digits op.encode, some op.truncated)).map Prod.fst := by
    simp only [lines_write, List.map_map, Function.comp_def]
  have hread : ∀ l ∈ rom.toList.map fun op => (digits op.encode, some op.truncated),
      readLine l.1 = .ok l.2 := by
    intro l hl
    obtain ⟨op, -, hop⟩ := List.mem_map.mp hl
    simp only [← hop, readLine_encode]
  rw [readLines_of_lines hlines hread, Array.toList_map]
  simp only [List.filterMap_map, Function.comp_def, List.filterMap_eq_map']

/-- Only the number of operations can keep lines that are read from being
an image. -/
theorem read_of_readLines {source : List Char} {ops : List Operation}
    (h : readLines readLine source = .ok ops) :
    read source = if ops.length ≤ romCapacity then .ok ops.toArray
      else .error (.romOverflow ops.length) := by
  rw [read, h]
  by_cases hfits : ops.length ≤ romCapacity
  · simp only [bind, Except.bind, Nat.not_lt.mpr hfits, if_false, hfits, if_true, pure, Except.pure]
  · simp only [bind, Except.bind, Nat.lt_of_not_le hfits, if_true, hfits, if_false]
    rfl

/-- A line that cannot be read is reported. -/
theorem read_of_error {source : List Char} {err : Error}
    (h : readLines readLine source = .error err) : read source = .error err := by
  rw [read, h]
  rfl

/-- The image of a program that fits, as one that was linked does, is always
read back. -/
theorem read_write_of_size_le {rom : Array Operation} (h : rom.size ≤ romCapacity) :
    read (write rom).toList = .ok (rom.map Operation.truncated) := by
  rw [read_of_readLines (readLines_write rom), Array.length_toList, Array.size_map, if_pos h,
    Array.toArray_toList]

/-- The image of a program that does not fit is refused with its size. -/
theorem read_write_of_size_gt {rom : Array Operation} (h : romCapacity < rom.size) :
    read (write rom).toList = .error (.romOverflow rom.size) := by
  rw [read_of_readLines (readLines_write rom), Array.length_toList, Array.size_map,
    if_neg (Nat.not_le.mpr h)]

/-- **A written image is read back** with fifteen bits of every value that
is loaded, and with every computing instruction as it was. Only an image
that program memory cannot hold is refused. -/
theorem read_write (rom : Array Operation) :
    read (write rom).toList
      = if rom.size ≤ romCapacity then .ok (rom.map Operation.truncated)
        else .error (.romOverflow rom.size) := by
  by_cases h : rom.size ≤ romCapacity
  · rw [if_pos h, read_write_of_size_le h]
  · rw [if_neg h, read_write_of_size_gt (Nat.lt_of_not_le h)]

/-! ### Writing what was read -/

/-- The lines of a text that hold something, without the blanks at their
ends. -/
def contentLines (source : List Char) : List (List Char) :=
  ((lines source).map trim).filter (!·.isEmpty)

/-- The line starts like a computing instruction, but with a zero in one of
the two digits behind. -/
def isStray (line : List Char) : Bool :=
  ["100".toList, "101".toList, "110".toList].contains (line.take 3)

/-- The line with both these digits set. -/
def completedLine (line : List Char) : List Char :=
  if isStray line then "111".toList ++ line.drop 3 else line

/-- Only a stray line is changed. -/
theorem completedLine_eq_iff (line : List Char) :
    completedLine line = line ↔ isStray line = false := by
  rw [completedLine]
  cases hstray : isStray line with
  | false => simp
  | true =>
      -- The three digits in front are none of the stray ones any more.
      have hnot : isStray ("111".toList ++ line.drop 3) = false := rfl
      simp only [if_true, Bool.true_eq_false, iff_false]
      intro hsame
      rw [hsame, hstray] at hnot
      cases hnot

/-- Every row of sixteen binary digits is the line of a word. -/
theorem exists_digits {cs : List Char} (hlength : cs.length = 16) (hbinary : isBinary cs = true) :
    ∃ w, digits w = cs := by
  have hlt := binaryValue_lt hbinary
  rw [hlength] at hlt
  refine ⟨(binaryValue cs).toUInt16, digits_eq_iff.mpr ⟨hlength, hbinary, ?_⟩⟩
  exact (UInt16.toNat_ofNat_of_lt hlt).symm

/-- Completing the line of a word completes the word. -/
theorem completedLine_digits (w : Word) :
    completedLine (digits w) = digits (Operation.completed w) := by
  generalize hcs : digits w = cs
  obtain ⟨hlength, hbinary, hvalue⟩ := digits_eq_iff.mp hcs
  -- Three digits are in front of the thirteen that count.
  match cs, hlength, hbinary, hvalue with
  | c₁ :: c₂ :: c₃ :: rest, hlength, hbinary, hvalue =>
      simp only [isBinary_cons] at hbinary
      obtain ⟨h₁, h₂, h₃, hrest⟩ := hbinary
      have hthirteen : rest.length = 13 := by simpa using hlength
      have hlt := binaryValue_lt hrest
      rw [hthirteen] at hlt
      rcases h₁ with rfl | rfl
      · -- A value that is loaded is complete.
        have hbehind : isBinary (c₂ :: c₃ :: rest) = true := by simp [h₂, h₃, hrest]
        have hlow : w.toNat < 0x8000 := by
          rw [← hvalue, binaryValue_zero]
          simpa [hthirteen] using binaryValue_lt hbehind
        have hword : Operation.completed w = w := by
          rw [← UInt16.toNat_inj, Operation.toNat_completed, if_pos hlow]
        rw [hword, hcs]
        rfl
      · -- Whatever the two digits are, both are set afterwards.
        have hline : completedLine ('1' :: c₂ :: c₃ :: rest) = '1' :: '1' :: '1' :: rest := by
          rcases h₂ with rfl | rfl <;> rcases h₃ with rfl | rfl <;> rfl
        have hhigh : w.toNat = 0x8000 + binaryValue (c₂ :: c₃ :: rest) := by
          have hbehind : (c₂ :: c₃ :: rest).length = 15 := by simp [hthirteen]
          have hone := binaryValue_one (c₂ :: c₃ :: rest)
          rw [hvalue, hbehind] at hone
          omega
        have hmod : w.toNat % 8192 = binaryValue rest := by
          rw [hhigh]
          rcases h₂ with rfl | rfl <;> rcases h₃ with rfl | rfl <;> simp [hthirteen] <;> omega
        rw [hline, eq_comm, digits_eq_iff, Operation.toNat_completed, if_neg (by omega), hmod]
        simp [hthirteen, hrest]
        omega

/-- Only the line of a word can be completed to the line of a word. -/
theorem exists_digits_of_completedLine {line : List Char} {v : Word}
    (h : digits v = completedLine line) : ∃ w, digits w = line := by
  rw [completedLine] at h
  split at h
  · rename_i hstray
    obtain ⟨hlength, hbinary, -⟩ := digits_eq_iff.mp h
    simp only [isStray, List.contains_iff_mem] at hstray
    rw [isBinary_append, Bool.and_eq_true] at hbinary
    have hfront : isBinary (line.take 3) = true := by
      have hall : ["100".toList, "101".toList, "110".toList].all isBinary = true := by decide
      exact List.all_eq_true.mp hall _ hstray
    have hthree : (line.take 3).length = 3 := by
      have hall : ["100".toList, "101".toList, "110".toList].all (·.length == 3) = true := by decide
      exact beq_iff_eq.mp (List.all_eq_true.mp hall _ hstray)
    apply exists_digits
    · have hrest : (line.drop 3).length = 13 := by simpa using hlength
      rw [← List.take_append_drop 3 line, List.length_append, hthree, hrest]
    · rw [← List.take_append_drop 3 line, isBinary_append, hfront, hbinary.2]
      rfl
  · exact ⟨v, h⟩

/-- A line holds an operation exactly if completing it gives the line of
one. -/
theorem exists_readLine_iff (line : List Char) :
    (∃ op, readLine line = .ok (some op))
      ↔ ∃ op : Operation, digits op.encode = completedLine (trim line) := by
  constructor
  · rintro ⟨op, h⟩
    obtain ⟨w, hline, hdecode⟩ := exists_word_of_readLine h
    exact ⟨op, by rw [hline, completedLine_digits, Operation.encode_of_decode hdecode]⟩
  · rintro ⟨op, h⟩
    obtain ⟨w, hline⟩ := exists_digits_of_completedLine h
    rw [← hline, completedLine_digits] at h
    obtain ⟨found, hfound⟩ := (Operation.exists_decode_iff w).mpr ⟨op, digits_inj h⟩
    refine ⟨found, ?_⟩
    rw [readLine_of_digits hline.symm, hfound]
    rfl

/-- The lines that hold something, completed, are the lines of what they
hold. -/
theorem map_completedLine {ls : List (List Char)} {held : List (Option Operation)}
    (h : ls.map readLine = held.map .ok) :
    ((ls.map trim).filter (!·.isEmpty)).map completedLine
      = (held.filterMap id).map fun op => digits op.encode := by
  induction ls generalizing held with
  | nil =>
      cases held with
      | nil => rfl
      | cons a held => cases h
  | cons line ls ih =>
      cases held with
      | nil => cases h
      | cons a held =>
          obtain ⟨hline, hrest⟩ := List.cons.inj h
          cases a with
          | none =>
              simp [trim_of_readLine hline, ih hrest]
          | some op =>
              obtain ⟨w, hdigits, hdecode⟩ := exists_word_of_readLine hline
              have hne := digits_ne_nil w
              simp [hdigits, hne, completedLine_digits, Operation.encode_of_decode hdecode,
                ih hrest]

/-- Lines come back as they were exactly if none of them is stray. -/
theorem map_completedLine_eq_self_iff (ls : List (List Char)) :
    ls.map completedLine = ls ↔ ∀ line ∈ ls, isStray line = false := by
  have hpointwise := List.map_inj_left (l := ls) (f := completedLine) (g := id)
  simpa [completedLine_eq_iff] using hpointwise

/-- A line that cannot be read holds something, and not even when it is
completed the line of an operation. -/
theorem mem_contentLines_of_error {source line : List Char} {cause : Malformed}
    (hmem : line ∈ lines source) (hline : readLine line = .error cause) :
    trim line ∈ contentLines source ∧
      ∀ op : Operation, digits op.encode ≠ completedLine (trim line) := by
  constructor
  · have hne : trim line ≠ [] := by
      intro hnil
      rw [readLine, hnil] at hline
      cases hline
    simp only [contentLines, List.mem_filter, List.mem_map]
    exact ⟨⟨line, hmem, rfl⟩, by simpa using hne⟩
  · intro op hop
    obtain ⟨found, hfound⟩ := (exists_readLine_iff line).mpr ⟨op, hop⟩
    rw [hfound] at hline
    cases hline

/-- **What was read is written with every line completed.** So the lines
that held something come back as they were exactly if none of them is
stray. A text is malformed exactly if one of its lines is not the line of
an operation even when it is completed. -/
theorem write_of_read (source : List Char) :
    (∀ rom, read source = .ok rom →
      lines (write rom).toList = (contentLines source).map completedLine ∧
      (lines (write rom).toList = contentLines source
        ↔ ∀ line ∈ contentLines source, isStray line = false)) ∧
    ((∃ row text cause, read source = .error (.malformed row text cause))
      ↔ ∃ line ∈ contentLines source, ∀ op : Operation, digits op.encode ≠ completedLine line) := by
  rcases readLines_cases readLine source with ⟨held, hheld, hok⟩ | ⟨before, line, after, cause,
    hlines, -, hline, herror⟩
  · -- All lines are read, so each of them is that of an operation.
    have hcompleted : (contentLines source).map completedLine
        = (held.filterMap id).map fun op => digits op.encode := map_completedLine hheld
    have hread := read_of_readLines hok
    constructor
    · intro rom h
      have hwritten : lines (write rom).toList = (contentLines source).map completedLine := by
        rw [hread] at h
        split at h
        · cases h
          rw [lines_write, hcompleted]
        · cases h
      refine ⟨hwritten, ?_⟩
      rw [hwritten, map_completedLine_eq_self_iff]
    · constructor
      · rintro ⟨row, text, cause, h⟩
        rw [hread] at h
        split at h <;> cases h
      · rintro ⟨line, hmem, hnone⟩
        have hop : completedLine line ∈ (held.filterMap id).map fun op => digits op.encode :=
          hcompleted ▸ List.mem_map_of_mem hmem
        obtain ⟨op, -, hop⟩ := List.mem_map.mp hop
        exact absurd hop (hnone op)
  · -- One line is not, and reading ends there.
    have hread := read_of_error herror
    have hmem : line ∈ lines source := by simp [hlines]
    constructor
    · intro rom h
      rw [hread] at h
      cases h
    · constructor
      · intro _
        exact ⟨trim line, mem_contentLines_of_error hmem hline⟩
      · intro _
        exact ⟨_, _, cause, hread⟩

/-- A line that is read although it is not the line of any operation. -/
theorem stray_line_is_read :
    ∃ rom, read "1000000000000000\n".toList = .ok rom ∧
      contentLines "1000000000000000\n".toList = ["1000000000000000".toList] ∧
      lines (write rom).toList = ["1110000000000000".toList] ∧
      ∀ op : Operation, digits op.encode ≠ "1000000000000000".toList := by
  refine ⟨#[.compute ⟨.none, .andDY .a, .never⟩], by rfl, by rfl, by rfl, ?_⟩
  intro op hop
  have hvalue : 0x8000 = op.encode.toNat := (digits_eq_iff.mp hop).2.2
  cases op with
  | load value =>
      rw [Operation.toNat_encode_load] at hvalue
      omega
  | compute c =>
      rw [Operation.toNat_encode_compute] at hvalue
      omega

end HackComputer.Assembly.Image
