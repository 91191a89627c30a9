import HackComputer.Proofs.FirstFailure
import HackComputer.Proofs.Text.Normal
import HackComputer.Vm.SourceUnit

/-!
# `HackComputer.Proofs.Vm.SourceLines`: what is kept of a source

A unit keeps the lines of its source that hold code, each with its row and in
normal form. `SourceUnit.HoldsCode` says which lines these are by the lines,
the comments and the words of the source, without reading anything.
`SourceUnit.codeRows` lists them, and reading a unit is reading this list
(`parse_eq`).

* `mem_codeRows_iff`, `codeRows_sorted`: the list holds the rows with code, in
  order.
* `parse_eq_ok_iff`, `parse_eq_error_iff`: a unit is its list of rows with
  their commands, or the first row without one is reported.
* `codeRows_intercalate`: the texts of a unit are a source of its own, row by
  row.
* `parse_faithful`: all of this about one source.
-/

set_option autoImplicit false

namespace HackComputer.Vm.SourceUnit

open Text

/-- The row of the source, counted from one, holds the code `text`: the words
that the line has in front of its comment, at least one of them, with single
spaces between them. -/
def HoldsCode (source : List Char) (row : Nat) (text : List Char) : Prop :=
  ∃ ls k line code ws, AreLines source ls ∧ ls[k]? = some line ∧ row = k + 1 ∧
    IsCode line code ∧ AreWords code ws ∧ ws ≠ [] ∧ text = [' '].intercalate ws

/-- The normal form of a line. -/
def normalForm (line : List Char) : List Char :=
  normalized (uncommented line)

/-- The rows with code, in order, each in normal form. -/
def codeRows (source : List Char) : List (List Char × Nat) :=
  ((numberedLines source).map fun p => (normalForm p.1, p.2)).filter (!·.1.isEmpty)

/-! ### The rows with code -/

/-- The normal form is what is left of the words in front of the comment. -/
theorem normalForm_eq_iff {line text : List Char} :
    normalForm line = text ∧ text ≠ [] ↔
      ∃ code ws, IsCode line code ∧ AreWords code ws ∧ ws ≠ [] ∧ text = [' '].intercalate ws := by
  constructor
  · rintro ⟨rfl, hsome⟩
    refine ⟨uncommented line, words (uncommented line), isCode_uncommented line,
      words_eq_iff.mp rfl, ?_, rfl⟩
    intro hnone
    exact hsome (normalized_eq_nil_iff.mpr hnone)
  · rintro ⟨code, ws, hcode, hws, hsome, rfl⟩
    obtain rfl := uncommented_eq_iff.mpr hcode
    obtain rfl := words_eq_iff.mpr hws
    exact ⟨rfl, fun hnone => hsome (normalized_eq_nil_iff.mp hnone)⟩

/-- **The list holds the rows with code.** -/
theorem mem_codeRows_iff {source text : List Char} {row : Nat} :
    (text, row) ∈ codeRows source ↔ HoldsCode source row text := by
  have hmem : (text, row) ∈ codeRows source ↔
      ∃ k line, (Text.lines source)[k]? = some line ∧ row = k + 1 ∧
        normalForm line = text ∧ text ≠ [] := by
    rw [codeRows, List.mem_filter, List.mem_map]
    constructor
    · rintro ⟨⟨⟨line, row'⟩, hline, heq⟩, hsome⟩
      obtain ⟨rfl, rfl⟩ := Prod.mk.inj heq
      obtain ⟨hle, hget⟩ := List.mem_zipIdx_iff_le_and_getElem?_sub.mp hline
      exact ⟨row' - 1, line, hget, by omega, rfl, by simpa using hsome⟩
    · rintro ⟨k, line, hget, rfl, rfl, hsome⟩
      refine ⟨⟨(line, k + 1), ?_, rfl⟩, by simpa using hsome⟩
      exact List.mem_zipIdx_iff_le_and_getElem?_sub.mpr ⟨by omega, by simpa using hget⟩
  -- What is left is to say lines and words by their relations.
  rw [hmem]
  constructor
  · rintro ⟨k, line, hget, hrow, hform⟩
    obtain ⟨code, ws, h⟩ := normalForm_eq_iff.mp hform
    exact ⟨Text.lines source, k, line, code, ws, lines_eq_iff.mp rfl, hget, hrow, h⟩
  · rintro ⟨ls, k, line, code, ws, hls, hget, hrow, h⟩
    rw [← lines_eq_iff.mpr hls] at hget
    exact ⟨k, line, hget, hrow, normalForm_eq_iff.mpr ⟨code, ws, h⟩⟩

/-- Every row of the list is in normal form. -/
theorem normal_of_mem_codeRows {source : List Char} {p : List Char × Nat}
    (h : p ∈ codeRows source) : p.1 ≠ [] ∧ ∃ line, normalForm line = p.1 := by
  obtain ⟨hmem, hsome⟩ := List.mem_filter.mp h
  obtain ⟨q, -, rfl⟩ := List.mem_map.mp hmem
  exact ⟨by simpa using hsome, q.1, rfl⟩

/-- Rows are counted upwards. -/
theorem codeRows_sorted (source : List Char) :
    (codeRows source).Pairwise fun p q => p.2 < q.2 := by
  refine List.Pairwise.filter _ (List.pairwise_map.mpr ?_)
  have hrows : ((numberedLines source).map Prod.snd).Pairwise (· < ·) := by
    rw [numberedLines, List.zipIdx_map_snd]
    exact List.pairwise_lt_range'
  exact List.pairwise_map.mp hrows

/-- **Texts in normal form are a source of their own**, with one of them in
each row. -/
theorem codeRows_intercalate {texts : List (List Char)}
    (h : ∀ text ∈ texts, text ≠ [] ∧ ∃ line, normalForm line = text) :
    codeRows (['\n'].intercalate texts) = texts.zipIdx 1 := by
  have hlines : Text.lines (['\n'].intercalate texts) = texts := by
    apply lines_intercalate
    intro text htext
    obtain ⟨hsome, line, rfl⟩ := h text htext
    exact ⟨hsome, not_lineEnd_of_normalized _⟩
  -- Every text is its own normal form, and none is empty.
  have hself : (texts.zipIdx 1).map (fun p => (normalForm p.1, p.2)) = texts.zipIdx 1 := by
    conv => rhs; rw [← List.map_id (texts.zipIdx 1)]
    apply List.map_congr_left
    rintro ⟨text, row⟩ hmem
    obtain ⟨-, line, rfl⟩ := h text (List.fst_mem_of_mem_zipIdx hmem)
    exact congrArg (·, row) (normalized_uncommented_self line)
  rw [codeRows, numberedLines, hlines, hself, List.filter_eq_self]
  rintro ⟨text, row⟩ hmem
  simpa using (h text (List.fst_mem_of_mem_zipIdx hmem)).1

/-! ### Reading the rows -/

/-- Reads one row with code. -/
def readRow (name : String) (row : List Char × Nat) : Except Error Line :=
  match Command.parse row.1 with
  | .ok command => .ok ⟨row.2, String.ofList row.1, command⟩
  | .error fault => .error (.located ⟨name, row.2, String.ofList row.1⟩ (.fault fault))

/-- A line is read if it holds code. -/
theorem parseLine_eq (name : String) (line : List Char) (row : Nat) :
    parseLine name line row
      = if (normalForm line).isEmpty then .ok none
        else (readRow name (normalForm line, row)).map some := by
  have hform : normalized (uncommented line) = normalForm line := rfl
  rw [parseLine, readRow, hform]
  cases normalForm line with
  | nil => rfl
  | cons c cs =>
      simp only [List.isEmpty_cons, Bool.false_eq_true, if_false]
      cases Command.parse (c :: cs) <;> rfl

/-- Reading lines and dropping what holds no code is reading the others. -/
theorem mapM_parseLine (name : String) (numbered : List (List Char × Nat)) :
    (numbered.mapM fun p => parseLine name p.1 p.2).map (List.filterMap id)
      = ((numbered.map fun p => (normalForm p.1, p.2)).filter (!·.1.isEmpty)).mapM
          (readRow name) := by
  induction numbered with
  | nil => rfl
  | cons p numbered ih =>
      -- A line without code adds nothing to either side and cannot fail.
      rw [List.mapM_cons, List.map_cons, List.filter_cons, parseLine_eq]
      cases (normalForm p.1).isEmpty with
      | true =>
          simp only [if_true, Bool.not_true, Bool.false_eq_true, if_false, ← ih]
          cases numbered.mapM fun p => parseLine name p.1 p.2 <;> rfl
      | false =>
          simp only [if_true, Bool.not_false, Bool.false_eq_true, if_false, List.mapM_cons, ← ih]
          cases readRow name (normalForm p.1, p.2) with
          | error e => rfl
          | ok read => cases numbered.mapM fun p => parseLine name p.1 p.2 <;> rfl

/-- **Reading a unit is reading its rows with code.** -/
theorem parse_eq (name : String) (source : List Char) :
    parse name source
      = ((codeRows source).mapM (readRow name)).map fun lines => ⟨name, lines⟩ := by
  rw [codeRows, ← mapM_parseLine]
  show ((numberedLines source).mapM fun p => parseLine name p.1 p.2) >>= _ = _
  cases (numberedLines source).mapM fun p => parseLine name p.1 p.2 <;> rfl

/-- What is read from a row. -/
theorem readRow_eq_ok_iff {name : String} {row : List Char × Nat} {line : Line} :
    readRow name row = .ok line ↔
      (line.text.toList, line.row) = row ∧ Command.parse line.text.toList = .ok line.command := by
  obtain ⟨text, number⟩ := row
  obtain ⟨lineRow, lineText, command⟩ := line
  unfold readRow
  constructor
  · intro h
    split at h
    · rename_i hparse
      cases h
      simpa using hparse
    · cases h
  · rintro ⟨heq, hparse⟩
    obtain ⟨rfl, rfl⟩ := Prod.mk.inj heq
    rw [hparse]
    simp

/-- What is reported of a row. -/
theorem readRow_eq_error_iff {name : String} {row : List Char × Nat} {e : Error} :
    readRow name row = .error e ↔
      ∃ fault, Command.parse row.1 = .error fault ∧
        e = .located ⟨name, row.2, String.ofList row.1⟩ (.fault fault) := by
  unfold readRow
  cases Command.parse row.1 <;> simp [eq_comm]

/-- **A unit is its rows with code and their commands.** -/
theorem parse_eq_ok_iff {name : String} {source : List Char} {unit : SourceUnit} :
    parse name source = .ok unit ↔
      unit.name = name ∧
      (unit.lines.map fun line => (line.text.toList, line.row)) = codeRows source ∧
      ∀ line ∈ unit.lines, Command.parse line.text.toList = .ok line.command := by
  obtain ⟨unitName, lines⟩ := unit
  have hrows : (codeRows source).mapM (readRow name) = .ok lines ↔
      (lines.map fun line => (line.text.toList, line.row)) = codeRows source ∧
      ∀ line ∈ lines, Command.parse line.text.toList = .ok line.command := by
    simp only [mapM_eq_ok_iff, readRow_eq_ok_iff]
    generalize codeRows source = rows
    induction lines generalizing rows with
    | nil => cases rows <;> simp
    | cons line lines ih => cases rows <;> simp [← ih, and_assoc, and_left_comm]
  rw [parse_eq, ← hrows]
  cases (codeRows source).mapM (readRow name) with
  | error e => simp [Except.map]
  | ok found => simp [Except.map, eq_comm]

/-- **The first row without a command is reported.** -/
theorem parse_eq_error_iff {name : String} {source : List Char} {e : Error} :
    parse name source = .error e ↔
      FirstFailure (fun row e => ∃ fault, Command.parse row.1 = .error fault ∧
        e = .located ⟨name, row.2, String.ofList row.1⟩ (.fault fault)) (codeRows source) e := by
  have hfirst : (codeRows source).mapM (readRow name) = .error e ↔ _ := mapM_eq_error_iff
  simp only [readRow_eq_error_iff] at hfirst
  rw [parse_eq, ← hfirst]
  cases (codeRows source).mapM (readRow name) <;> simp [Except.map]

/-! ### Whole sources -/

/-- The lines in rows of their own, counted from one. -/
def renumbered (lines : List Line) : List Line :=
  lines.mapIdx fun i line => { line with row := i + 1 }

/-- The texts of a unit that is read are in normal form. -/
theorem normal_of_parse {name : String} {source : List Char} {unit : SourceUnit}
    (h : parse name source = .ok unit) {line : Line} (hline : line ∈ unit.lines) :
    line.text.toList ≠ [] ∧ ∃ raw, normalForm raw = line.text.toList := by
  have hrow : (line.text.toList, line.row) ∈ codeRows source := by
    rw [← (parse_eq_ok_iff.mp h).2.1]
    exact List.mem_map.mpr ⟨line, hline, rfl⟩
  exact normal_of_mem_codeRows hrow

/-- **The texts of a unit are read as the same unit**, with its lines in rows
of their own. -/
theorem parse_texts {name : String} {source : List Char} {unit : SourceUnit}
    (h : parse name source = .ok unit) (name' : String) :
    parse name' (['\n'].intercalate (unit.lines.map (·.text.toList)))
      = .ok ⟨name', renumbered unit.lines⟩ := by
  have hnormal : ∀ text ∈ unit.lines.map (·.text.toList),
      text ≠ [] ∧ ∃ line, normalForm line = text := by
    intro text htext
    obtain ⟨line, hline, rfl⟩ := List.mem_map.mp htext
    exact normal_of_parse h hline
  refine parse_eq_ok_iff.mpr ⟨rfl, ?_, ?_⟩
  · -- Row by row both sides hold the text and count from one.
    rw [codeRows_intercalate hnormal]
    apply List.ext_getElem?
    intro i
    simp only [renumbered, List.getElem?_map, List.getElem?_mapIdx, List.getElem?_zipIdx,
      Option.map_map, Nat.add_comm 1 i]
    rfl
  · intro line hline
    obtain ⟨i, hi, rfl⟩ := List.mem_mapIdx.mp hline
    exact (parse_eq_ok_iff.mp h).2.2 unit.lines[i] (List.getElem_mem hi)

/-- Before the first row that is reported every row with code is read. -/
theorem exists_command_of_lt {source text : List Char} {row : Nat}
    {before after : List (List Char × Nat)}
    (hrows : codeRows source = before ++ (text, row) :: after)
    (hbefore : ∀ p ∈ before, ∀ fault, Command.parse p.1 ≠ .error fault) {row' : Nat}
    {text' : List Char} (hcode : HoldsCode source row' text') (hlt : row' < row) :
    ∃ command, Command.parse text' = .ok command := by
  have hsorted := codeRows_sorted source
  have hmem := mem_codeRows_iff.mpr hcode
  rw [hrows] at hsorted hmem
  rcases List.mem_append.mp hmem with hfront | hback
  · cases hparse : Command.parse text' with
    | ok command => exact ⟨command, rfl⟩
    | error fault => exact absurd hparse (hbefore _ hfront fault)
  · -- The reported row and all behind it come later.
    have hlater := (List.pairwise_cons.mp (List.pairwise_append.mp hsorted).2.1).1
    rcases List.mem_cons.mp hback with heq | hback
    · have hsame : row' = row := congrArg Prod.snd heq
      omega
    · have hgt : row < row' := hlater _ hback
      omega

/-- **Reading a source is faithful, normalizing and locates the first error.**
The lines of a unit that is read are the rows of the source that hold code, in
order, with their row numbers, their code with single spaces, and the command
of this code; and they are read again from their texts. Reading fails exactly
if a row with code writes no command. Then it reports the unit, the row and the
code of the first such row, and what is wrong with it. -/
theorem parse_faithful (name : String) (source : List Char) :
    (∀ unit, parse name source = .ok unit →
      unit.name = name ∧ (unit.lines.map (·.row)).Pairwise (· < ·) ∧
      (∀ row text, HoldsCode source row text ↔
        ∃ line ∈ unit.lines, line.row = row ∧ line.text.toList = text) ∧
      (∀ line ∈ unit.lines, Command.parse line.text.toList = .ok line.command) ∧
      ∀ name', parse name' (['\n'].intercalate (unit.lines.map (·.text.toList)))
        = .ok ⟨name', renumbered unit.lines⟩) ∧
    ((∃ e, parse name source = .error e) ↔
      ∃ row text fault, HoldsCode source row text ∧ Command.parse text = .error fault) ∧
    ∀ e, parse name source = .error e → ∃ row text fault,
      e = .located ⟨name, row, String.ofList text⟩ (.fault fault) ∧
      HoldsCode source row text ∧ Command.parse text = .error fault ∧
      ∀ row' text', HoldsCode source row' text' → row' < row →
        ∃ command, Command.parse text' = .ok command := by
  refine ⟨?_, ?_, ?_⟩
  · intro unit h
    obtain ⟨hname, hrows, hcommands⟩ := parse_eq_ok_iff.mp h
    refine ⟨hname, ?_, ?_, hcommands, parse_texts h⟩
    · have hsorted := codeRows_sorted source
      rw [← hrows, List.pairwise_map] at hsorted
      exact List.pairwise_map.mpr hsorted
    · intro row text
      rw [← mem_codeRows_iff, ← hrows, List.mem_map]
      simp only [Prod.mk.injEq, and_comm]
  · simp only [parse_eq_error_iff, exists_firstFailure_iff, ← mem_codeRows_iff]
    constructor
    · rintro ⟨⟨text, row⟩, hmem, -, fault, hfault, -⟩
      exact ⟨row, text, fault, hmem, hfault⟩
    · rintro ⟨row, text, fault, hmem, hfault⟩
      exact ⟨(text, row), hmem, _, fault, hfault, rfl⟩
  · intro e h
    obtain ⟨before, ⟨text, row⟩, after, hrows, hbefore, fault, hfault, rfl⟩ :=
      parse_eq_error_iff.mp h
    refine ⟨row, text, fault, rfl, mem_codeRows_iff.mp (by simp [hrows]), hfault, ?_⟩
    intro row' text' hcode hlt
    refine exists_command_of_lt hrows ?_ hcode hlt
    intro p hp fault' hfault'
    exact hbefore p hp _ ⟨fault', hfault', rfl⟩

/-- Line ends of both kinds, blanks of several kinds, a line with nothing but a
comment, slashes that start none, and a carriage return at the very end. -/
def untidySource : List Char :=
  "\tpush\u00a0constant  7 // seven\r\n\u3000// nothing\n\nlabel a/b/\r".toList

/-- What is kept of the untidy source. -/
def tidyUnit : SourceUnit :=
  ⟨"Main", [⟨1, "push constant 7", .push .constant 7⟩, ⟨4, "label a/b/", .label "a/b/"⟩]⟩

/-- The rows are those of the untidy text, and the texts are tidy and can be
read again. -/
theorem parse_faithful_of_untidySource :
    parse "Main" untidySource = .ok tidyUnit ∧
    (∀ row text, HoldsCode untidySource row text ↔
      ∃ line ∈ tidyUnit.lines, line.row = row ∧ line.text.toList = text) ∧
    parse "Other" "push constant 7\nlabel a/b/".toList
      = .ok ⟨"Other", [⟨1, "push constant 7", .push .constant 7⟩,
          ⟨2, "label a/b/", .label "a/b/"⟩]⟩ := by
  have hparse : parse "Main" untidySource = .ok tidyUnit := rfl
  obtain ⟨-, -, hrows, -, htexts⟩ := (parse_faithful "Main" untidySource).1 tidyUnit hparse
  exact ⟨hparse, hrows, htexts "Other"⟩

end HackComputer.Vm.SourceUnit
