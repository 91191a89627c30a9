import HackComputer.Assembly.Instruction
import HackComputer.Proofs.Text.Lines

/-!
# `HackComputer.Proofs.Assembly.Grammar`: what a line of assembly can say

The grammar of lines, apart from the functions that read them. A line is
taken without its comment and without its blanks. What is left is empty,
or it is `Instruction.Written` in one of three ways: a label in
parentheses, an operand behind `@`, or a calculation `dest=comp;jump`. Of
a calculation the first and the last field may be left out with their
signs, or left empty behind them.

* `Destination.parse_eq_ok_iff`, `Computation.parse_eq_ok_iff`,
  `Jump.parse_eq_ok_iff`: the spellings of the three fields. The letters
  of a destination may stand in any order.
* `Operand.parse_eq_ok_iff`: a number, a register or a symbol.
* `Instruction.parseCalculation_eq_ok_iff`: a calculation is cut where its
  signs are, because no field holds one.
* `Instruction.parse_exact`: reading a line accepts what the grammar says,
  with the meaning that it says, and nothing else.
-/

set_option autoImplicit false

namespace HackComputer.Isa

/-! ### Spellings of the fields -/

/-- The characters of the three fields. -/
def fieldChars : List Char :=
  "AMD01-!+&|JGTEQLNP".toList

/-- The text is made of the characters of fields. -/
def isField (cs : List Char) : Bool :=
  cs.all fieldChars.contains

/-- A text of field characters has no others. -/
theorem mem_fieldChars_of_isField {cs : List Char} (h : isField cs = true) :
    ∀ c ∈ cs, c ∈ fieldChars := by
  intro c hc
  exact List.contains_iff_mem.mp (List.all_eq_true.mp h c hc)

namespace Destination

/-- The letters of a destination. -/
theorem mem_text_iff (dest : Destination) (c : Char) :
    c ∈ dest.text.toList ↔ c = 'A' ∧ dest.a = true ∨ c = 'M' ∧ dest.m = true ∨
      c = 'D' ∧ dest.d = true := by
  obtain ⟨a, d, m⟩ := dest
  cases a <;> cases d <;> cases m <;> simp [text]

/-- No letter of a destination is written twice. -/
theorem nodup_text (dest : Destination) : dest.text.toList.Nodup := by
  obtain ⟨a, d, m⟩ := dest
  cases a <;> cases d <;> cases m <;> decide

/-- **The letters of a destination may stand in any order.** -/
theorem parse_eq_ok_iff (s : String) (dest : Destination) :
    parse s = .ok dest ↔ s.toList.Perm dest.text.toList := by
  rw [parse]
  constructor
  · intro h
    split at h
    · rename_i hletters
      cases h
      rw [Bool.and_eq_true, List.all_eq_true, decide_eq_true_eq] at hletters
      -- Neither side repeats a letter, so the letters themselves are enough.
      rw [List.perm_ext_iff_of_nodup hletters.2 (nodup_text _)]
      intro c
      rw [mem_text_iff]
      simp only [List.contains_iff_mem]
      constructor
      · intro hc
        have hletter := hletters.1 c hc
        simp only [List.contains_iff_mem, List.mem_cons, List.not_mem_nil, or_false] at hletter
        rcases hletter with rfl | rfl | rfl <;> simp [hc]
      · rintro (⟨rfl, hc⟩ | ⟨rfl, hc⟩ | ⟨rfl, hc⟩) <;> exact hc
    · cases h
  · intro h
    have hmem : ∀ c, c ∈ s.toList ↔ _ := fun c => h.mem_iff.trans (mem_text_iff dest c)
    have hletters : (s.toList.all (['A', 'D', 'M'].contains ·) && decide s.toList.Nodup)
        = true := by
      rw [Bool.and_eq_true, List.all_eq_true, decide_eq_true_eq]
      refine ⟨?_, h.nodup_iff.mpr (nodup_text dest)⟩
      intro c hc
      rcases (hmem c).mp hc with ⟨rfl, -⟩ | ⟨rfl, -⟩ | ⟨rfl, -⟩ <;> rfl
    rw [if_pos hletters]
    simp [hmem]

/-- The letters of a destination are field characters, in any order. -/
theorem isField_of_perm {letters : List Char} {dest : Destination}
    (h : letters.Perm dest.text.toList) : isField letters = true := by
  rw [isField, List.all_eq_true]
  intro c hc
  rcases (mem_text_iff dest c).mp (h.mem_iff.mp hc) with ⟨rfl, -⟩ | ⟨rfl, -⟩ | ⟨rfl, -⟩ <;> rfl

end Destination

namespace Computation

/-- A spelling of a computation stands in the table of all spellings. -/
theorem mem_spelled {s : String} {comp : Computation} (h : s ∈ comp.spellings) :
    (s, comp) ∈ spelled :=
  List.mem_flatMap.mpr ⟨comp, mem_all comp, List.mem_map_of_mem h⟩

/-- So are those of every spelling of a computation. -/
theorem isField_of_mem_spellings {s : String} {comp : Computation} (h : s ∈ comp.spellings) :
    isField s.toList = true := by
  have htable : ∀ pair ∈ spelled, isField pair.1.toList = true := by decide
  exact htable (s, comp) (mem_spelled h)

/-- **A computation may be written in each of its spellings.** -/
theorem parse_eq_ok_iff (s : String) (comp : Computation) :
    parse s = .ok comp ↔ s ∈ comp.spellings := by
  constructor
  · intro h
    unfold parse at h
    split at h
    · rename_i hlookup
      cases h
      obtain ⟨before, after, hspelled, -⟩ := List.lookup_eq_some_iff.mp hlookup
      have hmem : (s, comp) ∈ spelled := by rw [hspelled]; simp
      obtain ⟨comp', -, hpair⟩ := List.mem_flatMap.mp hmem
      obtain ⟨s', hs', heq⟩ := List.mem_map.mp hpair
      cases heq
      exact hs'
    · cases h
  · -- The table has every spelling once.
    have htable : ∀ pair ∈ spelled, spelled.lookup pair.1 = some pair.2 := by decide
    intro h
    rw [parse, htable (s, comp) (mem_spelled h)]

end Computation

/-- So are those of a jump. -/
theorem Jump.isField_text (jump : Jump) : isField jump.text.toList = true := by
  obtain ⟨negative, zero, positive⟩ := jump
  cases negative <;> cases zero <;> cases positive <;> rfl

/-- A condition has one spelling. -/
theorem Jump.parse_eq_ok_iff (s : String) (jump : Jump) : parse s = .ok jump ↔ s = jump.text := by
  constructor
  · intro h
    unfold parse at h
    split at h
    · rename_i hfind
      cases h
      have hname := List.find?_some hfind
      exact (beq_iff_eq.mp hname).symm
    · cases h
  · rintro rfl
    obtain ⟨negative, zero, positive⟩ := jump
    cases negative <;> cases zero <;> cases positive <;> rfl

/-- A register is found by its name. -/
theorem Register.ofName?_eq_some_iff (s : String) (r : Register) :
    ofName? s = some r ↔ r.name = s := by
  constructor
  · intro h
    have hname := List.find?_some h
    exact beq_iff_eq.mp hname
  · rintro rfl
    cases r <;> rfl

end HackComputer.Isa

namespace HackComputer.Assembly

open Isa Text

/-! ### The grammar -/

/-- A destination with its sign, or nothing. -/
inductive DestinationField : List Char → Destination → Prop
  | omitted : DestinationField [] .none
  | given {letters : List Char} {dest : Destination} (hletters : letters.Perm dest.text.toList) :
      DestinationField (letters ++ ['=']) dest

/-- A condition behind its sign, or nothing. -/
inductive JumpField : List Char → Jump → Prop
  | omitted : JumpField [] .never
  | given (jump : Jump) : JumpField (';' :: jump.text.toList) jump

/-- The text stands for the operand: digits for a number that can be
loaded, the name of a register, or another name. -/
inductive Operand.Written : List Char → Operand → Prop
  | literal {digits : List Char} {value : Word} (hsome : digits ≠ [])
      (hdigits : ∀ c ∈ digits, c.isDigit = true)
      (hvalue : Nat.ofDigitChars 10 digits 0 = value.toNat) (hmax : value ≤ maxImmediate) :
      Written digits (.literal value)
  | register (r : Register) : Written r.name.toList (.register r)
  | symbol {name : String} (hname : isSymbol name.toList = true)
      (hfree : ∀ r : Register, r.name ≠ name) : Written name.toList (.symbol name)

/-- The text, without blanks and comments, stands for the instruction. -/
inductive Instruction.Written : List Char → Instruction → Prop
  | label {name : String} (hname : isSymbol name.toList = true) :
      Written ('(' :: (name.toList ++ [')'])) (.label name)
  | load {cs : List Char} {operand : Operand} (hoperand : operand.Written cs) :
      Written ('@' :: cs) (.load operand)
  | compute {dest comp jump : List Char} {c : Calculation} (hdest : DestinationField dest c.dest)
      (hcomp : String.ofList comp ∈ c.comp.spellings) (hjump : JumpField jump c.jump) :
      Written (dest ++ comp ++ jump) (.compute c)

/-! ### Operands -/

/-- A name is no number, because it does not start with a digit. -/
theorem decimal?_of_isSymbol {cs : List Char} (h : isSymbol cs = true) : decimal? cs = none := by
  cases cs with
  | nil => cases h
  | cons c cs =>
      simp only [isSymbol, Bool.and_eq_true, Bool.not_eq_true'] at h
      simp [decimal?, h.1]

/-- **An operand is read from exactly the texts that stand for it.** -/
theorem Operand.parse_eq_ok_iff (cs : List Char) (operand : Operand) :
    parse cs = .ok operand ↔ operand.Written cs := by
  constructor
  · intro h
    rw [parse] at h
    split at h
    · rename_i n hn
      obtain ⟨hsome, hdigits, hvalue⟩ := (decimal?_eq_some_iff cs n).mp hn
      split at h
      · rename_i hle
        cases h
        -- A number that passed the check keeps its value as a word.
        have hn : n.toUInt16.toNat = n :=
          UInt16.toNat_ofNat_of_lt (Nat.lt_of_le_of_lt hle (by decide))
        exact .literal hsome hdigits (hvalue.trans hn.symm)
          (UInt16.le_iff_toNat_le.mpr (hn.symm ▸ hle))
      · cases h
    · simp only at h
      split at h
      · rename_i r hr
        cases h
        have hname := (Register.ofName?_eq_some_iff _ r).mp hr
        have hcs : r.name.toList = cs := by rw [hname, String.toList_ofList]
        exact hcs ▸ .register r
      · rename_i hnone
        split at h
        · rename_i hsymbol
          cases h
          have hfree : ∀ r : Register, r.name ≠ String.ofList cs := by
            intro r hr
            rw [(Register.ofName?_eq_some_iff _ r).mpr hr] at hnone
            cases hnone
          have hname : isSymbol (String.ofList cs).toList = true := by
            rw [String.toList_ofList]
            exact hsymbol
          have hwritten := Written.symbol hname hfree
          rw [String.toList_ofList] at hwritten
          exact hwritten
        · cases h
  · intro h
    cases h with
    | @literal digits value hsome hdigits hvalue hmax =>
        have hread := (decimal?_eq_some_iff cs value.toNat).mpr ⟨hsome, hdigits, hvalue⟩
        simp [parse, hread, UInt16.le_iff_toNat_le.mp hmax]
    | register r => cases r <;> rfl
    | @symbol name hname hfree =>
        have hnone : Register.ofName? name = none := by
          rw [Option.eq_none_iff_forall_ne_some]
          intro r hr
          exact hfree r ((Register.ofName?_eq_some_iff name r).mp hr)
        simp [parse, decimal?_of_isSymbol hname, hnone, hname]

/-! ### Calculations -/

/-- Fields hold plain characters only, and none of those that mark the kind
of a line or separate fields. -/
theorem plain_of_mem_fieldChars {c : Char} (h : c ∈ fieldChars) :
    isPlain c = true ∧ c ∉ ['(', '@', ';', '='] := by
  have hall : fieldChars.all (fun c => isPlain c && decide (c ∉ ['(', '@', ';', '='])) = true :=
    rfl
  have hc := List.all_eq_true.mp hall c h
  rw [Bool.and_eq_true, decide_eq_true_eq] at hc
  exact hc

/-- A field holds no separator. -/
theorem not_mem_of_isField {cs : List Char} (h : isField cs = true) {sep : Char}
    (hsep : sep ∈ ['(', '@', ';', '=']) : sep ∉ cs := by
  intro hmem
  exact (plain_of_mem_fieldChars (mem_fieldChars_of_isField h sep hmem)).2 hsep

/-- A spelling holds none of the marks by which lines are told apart and cut. -/
theorem not_mem_of_spelling {comp : List Char} {k : Computation}
    (h : String.ofList comp ∈ k.spellings) {sep : Char} (hsep : sep ∈ ['(', '@', ';', '=']) :
    sep ∉ comp := by
  have hfield := Computation.isField_of_mem_spellings h
  rw [String.toList_ofList] at hfield
  exact not_mem_of_isField hfield hsep

/-- The characters of a destination field. -/
theorem DestinationField.mem {field : List Char} {dest : Destination}
    (h : DestinationField field dest) {c : Char} (hc : c ∈ field) : c ∈ fieldChars ∨ c = '=' := by
  cases h with
  | omitted => cases hc
  | given hletters =>
      rw [List.mem_append, List.mem_singleton] at hc
      exact hc.imp_left (mem_fieldChars_of_isField (Destination.isField_of_perm hletters) c)

/-- The characters of a condition field. -/
theorem JumpField.mem {field : List Char} {jump : Jump} (h : JumpField field jump) {c : Char}
    (hc : c ∈ field) : c ∈ fieldChars ∨ c = ';' := by
  cases h with
  | omitted => cases hc
  | given jump =>
      exact (List.mem_cons.mp hc).symm.imp_left (mem_fieldChars_of_isField jump.isField_text c)

/-- A destination is cut off where its sign is. -/
theorem DestinationField.cut {field comp : List Char} {dest : Destination}
    (h : DestinationField field dest) (hcomp : '=' ∉ comp) :
    ∃ letters, (splitOnce '=' (field ++ comp)).getD ([], field ++ comp) = (letters, comp) ∧
      Destination.parse (String.ofList letters) = .ok dest := by
  cases h with
  | omitted =>
      refine ⟨[], ?_, rfl⟩
      rw [List.nil_append, splitOnce_of_not_mem hcomp]
      rfl
  | @given letters dest hletters =>
      have hsign : '=' ∉ letters :=
        not_mem_of_isField (Destination.isField_of_perm hletters) (by decide)
      refine ⟨letters, ?_, ?_⟩
      · rw [List.append_assoc, List.singleton_append, splitOnce_append hsign]
        rfl
      · rw [Destination.parse_eq_ok_iff, String.toList_ofList]
        exact hletters

/-- What is cut off before a computation is a destination field. -/
theorem destinationField_of_cut {body letters comp : List Char} {dest : Destination}
    (hcut : (splitOnce '=' body).getD ([], body) = (letters, comp))
    (hparse : Destination.parse (String.ofList letters) = .ok dest) :
    ∃ field, body = field ++ comp ∧ DestinationField field dest := by
  rcases splitOnce_cases '=' body with ⟨-, hnone⟩ | ⟨xs, ys, hbody, -, hsome⟩
  · rw [hnone] at hcut
    cases hcut
    cases hparse
    exact ⟨[], rfl, .omitted⟩
  · rw [hsome] at hcut
    cases hcut
    rw [Destination.parse_eq_ok_iff, String.toList_ofList] at hparse
    exact ⟨letters ++ ['='], by rw [hbody, List.append_assoc]; rfl, .given hparse⟩

/-- A condition is cut off where its sign is. -/
theorem JumpField.cut {field body : List Char} {jump : Jump} (h : JumpField field jump)
    (hbody : ';' ∉ body) :
    ∃ rest, (splitOnce ';' (body ++ field)).getD (body ++ field, []) = (body, rest) ∧
      Jump.parse (String.ofList rest) = .ok jump := by
  cases h with
  | omitted =>
      refine ⟨[], ?_, rfl⟩
      rw [List.append_nil, splitOnce_of_not_mem hbody]
      rfl
  | given jump =>
      refine ⟨jump.text.toList, ?_, ?_⟩
      · rw [splitOnce_append hbody]
        rfl
      · rw [Jump.parse_eq_ok_iff, String.ofList_toList]

/-- What is cut off behind a computation is a condition field. -/
theorem jumpField_of_cut {cs body rest : List Char} {jump : Jump}
    (hcut : (splitOnce ';' cs).getD (cs, []) = (body, rest))
    (hparse : Jump.parse (String.ofList rest) = .ok jump) :
    ∃ field, cs = body ++ field ∧ JumpField field jump := by
  rcases splitOnce_cases ';' cs with ⟨-, hnone⟩ | ⟨xs, ys, hcs, -, hsome⟩
  · rw [hnone] at hcut
    cases hcut
    cases hparse
    exact ⟨[], (List.append_nil _).symm, .omitted⟩
  · rw [hsome] at hcut
    cases hcut
    rw [Jump.parse_eq_ok_iff] at hparse
    have hrest : rest = jump.text.toList := by rw [← hparse, String.toList_ofList]
    exact ⟨';' :: rest, hcs, hrest ▸ .given jump⟩

namespace Instruction

/-- A calculation is read if its three fields are. -/
theorem parseCalculation_of_cut {cs body rest letters comp : List Char}
    (hbody : (splitOnce ';' cs).getD (cs, []) = (body, rest))
    (hcomp : (splitOnce '=' body).getD ([], body) = (letters, comp)) (c : Calculation) :
    parseCalculation cs = .ok c ↔ Jump.parse (String.ofList rest) = .ok c.jump ∧
      Destination.parse (String.ofList letters) = .ok c.dest ∧
      Computation.parse (String.ofList comp) = .ok c.comp := by
  obtain ⟨dest, k, jump⟩ := c
  simp only [parseCalculation, hbody, hcomp]
  cases Jump.parse (String.ofList rest) with
  | error cause => simp [bind, Except.bind]
  | ok j =>
      cases Destination.parse (String.ofList letters) with
      | error cause => simp [bind, Except.bind]
      | ok d =>
          cases Computation.parse (String.ofList comp) with
          | error cause => simp [bind, Except.bind]
          | ok k' =>
              simp only [bind, Except.bind, pure, Except.pure, Except.ok.injEq,
                Calculation.mk.injEq]
              exact and_rotate.symm

/-- **A calculation is read from exactly the texts that stand for it.** -/
theorem parseCalculation_eq_ok_iff (cs : List Char) (c : Calculation) :
    parseCalculation cs = .ok c ↔ Written cs (.compute c) := by
  constructor
  · intro h
    rcases hbody : (splitOnce ';' cs).getD (cs, []) with ⟨body, rest⟩
    rcases hcomp : (splitOnce '=' body).getD ([], body) with ⟨letters, comp⟩
    obtain ⟨hjump, hdest, hk⟩ := (parseCalculation_of_cut hbody hcomp c).mp h
    obtain ⟨jumpField, rfl, hjumpField⟩ := jumpField_of_cut hbody hjump
    obtain ⟨destField, rfl, hdestField⟩ := destinationField_of_cut hcomp hdest
    exact .compute hdestField ((Computation.parse_eq_ok_iff _ _).mp hk) hjumpField
  · intro h
    cases h with
    | @compute dest comp jump c hdest hcomp hjump =>
        obtain ⟨letters, hcut, hletters⟩ := hdest.cut (not_mem_of_spelling hcomp (by decide))
        have hbody : ';' ∉ dest ++ comp := by
          rw [List.mem_append, not_or]
          refine ⟨fun hmem => ?_, not_mem_of_spelling hcomp (by decide)⟩
          exact absurd (hdest.mem hmem) (by decide)
        obtain ⟨rest, hcut', hrest⟩ := hjump.cut hbody
        rw [parseCalculation_of_cut hcut' hcut]
        exact ⟨hrest, hletters, (Computation.parse_eq_ok_iff _ _).mpr hcomp⟩

/-- The characters of a calculation: those of the fields and the two
signs. -/
theorem Written.mem_compute {cs : List Char} {c : Calculation} (h : Written cs (.compute c))
    {d : Char} (hd : d ∈ cs) : d ∈ fieldChars ∨ d = '=' ∨ d = ';' := by
  cases h with
  | compute hdest hcomp hjump =>
      rw [List.mem_append, List.mem_append] at hd
      rcases hd with (hd | hd) | hd
      · exact (hdest.mem hd).imp_right .inl
      · have hfield := Computation.isField_of_mem_spellings hcomp
        rw [String.toList_ofList] at hfield
        exact .inl (mem_fieldChars_of_isField hfield d hd)
      · exact (hjump.mem hd).imp_right .inr

/-- A calculation is neither empty nor does it start like a label or a
load. -/
theorem Written.exists_cons_compute {cs : List Char} {c : Calculation}
    (h : Written cs (.compute c)) : ∃ d ds, cs = d :: ds ∧ d ≠ '(' ∧ d ≠ '@' := by
  cases cs with
  | nil =>
      have hread := (parseCalculation_eq_ok_iff [] c).mpr h
      cases hread
  | cons d ds =>
      refine ⟨d, ds, rfl, ?_⟩
      rcases h.mem_compute List.mem_cons_self with hfield | rfl | rfl
      · have hmark := (plain_of_mem_fieldChars hfield).2
        exact ⟨fun h => hmark (by simp [h]), fun h => hmark (by simp [h])⟩
      · decide
      · decide

/-! ### Lines -/

/-- **A label is a symbol in parentheses.** -/
theorem parseLabel_eq_ok_iff (inside : List Char) (i : Instruction) :
    parseLabel inside = .ok i ↔
      ∃ name : String, inside = name.toList ++ [')'] ∧ isSymbol name.toList = true ∧
        i = .label name := by
  constructor
  · intro h
    rw [parseLabel] at h
    split at h
    · rename_i hclosed
      simp only at h
      split at h
      · rename_i hsymbol
        cases h
        obtain ⟨name, rfl⟩ := List.getLast?_eq_some_iff.mp hclosed
        rw [List.dropLast_concat] at hsymbol ⊢
        refine ⟨String.ofList name, ?_, ?_, rfl⟩
        · rw [String.toList_ofList]
        · rw [String.toList_ofList]
          exact hsymbol
      · cases h
    · cases h
  · rintro ⟨name, rfl, hsymbol, rfl⟩
    simp [parseLabel, hsymbol]

/-- The first character of an instruction says how the rest is read. -/
theorem Written.read {code : List Char} {i : Instruction} (h : Written code i) :
    (∃ inside, code = '(' :: inside ∧ parseLabel inside = .ok i) ∨
    (∃ cs operand, code = '@' :: cs ∧ Operand.parse cs = .ok operand ∧ i = .load operand) ∨
    ∃ d ds c, code = d :: ds ∧ d ≠ '(' ∧ d ≠ '@' ∧ parseCalculation (d :: ds) = .ok c ∧
      i = .compute c := by
  cases h with
  | label hname => exact .inl ⟨_, rfl, (parseLabel_eq_ok_iff _ _).mpr ⟨_, rfl, hname, rfl⟩⟩
  | load hoperand =>
      exact .inr (.inl ⟨_, _, rfl, (Operand.parse_eq_ok_iff _ _).mpr hoperand, rfl⟩)
  | @compute dest comp jump c hdest hcomp hjump =>
      have hwritten := Written.compute hdest hcomp hjump
      obtain ⟨d, ds, hcode, hparen, hat⟩ := hwritten.exists_cons_compute
      rw [hcode] at hwritten
      exact .inr (.inr ⟨d, ds, c, hcode, hparen, hat,
        (parseCalculation_eq_ok_iff _ _).mpr hwritten, rfl⟩)

/-- What is read from a line is what is read from its text. -/
theorem map_eq_ok_some {α : Type} {part : Except Malformed α} {f : α → Instruction}
    {i : Instruction} (h : (some ∘ f) <$> part = .ok (some i)) : ∃ a, part = .ok a ∧ f a = i := by
  cases part with
  | error cause => cases h
  | ok a =>
      cases h
      exact ⟨a, rfl, rfl⟩

/-- **An instruction is read from exactly the lines that stand for it.** -/
theorem parse_eq_ok_some_iff (line : List Char) (i : Instruction) :
    parse line = .ok (some i) ↔ Written (squeeze (uncommented line)) i := by
  rw [parse]
  generalize squeeze (uncommented line) = code
  constructor
  · intro h
    split at h
    · cases h
    · obtain ⟨_, hlabel, rfl⟩ := map_eq_ok_some (f := id) h
      obtain ⟨name, rfl, hname, hi⟩ := (parseLabel_eq_ok_iff _ _).mp hlabel
      rw [id, hi]
      exact .label hname
    · obtain ⟨operand, hoperand, rfl⟩ := map_eq_ok_some h
      exact .load ((Operand.parse_eq_ok_iff _ _).mp hoperand)
    · obtain ⟨c, hc, rfl⟩ := map_eq_ok_some h
      exact (parseCalculation_eq_ok_iff _ _).mp hc
  · intro h
    rcases h.read with ⟨inside, rfl, hlabel⟩ | ⟨cs, operand, rfl, hoperand, rfl⟩ |
      ⟨d, ds, c, rfl, hparen, hat, hc, rfl⟩
    · show some <$> parseLabel inside = _
      rw [hlabel]
      rfl
    · show (some ∘ load) <$> Operand.parse cs = _
      rw [hoperand]
      rfl
    · split
      · contradiction
      · simp_all
      · simp_all
      · rw [hc]
        rfl

/-- A line holds no instruction exactly if nothing is left of it. -/
theorem parse_eq_ok_none_iff (line : List Char) :
    parse line = .ok none ↔ squeeze (uncommented line) = [] := by
  have hread : ∀ {α : Type} (part : Except Malformed α) (f : α → Instruction),
      (some ∘ f) <$> part ≠ .ok none := by
    intro α part f h
    cases part <;> cases h
  rw [parse]
  generalize squeeze (uncommented line) = code
  constructor
  · intro h
    split at h
    · rfl
    · exact absurd h (hread _ id)
    · exact absurd h (hread _ load)
    · exact absurd h (hread _ compute)
  · rintro rfl
    rfl

/-- **Reading a line accepts exactly what the grammar says.** The line is
taken up to its first pair of slashes and without its blanks. If nothing
is left, it holds nothing; if what is left stands for an instruction, it
holds that one; and any other line is refused. -/
theorem parse_exact (line : List Char) :
    ∃ code, IsCode line code ∧
      (parse line = .ok none ↔ squeeze code = []) ∧
      (∀ i, parse line = .ok (some i) ↔ Written (squeeze code) i) ∧
      ((∃ cause, parse line = .error cause) ↔
        squeeze code ≠ [] ∧ ∀ i, ¬Written (squeeze code) i) := by
  refine ⟨uncommented line, isCode_uncommented line, parse_eq_ok_none_iff line,
    parse_eq_ok_some_iff line, ?_⟩
  simp only [← parse_eq_ok_some_iff, Ne, ← parse_eq_ok_none_iff]
  cases parse line with
  | error cause => simp
  | ok i? => cases i? <;> simp

end Instruction

end HackComputer.Assembly
