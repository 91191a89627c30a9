import HackComputer.Proofs.Text.Lines
import HackComputer.Proofs.Vm.Origin
import Mathlib.Data.List.Forall2

/-!
# `HackComputer.Proofs.Vm.Grammar`: which lines are commands

A command is written as its name and the words for its operands. Two
relations say this without reading anything. `Command.Written` is the
grammar: the words that write a command. `Command.Refused` is the order of
complaints: the fault that a reader of the words comes upon first.

* `signatures`: the operands of every command, by name.
* `Slot.Accepts`, `Slot.complaint`: the words that an operand can be, and
  what is wrong with all others.
* `Faulty`: operands are looked at from left to right, and words behind
  the last operand come last.
* `Command.ofWords_eq_ok_iff`, `Command.ofWords_eq_error_iff`: reading
  follows the two relations.
* `Command.parse_verdict`: the same for a line and its words.

For the faults it does not matter what an operand means, only whether it
can be read. So `readAll` checks a list of operands and forgets their
values, and `map_snd_parseNamed` says that every command does just this.
-/

set_option autoImplicit false

namespace HackComputer.Vm

open Isa

/-! ### Operands -/

/-- The word writes the number: decimal digits, at least one of them, with
at most one plus sign in front. -/
def IsNumber (s : String) (value : Word) : Prop :=
  ∃ digits, (s.toList = digits ∨ s.toList = '+' :: digits) ∧ digits ≠ [] ∧
    (∀ c ∈ digits, c.isDigit = true) ∧ Nat.ofDigitChars 10 digits 0 = value.toNat

/-- The name holds no `$`. -/
def isSourceName (name : String) : Prop :=
  '$' ∉ name.toList

/-- A word is read as the segment with this name. -/
theorem Segment.parse_eq_ok_iff {s : String} {segment : Segment} :
    Segment.parse s = .ok segment ↔ segment.name = s := by
  constructor
  · intro h
    rw [Segment.parse] at h
    split at h
    · rename_i found hfound
      have hname := List.find?_some hfound
      cases h
      exact beq_iff_eq.mp hname
    · cases h
  · rintro rfl
    cases segment <;> rfl

namespace Command

/-- Digits are read as their number if it has sixteen bits. -/
theorem parseNumber_eq_ok_iff {s : String} {value : Word} :
    parseNumber s = .ok value ↔ IsNumber s value := by
  rw [parseNumber]
  constructor
  · intro h
    split at h
    · rename_i n hn
      split at h
      · rename_i hlt
        cases h
        obtain ⟨digits, hs, hsome, hdigit, hvalue⟩ := (Text.unsigned?_eq_some_iff _ _).mp hn
        refine ⟨digits, hs, hsome, hdigit, ?_⟩
        rw [hvalue]
        exact (Nat.mod_eq_of_lt hlt).symm
      · cases h
    · cases h
  · intro h
    rw [(Text.unsigned?_eq_some_iff s.toList value.toNat).mpr h]
    show (if value.toNat < UInt16.size then _ else _) = _
    rw [if_pos value.toNat_lt_size]
    exact congrArg Except.ok UInt16.ofNat_toNat

/-- A name is read as it is. -/
theorem parseName_eq_ok_iff {s name : String} :
    parseName s = .ok name ↔ s = name ∧ isSourceName name := by
  simp only [parseName, List.contains_iff_mem]
  constructor
  · intro h
    split at h
    · cases h
    · rename_i hfree
      cases h
      exact ⟨rfl, hfree⟩
  · rintro ⟨rfl, hfree⟩
    rw [if_neg hfree]

end Command

/-- The kinds of operands. -/
inductive Slot where
  | segment
  | index
  | label
  | name
  | count
  deriving DecidableEq, Repr

namespace Slot

/-- What is missing without the operand. -/
def missing : Slot → Missing
  | segment => .segment
  | index => .index
  | label => .label
  | name => .name
  | count => .count

/-- The word can be the operand. -/
def Accepts : Slot → String → Prop
  | segment, s => ∃ segment : Segment, segment.name = s
  | index, s | count, s => ∃ value, IsNumber s value
  | label, s | name, s => isSourceName s

/-- What is wrong with a word that cannot be the operand. -/
def complaint : Slot → String → Fault
  | segment, s => .unknownSegment s
  | index, s | count, s => .invalidNumber s
  | label, s | name, s => .invalidOperation (.reservedName s)

/-- Reads an operand and forgets its value. -/
def read : Slot → String → Except Fault Unit
  | segment, s => (Segment.parse s).map fun _ => ()
  | index, s | count, s => (Command.parseNumber s).map fun _ => ()
  | label, s | name, s => (Command.parseName s).map fun _ => ()

/-- A word that can be the operand is read. -/
theorem read_of_accepts {slot : Slot} {s : String} (h : slot.Accepts s) :
    slot.read s = .ok () := by
  cases slot with
  | segment =>
      obtain ⟨segment, hname⟩ := h
      rw [read, Segment.parse_eq_ok_iff.mpr hname]
      rfl
  | index | count =>
      obtain ⟨value, hnumber⟩ := h
      rw [read, Command.parseNumber_eq_ok_iff.mpr hnumber]
      rfl
  | label | name =>
      rw [read, Command.parseName_eq_ok_iff.mpr ⟨rfl, h⟩]
      rfl

/-- Any other word is refused with the operand's complaint. -/
theorem read_of_not_accepts {slot : Slot} {s : String} (h : ¬slot.Accepts s) :
    slot.read s = .error (slot.complaint s) := by
  cases slot with
  | segment =>
      rw [read]
      cases hread : Segment.parse s with
      | ok segment => exact absurd ⟨segment, Segment.parse_eq_ok_iff.mp hread⟩ h
      | error fault =>
          rw [Segment.parse] at hread
          split at hread <;> cases hread
          rfl
  | index | count =>
      rw [read]
      cases hread : Command.parseNumber s with
      | ok value => exact absurd ⟨value, Command.parseNumber_eq_ok_iff.mp hread⟩ h
      | error fault =>
          rw [Command.parseNumber] at hread
          split at hread
          · split at hread <;> cases hread
            rfl
          · cases hread
            rfl
  | label | name =>
      have hmem : s.toList.contains '$' = true :=
        List.contains_iff_mem.mpr (Decidable.not_not.mp h)
      rw [read, Command.parseName, if_pos hmem]
      rfl

end Slot

/-! ### Lists of operands -/

/-- Reads operands from left to right, and yields the words behind them. -/
def readAll : List Slot → List String → Except Fault (List String)
  | [], args => .ok args
  | slot :: _, [] => .error (.missingOperand slot.missing)
  | slot :: slots, word :: args => (slot.read word).bind fun _ => readAll slots args

/-- Nothing may stand behind the operands. -/
def noMore : List String → Except Fault Unit
  | [] => .ok ()
  | extra :: _ => .error (.unexpectedOperand extra)

/-- The words are no operands of these kinds, with the fault of the first
that is missing or wrong, or of the first word behind the last operand. -/
inductive Faulty (slots : List Slot) : List String → Fault → Prop
  | absent {done later : List Slot} {slot : Slot} {args : List String}
      (hslots : slots = done ++ slot :: later) (hgood : List.Forall₂ Slot.Accepts done args) :
      Faulty slots args (.missingOperand slot.missing)
  | malformed {done later : List Slot} {slot : Slot} {good rest : List String} {word : String}
      (hslots : slots = done ++ slot :: later) (hgood : List.Forall₂ Slot.Accepts done good)
      (hbad : ¬slot.Accepts word) :
      Faulty slots (good ++ word :: rest) (slot.complaint word)
  | surplus {good rest : List String} {extra : String}
      (hgood : List.Forall₂ Slot.Accepts slots good) :
      Faulty slots (good ++ extra :: rest) (.unexpectedOperand extra)

/-- A good operand in front does not change the fault. -/
theorem Faulty.cons {slot : Slot} {slots : List Slot} {word : String} {args : List String}
    {fault : Fault} (hword : slot.Accepts word) (h : Faulty slots args fault) :
    Faulty (slot :: slots) (word :: args) fault := by
  cases h with
  | absent hslots hgood =>
      exact .absent (congrArg (slot :: ·) hslots) (.cons hword hgood)
  | malformed hslots hgood hbad =>
      exact .malformed (congrArg (slot :: ·) hslots) (.cons hword hgood) hbad
  | surplus hgood => exact .surplus (.cons hword hgood)

/-- Good operands in front are read, and the others after them. -/
theorem readAll_append {done : List Slot} {good : List String}
    (h : List.Forall₂ Slot.Accepts done good) (slots : List Slot) (args : List String) :
    readAll (done ++ slots) (good ++ args) = readAll slots args := by
  induction h with
  | nil => rfl
  | cons hword _ ih =>
      rw [List.cons_append, List.cons_append, readAll, Slot.read_of_accepts hword]
      exact ih

/-- **The first fault is the one that is found.** -/
theorem readAll_noMore_eq_error_iff {slots : List Slot} {args : List String} {fault : Fault} :
    (readAll slots args).bind noMore = .error fault ↔ Faulty slots args fault := by
  have hnone : List.Forall₂ Slot.Accepts [] [] := .nil
  constructor
  · intro h
    induction slots generalizing args with
    | nil =>
        cases args with
        | nil => cases h
        | cons extra rest =>
            cases h
            exact .surplus hnone
    | cons slot slots ih =>
        cases args with
        | nil =>
            cases h
            exact .absent rfl hnone
        | cons word args =>
            rw [readAll] at h
            by_cases hword : slot.Accepts word
            · rw [Slot.read_of_accepts hword] at h
              exact (ih h).cons hword
            · rw [Slot.read_of_not_accepts hword] at h
              cases h
              exact .malformed rfl hnone hword
  · intro h
    cases h with
    | @absent done later slot args hslots hgood =>
        have hread := readAll_append hgood (slot :: later) []
        rw [List.append_nil] at hread
        rw [hslots, hread]
        rfl
    | malformed hslots hgood hbad =>
        rw [hslots, readAll_append hgood, readAll, Slot.read_of_not_accepts hbad]
        rfl
    | @surplus good rest extra hgood =>
        have hread := readAll_append hgood [] (extra :: rest)
        rw [List.append_nil] at hread
        rw [hread]
        rfl

/-! ### Commands -/

/-- The operands of every command. -/
def signatures : List (String × List Slot) :=
  [("push", [.segment, .index]), ("pop", [.segment, .index]),
    ("label", [.label]), ("goto", [.label]), ("if-goto", [.label]),
    ("function", [.name, .count]), ("call", [.name, .count]), ("return", [])]
    ++ Arithmetic.all.map fun op => (op.name, [])

namespace Command

/-- The words write the command. -/
inductive Written : List String → Command → Prop
  | arithmetic (op : Arithmetic) : Written [op.name] (.arithmetic op)
  | push {segment : Segment} {number : String} {index : Word} (hnumber : IsNumber number index) :
      Written ["push", segment.name, number] (.push segment index)
  | pop {segment : Segment} {number : String} {index : Word} (hnumber : IsNumber number index) :
      Written ["pop", segment.name, number] (.pop segment index)
  | label {name : String} (hname : isSourceName name) : Written ["label", name] (.label name)
  | goto {name : String} (hname : isSourceName name) : Written ["goto", name] (.goto name)
  | ifGoto {name : String} (hname : isSourceName name) : Written ["if-goto", name] (.ifGoto name)
  | function {name number : String} {locals : Word} (hname : isSourceName name)
      (hnumber : IsNumber number locals) :
      Written ["function", name, number] (.function name locals)
  | call {name number : String} {arguments : Word} (hname : isSourceName name)
      (hnumber : IsNumber number arguments) :
      Written ["call", name, number] (.call name arguments)
  | ret : Written ["return"] .ret

/-- The words write no command, and this is the fault to report. -/
inductive Refused : List String → Fault → Prop
  | empty : Refused [] (.missingOperand .command)
  | unknown {name : String} {args : List String} (hname : signatures.lookup name = none) :
      Refused (name :: args) (.unknownCommand name)
  | operand {name : String} {args : List String} {slots : List Slot} {fault : Fault}
      (hname : signatures.lookup name = some slots) (hfault : Faulty slots args fault) :
      Refused (name :: args) fault

/-- What is read as a segment and an index. -/
theorem parseCell_eq_ok_iff {args rest : List String} {segment : Segment} {index : Word} :
    parseCell args = .ok ((segment, index), rest) ↔
      ∃ number, args = segment.name :: number :: rest ∧ IsNumber number index := by
  constructor
  · intro h
    obtain ⟨⟨word, args'⟩, hword, h⟩ := bind_eq_ok h
    obtain ⟨segment', hsegment, h⟩ := bind_eq_ok h
    obtain ⟨⟨number, rest'⟩, hnumber, h⟩ := bind_eq_ok h
    obtain ⟨index', hindex, h⟩ := bind_eq_ok h
    cases h
    rcases args with _ | ⟨first, _ | ⟨second, args⟩⟩ <;> cases hword <;> cases hnumber
    exact ⟨number, by rw [Segment.parse_eq_ok_iff.mp hsegment], parseNumber_eq_ok_iff.mp hindex⟩
  · rintro ⟨number, rfl, hnumber⟩
    show (Segment.parse segment.name >>= fun segment => parseNumber number >>= fun index =>
      pure ((segment, index), rest)) = _
    rw [Segment.parse_eq_ok_iff.mpr rfl, parseNumber_eq_ok_iff.mpr hnumber]
    rfl

/-- What is read as the name of a label. -/
theorem parseTarget_eq_ok_iff {args rest : List String} {name : String} :
    parseTarget args = .ok (name, rest) ↔ args = name :: rest ∧ isSourceName name := by
  constructor
  · intro h
    obtain ⟨⟨word, args'⟩, hword, h⟩ := bind_eq_ok h
    obtain ⟨name', hname, h⟩ := bind_eq_ok h
    cases h
    obtain ⟨rfl, hsource⟩ := parseName_eq_ok_iff.mp hname
    cases args <;> cases hword
    exact ⟨rfl, hsource⟩
  · rintro ⟨rfl, hname⟩
    show (parseName name >>= fun name => pure (name, rest)) = _
    rw [parseName_eq_ok_iff.mpr ⟨rfl, hname⟩]
    rfl

/-- What is read as the name of a function and a count. -/
theorem parseFunction_eq_ok_iff {args rest : List String} {name : String} {count : Word} :
    parseFunction args = .ok ((name, count), rest) ↔
      ∃ number, args = name :: number :: rest ∧ isSourceName name ∧ IsNumber number count := by
  constructor
  · intro h
    obtain ⟨⟨word, args'⟩, hword, h⟩ := bind_eq_ok h
    obtain ⟨name', hname, h⟩ := bind_eq_ok h
    obtain ⟨⟨number, rest'⟩, hnumber, h⟩ := bind_eq_ok h
    obtain ⟨count', hcount, h⟩ := bind_eq_ok h
    cases h
    obtain ⟨rfl, hsource⟩ := parseName_eq_ok_iff.mp hname
    rcases args with _ | ⟨first, _ | ⟨second, args⟩⟩ <;> cases hword <;> cases hnumber
    exact ⟨number, rfl, hsource, parseNumber_eq_ok_iff.mp hcount⟩
  · rintro ⟨number, rfl, hname, hnumber⟩
    show (parseName name >>= fun name => parseNumber number >>= fun count =>
      pure ((name, count), rest)) = _
    rw [parseName_eq_ok_iff.mpr ⟨rfl, hname⟩, parseNumber_eq_ok_iff.mpr hnumber]
    rfl

/-- A command that is read without a word left over is written in these
words. -/
theorem written_of_parseNamed {name : String} {args : List String} {command : Command}
    (h : parseNamed name args = .ok (command, [])) : Written (name :: args) command := by
  unfold parseNamed at h
  split at h
  case h_1 | h_2 =>
    obtain ⟨⟨⟨segment, index⟩, rest⟩, hcell, hlast⟩ := bind_eq_ok h
    cases hlast
    obtain ⟨number, rfl, hnumber⟩ := parseCell_eq_ok_iff.mp hcell
    constructor
    exact hnumber
  case h_3 | h_4 | h_5 =>
    obtain ⟨⟨target, rest⟩, htarget, hlast⟩ := bind_eq_ok h
    cases hlast
    obtain ⟨rfl, hname⟩ := parseTarget_eq_ok_iff.mp htarget
    constructor
    exact hname
  case h_6 | h_7 =>
    obtain ⟨⟨⟨target, count⟩, rest⟩, hfunction, hlast⟩ := bind_eq_ok h
    cases hlast
    obtain ⟨number, rfl, hname, hnumber⟩ := parseFunction_eq_ok_iff.mp hfunction
    constructor
    · exact hname
    · exact hnumber
  case h_8 =>
    cases h
    exact .ret
  case h_9 =>
    split at h
    · rename_i op hop
      have hname := List.find?_some hop
      cases h
      obtain rfl : op.name = name := beq_iff_eq.mp hname
      exact .arithmetic op
    · cases h

/-- Words that write a command are read as it. -/
theorem Written.read {words : List String} {command : Command} (h : Written words command) :
    ofWords words = .ok command := by
  cases h with
  | arithmetic op => cases op <;> rfl
  | push hnumber | pop hnumber =>
      rw [ofWords, parseNamed, parseCell_eq_ok_iff.mpr ⟨_, rfl, hnumber⟩]
      rfl
  | label hname | goto hname | ifGoto hname =>
      rw [ofWords, parseNamed, parseTarget_eq_ok_iff.mpr ⟨rfl, hname⟩]
      rfl
  | function hname hnumber | call hname hnumber =>
      rw [ofWords, parseNamed, parseFunction_eq_ok_iff.mpr ⟨_, rfl, hname, hnumber⟩]
      rfl
  | ret => rfl

/-- **Words are read as the command that they write.** -/
theorem ofWords_eq_ok_iff {words : List String} {command : Command} :
    ofWords words = .ok command ↔ Written words command := by
  refine ⟨?_, Written.read⟩
  intro h
  cases words with
  | nil => cases h
  | cons name args =>
      rw [ofWords] at h
      split at h
      · cases h
      · rename_i hnamed
        cases h
        exact written_of_parseNamed hnamed
      · cases h

/-! ### Faults -/

section
variable (args : List String)

/-- A segment and an index are two operands. -/
theorem map_snd_parseCell : (parseCell args).map Prod.snd = readAll [.segment, .index] args := by
  rcases args with _ | ⟨word, _ | ⟨number, rest⟩⟩
  · rfl
  · simp only [parseCell, operand, bind, Except.bind, readAll, Slot.read]
    cases Segment.parse word <;> rfl
  · simp only [parseCell, operand, bind, Except.bind, readAll, Slot.read]
    cases Segment.parse word <;> cases parseNumber number <;> rfl

/-- The name of a label is one operand. -/
theorem map_snd_parseTarget : (parseTarget args).map Prod.snd = readAll [.label] args := by
  cases args with
  | nil => rfl
  | cons word rest =>
      simp only [parseTarget, operand, bind, Except.bind, readAll, Slot.read]
      cases parseName word <;> rfl

/-- The name of a function and a count are two operands. -/
theorem map_snd_parseFunction :
    (parseFunction args).map Prod.snd = readAll [.name, .count] args := by
  rcases args with _ | ⟨word, _ | ⟨number, rest⟩⟩
  · rfl
  · simp only [parseFunction, operand, bind, Except.bind, readAll, Slot.read]
    cases parseName word <;> rfl
  · simp only [parseFunction, operand, bind, Except.bind, readAll, Slot.read]
    cases parseName word <;> cases parseNumber number <;> rfl

end

/-- Arithmetic commands have no operands. -/
theorem lookup_arithmetic (ops : List Arithmetic) (name : String) :
    (ops.map fun op => (op.name, ([] : List Slot))).lookup name
      = (ops.find? (·.name == name)).map fun _ => [] := by
  induction ops with
  | nil => rfl
  | cons op ops ih =>
      rw [List.map_cons, List.lookup_cons, List.find?_cons, BEq.comm]
      cases op.name == name with
      | true => rfl
      | false => exact ih

/-- What a command leaves is what is left behind its operands. -/
theorem map_snd_parseNamed (name : String) (args : List String) :
    (parseNamed name args).map Prod.snd
      = match signatures.lookup name with
        | some slots => readAll slots args
        | none => .error (.unknownCommand name) := by
  -- The command is made from what was read, so the words left are the same.
  have hbuild : ∀ {α : Type} (part : Except Fault (α × List String)) (build : α → Command),
      (part >>= fun read => pure (build read.1, read.2)).map Prod.snd = part.map Prod.snd := by
    intro α part build
    cases part <;> rfl
  unfold parseNamed
  split
  case h_1 => exact (hbuild _ fun cell => push cell.1 cell.2).trans (map_snd_parseCell args)
  case h_2 => exact (hbuild _ fun cell => pop cell.1 cell.2).trans (map_snd_parseCell args)
  case h_3 => exact (hbuild _ label).trans (map_snd_parseTarget args)
  case h_4 => exact (hbuild _ goto).trans (map_snd_parseTarget args)
  case h_5 => exact (hbuild _ ifGoto).trans (map_snd_parseTarget args)
  case h_6 => exact (hbuild _ fun f => function f.1 f.2).trans (map_snd_parseFunction args)
  case h_7 => exact (hbuild _ fun f => call f.1 f.2).trans (map_snd_parseFunction args)
  case h_8 => rfl
  case h_9 hpush hpop hlabel hgoto hifGoto hfunction hcall hreturn =>
    have hlookup : signatures.lookup name = (Arithmetic.ofName? name).map fun _ => [] := by
      rw [signatures, List.lookup_append, List.lookup_eq_none_iff.mpr, Option.none_or,
        lookup_arithmetic]
      · rfl
      · have hother : name ≠ "push" ∧ name ≠ "pop" ∧ name ≠ "label" ∧ name ≠ "goto" ∧
            name ≠ "if-goto" ∧ name ≠ "function" ∧ name ≠ "call" ∧ name ≠ "return" :=
          ⟨hpush, hpop, hlabel, hgoto, hifGoto, hfunction, hcall, hreturn⟩
        simpa using hother
    rw [hlookup]
    cases Arithmetic.ofName? name <;> rfl

/-- Reading fails where the name or its operands are at fault. -/
theorem ofWords_cons_eq_error_iff {name : String} {args : List String} {fault : Fault} :
    ofWords (name :: args) = .error fault ↔
      ((parseNamed name args).map Prod.snd).bind noMore = .error fault := by
  have hsame : ∀ first : Fault, (.error first : Except Fault Command) = .error fault ↔
      (.error first : Except Fault Unit) = .error fault := by simp
  rw [ofWords]
  cases parseNamed name args with
  | error first => exact hsame first
  | ok read =>
      obtain ⟨command, rest⟩ := read
      cases rest with
      | nil => exact ⟨nofun, nofun⟩
      | cons extra rest => exact hsame (.unexpectedOperand extra)

/-- **Words that write no command are refused with their first fault.** -/
theorem ofWords_eq_error_iff {words : List String} {fault : Fault} :
    ofWords words = .error fault ↔ Refused words fault := by
  cases words with
  | nil =>
      constructor
      · intro h
        cases h
        exact .empty
      · intro h
        cases h
        rfl
  | cons name args =>
      rw [ofWords_cons_eq_error_iff, map_snd_parseNamed]
      cases hname : signatures.lookup name with
      | none =>
          constructor
          · intro h
            cases h
            exact .unknown hname
          · intro h
            cases h with
            | unknown => rfl
            | operand hslots => rw [hname] at hslots; cases hslots
      | some slots =>
          show (readAll slots args).bind noMore = .error fault ↔ _
          rw [readAll_noMore_eq_error_iff]
          constructor
          · exact .operand hname
          · intro h
            cases h with
            | unknown hnone => rw [hname] at hnone; cases hnone
            | operand hslots hfault =>
                rw [hname] at hslots
                cases hslots
                exact hfault

/-- **A line is read as the command that its words write, and refused with
the first fault of its words if they write none.** -/
theorem parse_verdict (line : List Char) :
    ∃ words : List String, Text.AreWords line (words.map String.toList) ∧
      (∀ command, parse line = .ok command ↔ Written words command) ∧
      ∀ fault, parse line = .error fault ↔ Refused words fault := by
  refine ⟨(Text.words line).map String.ofList, ?_, fun _ => ofWords_eq_ok_iff,
    fun _ => ofWords_eq_error_iff⟩
  rw [← Text.words_eq_iff, List.map_map]
  simp [Function.comp_def]

end Command

end HackComputer.Vm
