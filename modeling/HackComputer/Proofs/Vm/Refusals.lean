import HackComputer.Proofs.Vm.SourceLines
import HackComputer.Proofs.Vm.SourceNames

/-!
# `HackComputer.Proofs.Vm.Refusals`: which programs do not assemble

The checks on a program are made in several places: where a segment is
resolved, where a pop is compiled, where a function is started or called, and
in the walk through the units, which ends at the first of them that fails.
`Command.Impossible` lists the commands that are refused, and why, without any
of these places.

* `Command.named_of_parse`: a command that is read has no empty names. So the
  checks for them never fail on a source.
* `Command.compile_eq_error_iff`: of the others exactly the impossible commands
  are refused. Neither the context nor the labels drawn before have a part in
  it, so each line is refused or not whatever comes before it.
* `Program.assemble_verdict`: the first impossible line of a program is
  reported, in front of it only an entry point without a name.
-/

set_option autoImplicit false

namespace HackComputer.Vm

open Isa Assembly Code

/-! ### What is refused -/

/-- The segment has no such index. -/
inductive Segment.Beyond : Segment → Word → Invalid → Prop
  | constant {value : Word} (h : 32767 < value.toNat) : Beyond .constant value (.wideConstant value)
  | pointer {index : Word} (h : 2 ≤ index.toNat) : Beyond .pointer index (.pointerIndex index)
  | temp {index : Word} (h : 8 ≤ index.toNat) : Beyond .temp index (.tempIndex index)

namespace Command

/-- The command can be read but not carried out. No pop into a constant can,
and one that is too wide is refused for its width. -/
inductive Impossible : Command → Invalid → Prop
  | push {segment : Segment} {index : Word} {why : Invalid} (h : segment.Beyond index why) :
      Impossible (.push segment index) why
  | pop {segment : Segment} {index : Word} {why : Invalid} (h : segment.Beyond index why) :
      Impossible (.pop segment index) why
  | popConstant {value : Word} (h : value.toNat ≤ 32767) :
      Impossible (.pop .constant value) (.popConstant value)
  | function {name : String} {locals : Word} (h : 32767 < locals.toNat) :
      Impossible (.function name locals) (.wideCount .locals locals)
  | call {name : String} {arguments : Word} (h : 32767 < arguments.toNat) :
      Impossible (.call name arguments) (.wideCount .arguments arguments)

/-- No name of a label or a function in the command is empty. -/
def Named (command : Command) : Prop :=
  ∀ name ∈ command.names, name.isEmpty = false

/-- The names of a command are among its words. -/
theorem Written.mem_of_mem_names {words : List String} {command : Command}
    (h : Written words command) {name : String} (hname : name ∈ command.names) : name ∈ words := by
  cases h with
  | arithmetic | push | pop | ret => cases hname
  | label | goto | ifGoto | function | call =>
      rw [List.mem_singleton.mp hname]
      simp

/-- A command that is read has no empty names, since no word is empty. -/
theorem named_of_parse {line : List Char} {command : Command} (h : parse line = .ok command) :
    command.Named := by
  intro name hname
  have hword := (ofWords_eq_ok_iff.mp h).mem_of_mem_names hname
  obtain ⟨word, hmem, rfl⟩ := List.mem_map.mp hword
  simpa using (Text.of_mem_words hmem).2.1

end Command

/-! ### The checks -/

/-- What does not fit into an instruction. -/
theorem not_le_maxImmediate_iff {value : Word} : ¬value ≤ maxImmediate ↔ 32767 < value.toNat := by
  rw [UInt16.le_iff_toNat_le]
  exact Nat.not_le

/-- A check refuses with one reason, and only if its condition fails. -/
theorem check_eq_error_iff {α : Type} {p : Prop} [Decidable p] {a : α} {why : Invalid}
    {fault : Fault} :
    (if p then .ok a else .error (.invalidOperation why) : Except Fault α) = .error fault ↔
      ¬p ∧ fault = .invalidOperation why := by
  by_cases hp : p <;> simp [hp, eq_comm]

/-- **A segment resolves every index that is not beyond it.** -/
theorem Segment.resolve_eq_error_iff {segment : Segment} {unit : String} {index : Word}
    {fault : Fault} :
    segment.resolve unit index = .error fault ↔
      ∃ why, fault = .invalidOperation why ∧ segment.Beyond index why := by
  -- Three segments make a check, each with a bound and a reason of its own.
  have hcases : segment.resolve unit index = .error fault ↔
      match segment with
      | .constant => 32767 < index.toNat ∧ fault = .invalidOperation (.wideConstant index)
      | .pointer => 2 ≤ index.toNat ∧ fault = .invalidOperation (.pointerIndex index)
      | .temp => 8 ≤ index.toNat ∧ fault = .invalidOperation (.tempIndex index)
      | _ => False := by
    cases segment with
    | constant => exact check_eq_error_iff.trans (and_congr_left' not_le_maxImmediate_iff)
    | pointer =>
        refine check_eq_error_iff.trans (and_congr_left' ?_)
        rw [UInt16.le_iff_toNat_le]
        exact Nat.not_le
    | temp =>
        refine check_eq_error_iff.trans (and_congr_left' ?_)
        rw [UInt16.lt_iff_toNat_lt]
        exact Nat.not_lt
    | locals | argument | this | that | static => simp [resolve]
  rw [hcases]
  constructor
  · intro h
    cases segment with
    | constant => exact ⟨_, h.2, .constant h.1⟩
    | pointer => exact ⟨_, h.2, .pointer h.1⟩
    | temp => exact ⟨_, h.2, .temp h.1⟩
    | locals | argument | this | that | static => cases h
  · rintro ⟨why, rfl, h⟩
    cases h with
    | constant h | pointer h | temp h => exact ⟨h, rfl⟩

/-- Only a constant resolves to a value, and to itself. -/
theorem Segment.resolve_eq_immediate_iff {segment : Segment} {unit : String} {index value : Word} :
    segment.resolve unit index = .ok (.immediate value) ↔
      segment = .constant ∧ value = index ∧ index.toNat ≤ 32767 := by
  cases segment with
  | constant =>
      rw [resolve]
      by_cases hfits : index ≤ maxImmediate
      · have hle : index.toNat ≤ 32767 := UInt16.le_iff_toNat_le.mp hfits
        simp [hfits, hle, eq_comm]
      · have hlt := not_le_maxImmediate_iff.mp hfits
        simp [hfits, Nat.not_le.mpr hlt]
  | pointer | temp => rw [resolve]; split <;> simp
  | locals | argument | this | that | static => simp [resolve]

/-- A count is refused if it does not fit into an instruction. -/
theorem Frame.checkCount_eq_error_iff {what : Counted} {count : Word} {fault : Fault} :
    Frame.checkCount what count = .error fault ↔
      32767 < count.toNat ∧ fault = .invalidOperation (.wideCount what count) :=
  check_eq_error_iff.trans (and_congr_left' not_le_maxImmediate_iff)

/-- A label that is not empty has a full name. -/
theorem Context.exists_scope {label : String} (h : label.isEmpty = false) (context : Context) :
    ∃ full, context.scope label = .ok full := by
  rw [scope, h, if_neg Bool.false_ne_true]
  cases context.function with
  | none => exact ⟨_, rfl⟩
  | some function => exact ⟨_, rfl⟩

/-- A function that is not nameless passes its check. -/
theorem Frame.checkName_eq_ok {name : String} (h : name.isEmpty = false) :
    Frame.checkName name = .ok () := by
  rw [Frame.checkName, h, if_neg Bool.false_ne_true]

/-! ### One command -/

namespace Command

section
variable {command : Command} {context : Context} {supply : LabelSupply}

/-- An impossible command is refused. -/
theorem Impossible.compile_eq {why : Invalid} (h : command.Impossible why)
    (hnamed : command.Named) :
    command.compile context supply = .error (.invalidOperation why) := by
  cases h with
  | push hbeyond =>
      rw [compile, Code.push, Segment.resolve_eq_error_iff.mpr ⟨why, rfl, hbeyond⟩]
      rfl
  | pop hbeyond =>
      rw [compile, Code.pop, Segment.resolve_eq_error_iff.mpr ⟨why, rfl, hbeyond⟩]
      rfl
  | popConstant hfits =>
      rw [compile, Code.pop, Segment.resolve_eq_immediate_iff.mpr ⟨rfl, rfl, hfits⟩]
      rfl
  | function hwide =>
      rw [compile, Frame.function, Frame.checkName_eq_ok (hnamed _ List.mem_cons_self),
        Frame.checkCount_eq_error_iff.mpr ⟨hwide, rfl⟩]
      rfl
  | call hwide =>
      rw [compile, Frame.call, Frame.checkName_eq_ok (hnamed _ List.mem_cons_self),
        Frame.checkCount_eq_error_iff.mpr ⟨hwide, rfl⟩]
      rfl

/-- Only impossible commands are refused. -/
theorem impossible_of_compile {fault : Fault} (hnamed : command.Named)
    (h : command.compile context supply = .error fault) :
    ∃ why, fault = .invalidOperation why ∧ command.Impossible why := by
  cases command with
  | arithmetic | ret => cases h
  | push segment index =>
      rw [compile, Code.push] at h
      cases hresolve : segment.resolve context.unit index with
      | error first =>
          rw [hresolve] at h
          cases h
          obtain ⟨why, rfl, hbeyond⟩ := Segment.resolve_eq_error_iff.mp hresolve
          exact ⟨why, rfl, .push hbeyond⟩
      | ok location => rw [hresolve] at h; cases h
  | pop segment index =>
      rw [compile, Code.pop] at h
      cases hresolve : segment.resolve context.unit index with
      | error first =>
          rw [hresolve] at h
          cases h
          obtain ⟨why, rfl, hbeyond⟩ := Segment.resolve_eq_error_iff.mp hresolve
          exact ⟨why, rfl, .pop hbeyond⟩
      | ok location =>
          rw [hresolve] at h
          -- Of what a segment resolves to, only a value has no address.
          cases location with
          | indirect | direct | symbol => cases h
          | immediate value =>
              obtain ⟨rfl, rfl, hfits⟩ := Segment.resolve_eq_immediate_iff.mp hresolve
              cases h
              exact ⟨_, rfl, .popConstant hfits⟩
  | label name | goto name | ifGoto name =>
      obtain ⟨full, hscope⟩ := context.exists_scope (hnamed name List.mem_cons_self)
      rw [compile, hscope] at h
      cases h
  | function name locals =>
      rw [compile, Frame.function, Frame.checkName_eq_ok (hnamed name List.mem_cons_self)] at h
      cases hcount : Frame.checkCount .locals locals with
      | error first =>
          rw [hcount] at h
          cases h
          obtain ⟨hwide, rfl⟩ := Frame.checkCount_eq_error_iff.mp hcount
          exact ⟨_, rfl, .function hwide⟩
      | ok _ =>
          rw [hcount] at h
          -- Behind the checks there is a loop over the locals or none, and neither can fail.
          by_cases hzero : locals = 0
          · subst hzero
            cases h
          · simp only [bind, Except.bind, hzero, if_false] at h
            cases h
  | call name arguments =>
      rw [compile, Frame.call, Frame.checkName_eq_ok (hnamed name List.mem_cons_self)] at h
      cases hcount : Frame.checkCount .arguments arguments with
      | error first =>
          rw [hcount] at h
          cases h
          obtain ⟨hwide, rfl⟩ := Frame.checkCount_eq_error_iff.mp hcount
          exact ⟨_, rfl, .call hwide⟩
      | ok _ => rw [hcount] at h; cases h

/-- **Exactly the impossible commands are refused.** -/
theorem compile_eq_error_iff (hnamed : command.Named) {fault : Fault} :
    command.compile context supply = .error fault ↔
      ∃ why, fault = .invalidOperation why ∧ command.Impossible why := by
  refine ⟨impossible_of_compile hnamed, ?_⟩
  rintro ⟨why, rfl, h⟩
  exact h.compile_eq hnamed

end

end Command

/-! ### Whole programs -/

namespace Program

/-- The line of the unit is refused with this error. -/
def LineFails (unit : String) (line : Line) (e : Error) : Prop :=
  ∃ why, line.command.Impossible why ∧
    e = .located ⟨unit, line.row, line.text⟩ (.fault (.invalidOperation why))

/-- The unit is refused for the first of its lines that is. -/
def UnitFails (unit : SourceUnit) (e : Error) : Prop :=
  FirstFailure (LineFails unit.name) unit.lines e

/-- Adding a line fails if the line is refused. -/
theorem addLine_eq_error_iff {unit : String} {line : Line} (hnamed : line.command.Named)
    (state : Option String × Progress) (e : Error) :
    addLine unit state line = .error e ↔ LineFails unit line e := by
  constructor
  · intro h
    unfold addLine at h
    simp only at h
    split at h
    · cases h
    · rename_i fault hfault
      cases h
      obtain ⟨why, rfl, himpossible⟩ := (Command.compile_eq_error_iff hnamed).mp hfault
      exact ⟨why, himpossible, rfl⟩
  · rintro ⟨why, himpossible, rfl⟩
    have hfault : line.command.compile ⟨unit, functionAt state.1 line.command⟩ state.2.supply
        = .error (.invalidOperation why) :=
      (Command.compile_eq_error_iff hnamed).mpr ⟨why, rfl, himpossible⟩
    simp only [addLine, hfault]

/-- Adding a unit fails at its first line that is refused. -/
theorem addUnit_eq_error_iff {unit : SourceUnit}
    (hnamed : ∀ line ∈ unit.lines, line.command.Named) (progress : Progress) (e : Error) :
    addUnit progress unit = .error e ↔ UnitFails unit e := by
  have hlines : unit.lines.foldlM (addLine unit.name) (none, progress) = .error e ↔
      UnitFails unit e :=
    foldlM_eq_error_iff (fun line hline => addLine_eq_error_iff (hnamed line hline)) _ e
  rw [addUnit, ← hlines]
  cases unit.lines.foldlM (addLine unit.name) (none, progress) with
  | error first => simp [bind, Except.bind]
  | ok state => exact iff_of_false nofun nofun

/-- Among all lines of the units, in order, the line of the unit is the first
that is impossible. -/
structure FirstImpossible (units : List SourceUnit) (unit : SourceUnit) (line : Line)
    (why : Invalid) : Prop where
  impossible : line.command.Impossible why
  possible : ∃ unitsBefore unitsAfter linesBefore linesAfter,
    units = unitsBefore ++ unit :: unitsAfter ∧ unit.lines = linesBefore ++ line :: linesAfter ∧
    (∀ u ∈ unitsBefore, ∀ l ∈ u.lines, ∀ why', ¬l.command.Impossible why') ∧
    ∀ l ∈ linesBefore, ∀ why', ¬l.command.Impossible why'

/-- A line that is not impossible is not refused. -/
theorem not_lineFails_iff {unit : String} {line : Line} :
    (∀ e, ¬LineFails unit line e) ↔ ∀ why, ¬line.command.Impossible why := by
  constructor
  · intro h why himpossible
    exact h _ ⟨why, himpossible, rfl⟩
  · rintro h e ⟨why, himpossible, -⟩
    exact h why himpossible

/-- A unit without impossible lines is not refused. -/
theorem not_unitFails_iff {unit : SourceUnit} :
    (∀ e, ¬UnitFails unit e) ↔ ∀ line ∈ unit.lines, ∀ why, ¬line.command.Impossible why := by
  constructor
  · intro h line hline why himpossible
    have hfails : ∃ e, UnitFails unit e :=
      exists_firstFailure_iff.mpr ⟨line, hline, _, why, himpossible, rfl⟩
    exact not_exists.mpr h hfails
  · rintro h e ⟨before, line, after, hlines, -, why, himpossible, -⟩
    exact h line (by simp [hlines]) why himpossible

/-- The first unit that is refused is refused for the first impossible line of
all. -/
theorem firstFailure_unitFails_iff {units : List SourceUnit} {e : Error} :
    FirstFailure UnitFails units e ↔ ∃ unit line why, FirstImpossible units unit line why ∧
      e = .located ⟨unit.name, line.row, line.text⟩ (.fault (.invalidOperation why)) := by
  constructor
  · rintro ⟨unitsBefore, unit, unitsAfter, hunits, hunitsBefore, linesBefore, line, linesAfter,
      hlines, hlinesBefore, why, himpossible, rfl⟩
    refine ⟨unit, line, why, ⟨himpossible, unitsBefore, unitsAfter, linesBefore, linesAfter,
      hunits, hlines, ?_, ?_⟩, rfl⟩
    · intro u hu
      exact not_unitFails_iff.mp (hunitsBefore u hu)
    · intro l hl
      exact not_lineFails_iff.mp (hlinesBefore l hl)
  · rintro ⟨unit, line, why, ⟨himpossible, unitsBefore, unitsAfter, linesBefore, linesAfter,
      hunits, hlines, hunitsBefore, hlinesBefore⟩, rfl⟩
    refine ⟨unitsBefore, unit, unitsAfter, hunits, ?_, linesBefore, line, linesAfter, hlines, ?_,
      why, himpossible, rfl⟩
    · intro u hu
      exact not_unitFails_iff.mpr (hunitsBefore u hu)
    · intro l hl
      exact not_lineFails_iff.mpr (hlinesBefore l hl)

/-- The machine can be started with any entry point that has a name. -/
theorem exists_addBootstrap {entryPoint : String} (h : entryPoint ≠ "") (progress : Progress) :
    ∃ progress', addBootstrap entryPoint progress = .ok progress' := by
  have hname : Frame.checkName entryPoint = .ok () :=
    Frame.checkName_eq_ok (by simpa using h)
  have hcall : ∃ r, Frame.bootstrap entryPoint progress.supply = .ok r := by
    rw [Frame.bootstrap, Frame.call, hname]
    exact ⟨_, rfl⟩
  obtain ⟨⟨code, supply⟩, hcall⟩ := hcall
  rw [addBootstrap, hcall]
  exact ⟨_, rfl⟩

/-- Behind the start of the machine, or without one, the units are added. -/
theorem exists_assemble_eq {entryPoint? : Option String} (hentry : entryPoint? ≠ some "")
    (units : List SourceUnit) : ∃ start, assemble entryPoint? units
      = (units.foldlM addUnit start).map fun progress => ⟨progress.blocks.toList⟩ := by
  cases entryPoint? with
  | none =>
      refine ⟨{}, ?_⟩
      show (units.foldlM addUnit {}) >>= _ = _
      cases units.foldlM addUnit {} <;> rfl
  | some entryPoint =>
      have hsome : entryPoint ≠ "" := fun h => hentry (congrArg some h)
      obtain ⟨start, hbootstrap⟩ := exists_addBootstrap hsome {}
      refine ⟨start, ?_⟩
      show (addBootstrap entryPoint {}) >>= _ = _
      rw [hbootstrap]
      show (units.foldlM addUnit start) >>= _ = _
      cases units.foldlM addUnit start <;> rfl

/-- **Assembling ends at the first line that is impossible**, if the machine
can be started. -/
theorem assemble_eq_error_iff {units : List SourceUnit}
    (hnamed : ∀ unit ∈ units, ∀ line ∈ unit.lines, line.command.Named)
    {entryPoint? : Option String} (hentry : entryPoint? ≠ some "") (e : Error) :
    assemble entryPoint? units = .error e ↔ FirstFailure UnitFails units e := by
  obtain ⟨start, hstart⟩ := exists_assemble_eq hentry units
  have hunits : units.foldlM addUnit start = .error e ↔ FirstFailure UnitFails units e :=
    foldlM_eq_error_iff (fun unit hunit => addUnit_eq_error_iff (hnamed unit hunit)) start e
  rw [hstart, ← hunits]
  cases units.foldlM addUnit start <;> simp [Except.map]

/-- **Assembling fails exactly on impossible commands and points at the first
one.** For units that were read it fails exactly if the entry point has no name
or some line is impossible. In the first case the start of the machine is
reported, with row zero. Otherwise the unit, the row and the text of the first
impossible line are, and why it is. -/
theorem assemble_verdict {units : List SourceUnit}
    (hread : ∀ unit ∈ units, ∃ name source, SourceUnit.parse name source = .ok unit)
    (entryPoint? : Option String) :
    ((∃ e, assemble entryPoint? units = .error e) ↔
      entryPoint? = some "" ∨
        ∃ unit ∈ units, ∃ line ∈ unit.lines, ∃ why, line.command.Impossible why) ∧
    ∀ e, assemble entryPoint? units = .error e →
      entryPoint? = some "" ∧
        e = .located ⟨"BOOTSTRAP", 0, "call  0"⟩ (.fault (.missingOperand .functionName)) ∨
      entryPoint? ≠ some "" ∧ ∃ unit line why, FirstImpossible units unit line why ∧
        e = .located ⟨unit.name, line.row, line.text⟩ (.fault (.invalidOperation why)) := by
  have hnamed : ∀ unit ∈ units, ∀ line ∈ unit.lines, line.command.Named := by
    intro unit hunit line hline
    obtain ⟨name, source, hparse⟩ := hread unit hunit
    exact Command.named_of_parse ((SourceUnit.parse_eq_ok_iff.mp hparse).2.2 line hline)
  by_cases hentry : entryPoint? = some ""
  · -- The start of the machine is compiled before any unit.
    subst hentry
    have hfail : assemble (some "") units = .error (.located ⟨"BOOTSTRAP", 0, "call  0"⟩
        (.fault (.missingOperand .functionName))) := rfl
    refine ⟨iff_of_true ⟨_, hfail⟩ (.inl rfl), ?_⟩
    intro e he
    rw [hfail] at he
    cases he
    exact .inl ⟨rfl, rfl⟩
  · have hiff := assemble_eq_error_iff hnamed hentry
    constructor
    · simp only [hiff, exists_firstFailure_iff, hentry, false_or, UnitFails, LineFails]
      constructor
      · rintro ⟨unit, hunit, line, hline, -, why, himpossible, -⟩
        exact ⟨unit, hunit, line, hline, why, himpossible⟩
      · rintro ⟨unit, hunit, line, hline, why, himpossible⟩
        exact ⟨unit, hunit, line, hline, _, why, himpossible, rfl⟩
    · intro e he
      exact .inr ⟨hentry, firstFailure_unitFails_iff.mp ((hiff e).mp he)⟩

/-- Two units, the second of which has two impossible lines behind lines at the
limits of what is possible. -/
def refusedUnits : List SourceUnit :=
  [⟨"A", [⟨1, "push constant 32767", .push .constant 32767⟩]⟩,
    ⟨"B", [⟨1, "function B.f 0", .function "B.f" 0⟩, ⟨3, "push local 65535", .push .locals 65535⟩,
      ⟨4, "pop temp 8", .pop .temp 8⟩, ⟨5, "pop constant 0", .pop .constant 0⟩]⟩]

/-- The first of the impossible lines is reported, and the lines at the limits
are not. -/
theorem assemble_verdict_of_refusedUnits :
    assemble (some "B.f") refusedUnits
      = .error (.located ⟨"B", 4, "pop temp 8"⟩ (.fault (.invalidOperation (.tempIndex 8)))) ∧
    ∃ unit line, FirstImpossible refusedUnits unit line (.tempIndex 8) ∧
      unit.name = "B" ∧ line.row = 4 := by
  have hread : ∀ unit ∈ refusedUnits, ∃ name source, SourceUnit.parse name source = .ok unit := by
    have hA : SourceUnit.parse "A" "push constant 32767\n".toList = .ok refusedUnits[0] := rfl
    have hB : SourceUnit.parse "B"
        "function B.f 0\n\npush  local 65535\npop temp 8 // ninth\npop constant 0".toList
          = .ok refusedUnits[1] := rfl
    simp only [refusedUnits, List.forall_mem_cons]
    exact ⟨⟨_, _, hA⟩, ⟨_, _, hB⟩, by simp⟩
  have hfail : assemble (some "B.f") refusedUnits
      = .error (.located ⟨"B", 4, "pop temp 8"⟩ (.fault (.invalidOperation (.tempIndex 8)))) := rfl
  rcases (assemble_verdict hread (some "B.f")).2 _ hfail with
    ⟨hentry, -⟩ | ⟨-, unit, line, why, hfirst, herror⟩
  · exact absurd hentry (by decide)
  · simp only [Error.located.injEq, Place.mk.injEq, Error.fault.injEq,
      Fault.invalidOperation.injEq] at herror
    obtain ⟨⟨hname, hrow, -⟩, rfl⟩ := herror
    exact ⟨hfail, unit, line, hfirst, hname.symm, hrow.symm⟩

end Program

end HackComputer.Vm
