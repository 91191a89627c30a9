import HackComputer.Proofs.Vm.AsmFile
import HackComputer.Proofs.Vm.StaticCells

/-!
# `HackComputer.Proofs.Vm.Spelling`: which programs can be written down

Code that is compiled need not have a notation. Constants and counts are
checked before they go into an instruction, but the index of a cell behind
a base register is not, and a name of a source can hold any character but
blanks and `$`. `Command.isSpellable` is what a source has to observe:

* the index of a `local`, `argument`, `this` or `that` cell fits into an
  instruction,
* the names of labels and functions are made of the characters of names,
* labels and jumps do not stand in a function whose name starts with a
  digit, because the function's name comes first in theirs.

`all_isSpellable_of_compile` says it of the code of one origin,
`all_isSpellable_of_emits` of whole programs. Symbols of compiled code
hold a `.` or a `$`, so none is called like a register, and what can be
written down is also read back from the assembly file.
-/

set_option autoImplicit false

namespace HackComputer.Assembly

/-! ### Names in parts -/

/-- A name can start with the text: its characters are those of names, and
its first is no digit. -/
def startsSymbol (cs : List Char) : Bool :=
  !cs.head?.any Char.isDigit && cs.all isSymbolChar

/-- A name is not empty, and starts with itself. -/
theorem isSymbol_eq (cs : List Char) : isSymbol cs = (!cs.isEmpty && startsSymbol cs) := by
  cases cs <;> rfl

/-- A name with a separator: the part before it starts a name, and the rest
is made of the characters of names. -/
theorem isSymbol_append_dot (xs ys : List Char) :
    isSymbol (xs ++ '.' :: ys) = (startsSymbol xs && ys.all isSymbolChar) := by
  have hdot : isSymbolChar '.' = true := by decide
  cases xs with
  | nil => simp [isSymbol, startsSymbol, hdot]
  | cons x xs => simp [isSymbol, startsSymbol, hdot, Bool.and_assoc]

/-- A name can be continued with the characters of names. -/
theorem startsSymbol_append {xs : List Char} (h : isSymbol xs = true) (ys : List Char) :
    startsSymbol (xs ++ ys) = ys.all isSymbolChar := by
  cases xs with
  | nil => cases h
  | cons x xs =>
      simp only [isSymbol, List.all_cons, Bool.and_eq_true] at h
      simp [startsSymbol, h.1, h.2.1, h.2.2]

/-- A name behind a mark. -/
theorem isSymbol_dollar (cs : List Char) : isSymbol ('$' :: cs) = cs.all isSymbolChar := by
  have hmark : isSymbolChar '$' = true := by decide
  simp [isSymbol, hmark]

/-- Numbers are made of the characters of names. -/
theorem all_isSymbolChar_toDigits (n : Nat) : (Nat.toDigits 10 n).all isSymbolChar = true := by
  rw [List.all_eq_true]
  intro c hc
  exact isSymbolChar_of_isDigit (Nat.isDigit_of_mem_toDigits (by decide) (by decide) hc)

/-- A spellable instruction is expressible if it does not load a symbol
that is called like a register. -/
theorem Instruction.isExpressible_of_isSpellable {i : Instruction} (h : i.isSpellable = true)
    (hname : ∀ name, i.symbolName? = some name → Isa.Register.ofName? name = none) :
    i.isExpressible = true := by
  cases i with
  | load operand =>
      cases operand with
      | literal value => exact h
      | register r => rfl
      | symbol name =>
          have hsymbol : isSymbol name.toList = true := h
          simp [isExpressible, Operand.isExpressible, hsymbol, hname name rfl]
  | compute c => rfl
  | label name => exact h

/-- An expressible instruction is spellable. -/
theorem Instruction.isSpellable_of_isExpressible {i : Instruction} (h : i.isExpressible = true) :
    i.isSpellable = true := by
  cases i with
  | load operand =>
      cases operand with
      | literal value => exact h
      | register r => rfl
      | symbol name =>
          simp only [isExpressible, Operand.isExpressible, Bool.and_eq_true] at h
          exact h.1
  | compute c => rfl
  | label name => exact h

end HackComputer.Assembly

namespace HackComputer.Vm

open Isa Assembly Code

/-! ### What a source has to observe -/

/-- The segment lies behind the address in a base register. -/
def Segment.isIndirect : Segment → Bool
  | locals | argument | this | that => true
  | constant | pointer | temp | static => false

/-- The command's code can be written down, inside the function or outside
of all. -/
def Command.isSpellable (function : Option String) : Command → Bool
  | push segment index | pop segment index => !segment.isIndirect || decide (index ≤ maxImmediate)
  | label name | goto name | ifGoto name =>
      function.all (startsSymbol ·.toList) && name.toList.all isSymbolChar
  | .function name _ | call name _ => name.toList.all isSymbolChar
  | arithmetic _ | ret => true

/-- The origin's code can be written down. -/
def Origin.isSpellable : Origin → Bool
  | start _ => true
  | line context l => l.command.isSpellable context.function

/-- The names that come with an origin from outside of the source are
symbols: the unit's name and the function that is called first. -/
def Origin.isNamed : Origin → Bool
  | start entryPoint => isSymbol entryPoint.toList
  | line context _ => isSymbol context.unit.toList

/-! ### Names in compiled code -/

/-- The entry of a function can be spelled if its name can. -/
theorem isSymbol_entry (function : String) :
    isSymbol (Frame.entry function).toList = function.toList.all isSymbolChar := by
  rw [Frame.entry, String.toList_append]
  exact isSymbol_dollar function.toList

/-- A label that the compiler makes up can always be spelled. -/
theorem isSymbol_generatedLabel (kind : LabelKind) (n : Nat) :
    isSymbol (generatedLabel kind n).toList = true := by
  have hkind : startsSymbol ('$' :: kind.text.toList) = true := by cases kind <;> decide
  have hsplit : (generatedLabel kind n).toList
      = '$' :: kind.text.toList ++ '.' :: Nat.toDigits 10 n := by
    simp [generatedLabel, Text.toList_decimal]
  rw [hsplit, isSymbol_append_dot, hkind, all_isSymbolChar_toDigits]
  rfl

/-- So can one that is drawn from the supply. -/
theorem isSymbol_fresh (supply : LabelSupply) (kind : LabelKind) :
    isSymbol (supply.fresh kind).1.toList = true := by
  cases kind <;> exact isSymbol_generatedLabel _ _

/-- The name of a static variable is a symbol whenever the unit's name is,
and for any index: a number inside a name has no bound. -/
theorem isSymbol_staticName {unit : String} (hunit : isSymbol unit.toList = true) (index : Word) :
    isSymbol (Segment.staticName unit index).toList = true := by
  rw [isSymbol_eq, Bool.and_eq_true] at hunit
  rw [toList_staticName, isSymbol_append_dot, hunit.2, all_isSymbolChar_toDigits]
  rfl

/-- The full name of a label. -/
theorem isSymbol_of_scope {context : Context} (hunit : isSymbol context.unit.toList = true)
    {label full : String} (h : context.scope label = .ok full) :
    isSymbol full.toList
      = (context.function.all (startsSymbol ·.toList) && label.toList.all isSymbolChar) := by
  obtain ⟨unit, function⟩ := context
  unfold Context.scope at h
  split at h
  · cases h
  · cases function with
    | some function =>
        cases h
        have hsplit : (function ++ "." ++ label).toList
            = function.toList ++ '.' :: label.toList := by simp
        rw [hsplit, isSymbol_append_dot]
        rfl
    | none =>
        cases h
        have hsplit : (unit ++ "$top." ++ label).toList
            = (unit.toList ++ "$top".toList) ++ '.' :: label.toList := by simp
        -- Outside of functions the unit's name comes first, which is a symbol by itself.
        have htop : startsSymbol (unit.toList ++ "$top".toList) = true := by
          rw [startsSymbol_append hunit]
          decide
        rw [hsplit, isSymbol_append_dot, htop]
        rfl

/-! ### The code of one origin -/

/-- The number or name of a location can be written down. -/
def Location.isSpellable : Location → Bool
  | immediate value | indirect _ value | direct value => value ≤ maxImmediate
  | symbol name => isSymbol name.toList

/-- What is fetched can be spelled if its location can. -/
theorem all_fetch (location : Location) :
    (fetch location).all Instruction.isSpellable = location.isSpellable := by
  cases location <;> exact Bool.and_true _

/-- So can the address of a location. -/
theorem all_addressOf {location : Location} {lines : Lines} (h : addressOf location = .ok lines) :
    lines.all Instruction.isSpellable = location.isSpellable := by
  cases location with
  | immediate value => cases h
  | indirect base offset | direct address | symbol name =>
      cases h
      exact Bool.and_true _

/-- Only the index behind a base register is not checked. -/
theorem isSpellable_of_resolve {segment : Segment} {unit : String} {index : Word}
    {location : Location} (hunit : isSymbol unit.toList = true)
    (h : segment.resolve unit index = .ok location) :
    location.isSpellable = (!segment.isIndirect || decide (index ≤ maxImmediate)) := by
  cases segment with
  | constant =>
      simp only [Segment.resolve] at h
      split at h
      · rename_i hle
        cases h
        simpa [Location.isSpellable, Segment.isIndirect] using hle
      · cases h
  | locals | argument | this | that =>
      cases h
      rfl
  | pointer =>
      simp only [Segment.resolve] at h
      split at h
      · rename_i hle
        cases h
        have hsmall : pointerBase + index ≤ maxImmediate := by
          rw [UInt16.le_iff_toNat_le] at hle ⊢
          simp [pointerBase, maxImmediate] at hle ⊢
          omega
        simpa [Location.isSpellable, Segment.isIndirect] using hsmall
      · cases h
  | temp =>
      simp only [Segment.resolve] at h
      split at h
      · rename_i hlt
        cases h
        have hsmall : tempBase + index ≤ maxImmediate := by
          rw [UInt16.lt_iff_toNat_lt] at hlt
          rw [UInt16.le_iff_toNat_le]
          simp [tempBase, tempSize, maxImmediate] at hlt ⊢
          omega
        simpa [Location.isSpellable, Segment.isIndirect] using hsmall
      · cases h
  | static =>
      cases h
      simpa [Location.isSpellable, Segment.isIndirect] using isSymbol_staticName hunit index

/-- Of a call only the name of the function is in doubt. -/
theorem all_callLines {function returnLabel : String} {arguments : Word}
    (harguments : arguments ≤ maxImmediate) (hlabel : isSymbol returnLabel.toList = true) :
    (Frame.callLines function arguments returnLabel).all Instruction.isSpellable
      = function.toList.all isSymbolChar := by
  -- All other lines of the call load registers, compute or load the frame's size.
  have hall : (Frame.callLines function arguments returnLabel).all Instruction.isSpellable
      = (isSymbol returnLabel.toList && (decide (arguments ≤ maxImmediate)
        && (isSymbol (Frame.entry function).toList
          && (isSymbol returnLabel.toList && true)))) := rfl
  rw [hall, hlabel, isSymbol_entry]
  simp [harguments]

/-- Nothing is in doubt in the loop that zeroes locals. -/
theorem all_zeroLines {loop : String} {count : Word} (hcount : count ≤ maxImmediate)
    (hloop : isSymbol loop.toList = true) :
    (Frame.zeroLines count loop).all Instruction.isSpellable = true := by
  have hall : (Frame.zeroLines count loop).all Instruction.isSpellable
      = (decide (count ≤ maxImmediate)
        && (isSymbol loop.toList && (isSymbol loop.toList && true))) := rfl
  simp [hall, hcount, hloop]

/-- Nothing is in doubt in an arithmetic command. -/
theorem all_arithmetic (op : Arithmetic) (supply : LabelSupply) :
    (Code.arithmetic op supply).1.all Instruction.isSpellable = true := by
  have hcompare : ∀ condition label, isSymbol label.toList = true →
      (compare condition label).all Instruction.isSpellable = true := by
    intro condition label hlabel
    show (isSymbol label.toList && (isSymbol label.toList && true)) = true
    rw [hlabel]
    rfl
  cases op with
  | add | sub | and | or | neg | not => rfl
  | eq | gt | lt => exact hcompare _ _ (isSymbol_generatedLabel _ _)

/-- The number of arguments of a call is checked. -/
theorem le_of_call {name : String} {arguments : Word} {supply : LabelSupply}
    {r : Lines × LabelSupply} (h : Frame.call name arguments supply = .ok r) :
    arguments ≤ maxImmediate := by
  obtain ⟨_, -, hcounted⟩ := bind_eq_ok h
  obtain ⟨_, hcount, -⟩ := bind_eq_ok hcounted
  exact Origin.le_of_checkCount hcount

/-- **The code of an origin can be written down** exactly if its command
observes the rules. -/
theorem Origin.all_isSpellable_of_compile {o : Origin} (hnamed : o.isNamed = true)
    {supply supply' : LabelSupply} {lines : Lines} (h : o.compile supply = .ok (lines, supply')) :
    lines.all Instruction.isSpellable = o.isSpellable := by
  cases compiles_of_compile h with
  | arithmetic context row text op => exact all_arithmetic op supply
  | push context row text segment index location hlocation =>
      rw [List.all_append, all_fetch, isSpellable_of_resolve hnamed hlocation]
      exact Bool.and_true _
  | pop context row text segment index location lines hlocation hlines =>
      rw [List.all_append, all_addressOf hlines, isSpellable_of_resolve hnamed hlocation]
      exact Bool.and_true _
  | label context row text name full hscope
  | goto context row text name full hscope
  | ifGoto context row text name full hscope =>
      show (isSymbol full.toList && true) = _
      rw [isSymbol_of_scope hnamed hscope, Bool.and_true]
      rfl
  | enter context row text name =>
      show (isSymbol (Frame.entry name).toList && true) = _
      rw [isSymbol_entry, Bool.and_true]
      rfl
  | function context row text name locals hsome hsmall =>
      rw [List.all_cons, all_zeroLines hsmall (isSymbol_fresh supply _), Bool.and_true]
      exact isSymbol_entry name
  | call context row text name arguments =>
      -- The check of the count leaves no trace in the lines, so it is read off `h` again.
      exact all_callLines (le_of_call h) (isSymbol_fresh supply _)
  | ret context row text => rfl
  | start entryPoint =>
      rw [List.all_append, all_callLines (by decide) (isSymbol_fresh supply _)]
      exact List.all_eq_true.mpr (isSymbolChar_of_isSymbol hnamed)

/-! ### Symbols and registers -/

/-- The name holds a mark that no name of a register holds. -/
def isMarked (name : String) : Prop :=
  '.' ∈ name.toList ∨ '$' ∈ name.toList

/-- A marked name is no register. -/
theorem ofName?_of_isMarked {name : String} (h : isMarked name) :
    Register.ofName? name = none := by
  have hregisters : ∀ r ∈ Register.all, '.' ∉ r.name.toList ∧ '$' ∉ r.name.toList := by decide
  rw [Register.ofName?, List.find?_eq_none]
  intro r hr heq
  obtain ⟨hdot, hmark⟩ := hregisters r hr
  rw [beq_iff_eq] at heq
  rw [heq] at hdot hmark
  exact h.elim hdot hmark

/-- The entry of a function starts with the mark. -/
theorem isMarked_entry (function : String) : isMarked (Frame.entry function) := by
  simp [isMarked, Frame.entry]

/-- So does a label that the compiler makes up. -/
theorem isMarked_generatedLabel (kind : LabelKind) (n : Nat) :
    isMarked (generatedLabel kind n) := by
  simp [isMarked, generatedLabel]

/-- So does one that is drawn from the supply. -/
theorem isMarked_fresh (supply : LabelSupply) (kind : LabelKind) :
    isMarked (supply.fresh kind).1 := by
  cases kind <;> exact isMarked_generatedLabel _ _

/-- A static variable has a dot in its name. -/
theorem isMarked_staticName (unit : String) (index : Word) :
    isMarked (Segment.staticName unit index) := by
  simp [isMarked, Segment.staticName]

/-- So has a label of the source. -/
theorem isMarked_of_scope {context : Context} {label full : String}
    (h : context.scope label = .ok full) : isMarked full := by
  unfold Context.scope at h
  split at h
  · cases h
  · split at h <;> cases h <;> simp [isMarked]

/-- A segment resolves to no other names than those of static variables. -/
theorem isMarked_of_resolve {segment : Segment} {unit name : String} {index : Word}
    (h : segment.resolve unit index = .ok (.symbol name)) : isMarked name := by
  cases segment with
  | static =>
      cases h
      exact isMarked_staticName unit index
  | locals | argument | this | that => cases h
  | constant | pointer | temp =>
      simp only [Segment.resolve] at h
      split at h <;> cases h

/-- A call loads the entry and the return label, and no other names. -/
theorem isMarked_of_mem_callLines {function returnLabel : String} {arguments : Word}
    (hlabel : isMarked returnLabel) :
    ∀ name ∈ symbolNames (Frame.callLines function arguments returnLabel), isMarked name := by
  have hnames : symbolNames (Frame.callLines function arguments returnLabel)
      = [returnLabel, Frame.entry function] := rfl
  simp [hnames, hlabel, isMarked_entry]

/-- The symbols in the code of an origin are marked. -/
theorem Origin.Compiles.isMarked_symbolNames {o : Origin} {supply supply' : LabelSupply}
    {lines : Lines} (h : o.Compiles supply lines supply') :
    ∀ name ∈ symbolNames lines, isMarked name := by
  intro name hname
  cases h with
  | arithmetic context row text op =>
      cases op with
      | add | sub | and | or | neg | not => cases hname
      | eq | gt | lt =>
          rw [List.mem_singleton.mp hname]
          exact isMarked_generatedLabel _ _
  | push context row text segment index location hlocation =>
      cases location with
      | immediate value | indirect base offset | direct address => cases hname
      | symbol variableName =>
          rw [List.mem_singleton.mp hname]
          exact isMarked_of_resolve hlocation
  | pop context row text segment index location lines hlocation hlines =>
      cases location with
      | immediate value => cases hlines
      | indirect base offset | direct address =>
          cases hlines
          cases hname
      | symbol variableName =>
          cases hlines
          rw [List.mem_singleton.mp hname]
          exact isMarked_of_resolve hlocation
  | label context row text name full hscope => cases hname
  | goto context row text target full hscope
  | ifGoto context row text target full hscope =>
      rw [List.mem_singleton.mp hname]
      exact isMarked_of_scope hscope
  | enter context row text function => cases hname
  | function context row text function locals hsome hsmall =>
      rw [List.mem_singleton.mp hname]
      exact isMarked_fresh supply _
  | call context row text function arguments =>
      exact isMarked_of_mem_callLines (isMarked_fresh supply _) name hname
  | ret context row text => cases hname
  | start entryPoint => exact isMarked_of_mem_callLines (isMarked_fresh supply _) name hname

/-! ### Whole programs -/

/-- The text of a line holds no line feed. -/
theorem SourceUnit.not_mem_text_of_parse {name : String} {source : List Char} {unit : SourceUnit}
    (h : SourceUnit.parse name source = .ok unit) :
    ∀ line ∈ unit.lines, '\n' ∉ line.text.toList := by
  intro line hline
  obtain ⟨-, raw, hraw⟩ := normal_of_parse h hline
  rw [← hraw]
  exact (Text.not_lineEnd_of_normalized _).1

namespace Program

/-- The origins of a unit are its lines. -/
theorem exists_line_of_mem_lineOrigins {unit : String} {lines : List Line}
    {current : Option String} {o : Origin} (h : o ∈ lineOrigins unit current lines) :
    ∃ function, ∃ l ∈ lines, o = .line ⟨unit, function⟩ l := by
  induction lines generalizing current with
  | nil => cases h
  | cons first lines ih =>
      rcases List.mem_cons.mp h with rfl | hlater
      · exact ⟨_, first, List.mem_cons_self, rfl⟩
      · obtain ⟨function, l, hl, ho⟩ := ih hlater
        exact ⟨function, l, List.mem_cons_of_mem first hl, ho⟩

/-- An origin is the start of the machine or a line of a unit. -/
theorem mem_origins_cases {entryPoint? : Option String} {units : List SourceUnit} {o : Origin}
    (h : o ∈ origins entryPoint? units) :
    (∃ entryPoint, entryPoint? = some entryPoint ∧ o = .start entryPoint) ∨
    ∃ unit ∈ units, ∃ function, ∃ l ∈ unit.lines, o = .line ⟨unit.name, function⟩ l := by
  rcases List.mem_append.mp h with hstart | hline
  · rw [Option.mem_toList, Option.map_eq_some_iff] at hstart
    obtain ⟨entryPoint, hentry, rfl⟩ := hstart
    exact .inl ⟨entryPoint, hentry, rfl⟩
  · obtain ⟨unit, hunit, ho⟩ := List.mem_flatMap.mp hline
    exact .inr ⟨unit, hunit, exists_line_of_mem_lineOrigins ho⟩

namespace Emits

/-- Every block is compiled from an origin. -/
theorem exists_origin {supply supply' : LabelSupply} {os : List Origin} {bs : List Block}
    (h : Emits supply os bs supply') :
    ∀ b ∈ bs, ∃ o ∈ os, ∃ before code after, o.compile before = .ok (code, after) ∧
      b = o.block code := by
  intro b hb
  induction h with
  | nil supply => cases hb
  | @cons _ _ _ origin _ _ _ hcode hrest ih =>
      rcases List.mem_cons.mp hb with rfl | hb
      · exact ⟨origin, List.mem_cons_self, _, _, _, hcode, rfl⟩
      · obtain ⟨o, ho, hblock⟩ := ih hb
        exact ⟨o, List.mem_cons_of_mem origin ho, hblock⟩

/-- Code can be written down exactly if all its origins observe the
rules. -/
theorem all_isSpellable {supply supply' : LabelSupply} {os : List Origin} {bs : List Block}
    (h : Emits supply os bs supply') (hnamed : ∀ o ∈ os, o.isNamed = true) :
    (bs.flatMap Block.code).all Instruction.isSpellable = os.all Origin.isSpellable := by
  induction h with
  | nil supply => rfl
  | cons hcode hrest ih =>
      rw [List.flatMap_cons, List.all_append, List.all_cons, Origin.code_block,
        Origin.all_isSpellable_of_compile (hnamed _ List.mem_cons_self) hcode,
        ih fun o ho => hnamed o (List.mem_cons_of_mem _ ho)]

end Emits

section
variable {entryPoint? : Option String} {units : List SourceUnit} {p : Program}

/-- Names from outside of the source that are symbols. -/
theorem isNamed_of_mem_origins (hunits : ∀ unit ∈ units, isSymbol unit.name.toList = true)
    (hentry : ∀ entryPoint ∈ entryPoint?, isSymbol entryPoint.toList = true) :
    ∀ o ∈ origins entryPoint? units, o.isNamed = true := by
  intro o ho
  rcases mem_origins_cases ho with ⟨entryPoint, hsome, rfl⟩ | ⟨unit, hunit, function, l, -, rfl⟩
  · exact hentry entryPoint hsome
  · exact hunits unit hunit

/-- What can be written down in a compiled program is expressible. -/
theorem isExpressible_of_assemble (h : assemble entryPoint? units = .ok p) :
    ∀ i ∈ p.code, i.isSpellable = true → i.isExpressible = true := by
  intro i hi hspellable
  obtain ⟨supply, hemits⟩ := assemble_emits h
  obtain ⟨b, hb, hib⟩ := List.mem_flatMap.mp hi
  obtain ⟨o, -, before, code, after, hcompile, rfl⟩ := hemits.exists_origin b hb
  rw [Origin.code_block] at hib
  -- What is left to see is that a symbol is not mistaken for a register.
  refine Instruction.isExpressible_of_isSpellable hspellable fun name hname => ?_
  have hmarked := (Origin.compiles_of_compile hcompile).isMarked_symbolNames name
  exact ofName?_of_isMarked (hmarked (List.mem_filterMap.mpr ⟨i, hib, hname⟩))

/-- The source texts of a program that was read hold no line feed. -/
theorem not_mem_text_of_assemble (hread : SourceUnit.Read units)
    (h : assemble entryPoint? units = .ok p) : ∀ b ∈ p.blocks, '\n' ∉ b.text.toList := by
  intro b hb
  obtain ⟨supply, hemits⟩ := assemble_emits h
  obtain ⟨o, ho, -, code, -, -, rfl⟩ := hemits.exists_origin b hb
  rcases mem_origins_cases ho with ⟨entryPoint, -, rfl⟩ | ⟨unit, hunit, function, l, hl, rfl⟩
  · show '\n' ∉ bootstrapText.toList
    decide
  · obtain ⟨-, source, hparse⟩ := hread unit hunit
    exact SourceUnit.not_mem_text_of_parse hparse l hl

/-- **A program can be written down exactly if its source observes the
rules**, and then it is read back from its assembly file. -/
theorem code_isSpellable_iff (hread : SourceUnit.Read units)
    (hunits : ∀ unit ∈ units, isSymbol unit.name.toList = true)
    (hentry : ∀ entryPoint ∈ entryPoint?, isSymbol entryPoint.toList = true)
    (h : assemble entryPoint? units = .ok p) :
    ((∀ i ∈ p.code, i.isSpellable = true)
      ↔ ∀ o ∈ origins entryPoint? units, o.isSpellable = true) ∧
    (Assembly.parse p.asm.toList = .ok p.code
      ↔ ∀ o ∈ origins entryPoint? units, o.isSpellable = true) := by
  obtain ⟨supply, hemits⟩ := assemble_emits h
  have hall := hemits.all_isSpellable (isNamed_of_mem_origins hunits hentry)
  have hspell : (∀ i ∈ p.code, i.isSpellable = true)
      ↔ ∀ o ∈ origins entryPoint? units, o.isSpellable = true := by
    rw [← List.all_eq_true, ← List.all_eq_true, ← hall]
    rfl
  refine ⟨hspell, ?_⟩
  rw [← hspell]
  constructor
  · intro hparse i hi
    exact Instruction.isSpellable_of_isExpressible (isExpressible_of_mem_parse hparse i hi)
  · intro hcode
    exact parse_asm (not_mem_text_of_assemble hread h)
      fun i hi => isExpressible_of_assemble h i hi (hcode i hi)

end

/-- A unit with the largest index and with names of all kinds. -/
def spellableUnit : SourceUnit :=
  ⟨"Main", [⟨1, "label 1", .label "1"⟩, ⟨2, "function f_:.2 1", .function "f_:.2" 1⟩,
    ⟨3, "push that 32767", .push .that 32767⟩, ⟨4, "pop static 40000", .pop .static 40000⟩,
    ⟨5, "goto 3x", .goto "3x"⟩, ⟨6, "call 4g 2", .call "4g" 2⟩]⟩

/-- All its code can be spelled, and its file is read back. -/
theorem code_isSpellable_of_spellableUnit :
    let p := compiled (some "Sys.init") [spellableUnit]
    SourceUnit.Read [spellableUnit] ∧
    (∀ unit ∈ [spellableUnit], isSymbol unit.name.toList = true) ∧
    (∀ entryPoint ∈ some "Sys.init", isSymbol entryPoint.toList = true) ∧
    assemble (some "Sys.init") [spellableUnit] = .ok p ∧
    (∀ i ∈ p.code, i.isSpellable = true) ∧ Assembly.parse p.asm.toList = .ok p.code := by
  intro p
  have hread : SourceUnit.Read [spellableUnit] := SourceUnit.read_singleton
    ("label 1\nfunction f_:.2 1\npush that 32767\npop static 40000\ngoto 3x\n"
      ++ "call 4g 2\n").toList (by decide) rfl
  have hunits : ∀ unit ∈ [spellableUnit], isSymbol unit.name.toList = true := by decide
  have hentry : ∀ entryPoint ∈ some "Sys.init", isSymbol entryPoint.toList = true := by
    intro entryPoint hsome
    cases hsome
    decide
  have hassemble : assemble (some "Sys.init") [spellableUnit] = .ok p := rfl
  have hrules : ∀ o ∈ origins (some "Sys.init") [spellableUnit], o.isSpellable = true := by decide
  obtain ⟨hspell, hparse⟩ := code_isSpellable_iff hread hunits hentry hassemble
  exact ⟨hread, hunits, hentry, hassemble, hspell.mpr hrules, hparse.mpr hrules⟩

/-- A unit with an index that does not fit into an instruction. -/
def wideIndexUnit : SourceUnit :=
  ⟨"Main", [⟨1, "push local 40000", .push .locals 40000⟩]⟩

set_option maxRecDepth 2000 in
/-- The index of a local variable goes into the code without a check. The
program assembles, but its assembly file cannot be read. -/
theorem wide_index_cannot_be_read :
    let p := compiled none [wideIndexUnit]
    SourceUnit.Read [wideIndexUnit] ∧ isSymbol wideIndexUnit.name.toList = true ∧
    assemble none [wideIndexUnit] = .ok p ∧
    .load (.literal 40000) ∈ p.code ∧
    (Instruction.load (.literal 40000)).isSpellable = false ∧
    Assembly.parse p.asm.toList = .error (.malformed 4 "@40000" (.literal "40000")) := by
  have hread : SourceUnit.Read [wideIndexUnit] :=
    SourceUnit.read_singleton "push local 40000\n".toList (by decide) rfl
  have hparse : Assembly.parse (compiled none [wideIndexUnit]).asm.toList
      = .error (.malformed 4 "@40000" (.literal "40000")) := by rfl
  exact ⟨hread, by decide, rfl, by decide, by decide, hparse⟩

end Program

end HackComputer.Vm
