import HackComputer.Proofs.Assembly.Layout
import HackComputer.Proofs.Text.Lines
import HackComputer.Proofs.Vm.LabelNames
import HackComputer.Proofs.Vm.Placement

/-!
# `HackComputer.Proofs.Vm.StaticCells`: the cells of static variables

The static variable `i` of a unit is loaded under the name `unit.i`, and
linking gives a cell to a name that is no label. Static variables of one
name are one variable (`staticName_inj`), since an index holds no dot. But
labels have dots too: the label `l` of a function `f` is called `f.l`, and
a name that is a label is never a variable. So the variables of a unit are
its own, in cells of their own, exactly as long as no label captures their
names.

* `LabelSource.Captures`: the label has the name of the static variable.
  For a unit without a `$` in its name this takes a label inside a
  function, either the function called like the unit with the index as its
  label, or a function whose name starts the unit's name with the rest in
  the label.
* `statics_private_iff`: the variables have cells of their own exactly if
  no label captures them.
* `statics_captured_by_labels`: two variables of one unit that are both the
  cell `0`, which is the stack pointer.
-/

set_option autoImplicit false

namespace HackComputer.Assembly

open Isa

namespace Executable

/-- The name is a variable of the program, and `address` is the cell that
linking gave it. -/
structure HasCell (e : Executable) (name : String) (address : Word) : Prop where
  not_label : e.labels.lookup name = none
  allotted : e.vars.lookup name = some address
  resolved : e.address? name = some address
  base_le : 16 ≤ address.toNat

section
variable {code : List Instruction} {e : Executable} (hlink : link code = .ok e)
include hlink

/-- A variable has the cell of its number. -/
theorem HasCell.exists_number {name : String} {address : Word} (h : e.HasCell name address) :
    ∃ k : Nat, (variableNames code)[k]? = some name ∧ address.toNat = 16 + k := by
  have hallotted := h.allotted
  rw [(link_tables hlink).2] at hallotted
  obtain ⟨k, hk, rfl⟩ := exists_number_of_lookup hallotted
  exact ⟨k, hk, toNat_variableCell hlink hk⟩

/-- Variables that share a cell are one variable. -/
theorem HasCell.name_eq {name name' : String} {address : Word} (h : e.HasCell name address)
    (h' : e.HasCell name' address) : name = name' := by
  obtain ⟨k, hk, haddress⟩ := h.exists_number hlink
  obtain ⟨k', hk', haddress'⟩ := h'.exists_number hlink
  have hkk : k = k' := by omega
  rw [hkk, hk', Option.some.injEq] at hk
  exact hk.symm

/-- A name that is used and not predefined has a cell unless it is a
label. -/
theorem exists_hasCell_iff {name : String} (hused : name ∈ symbolNames code)
    (hpre : predefined.lookup name = none) :
    (∃ address, e.HasCell name address) ↔ name ∉ labelNames code := by
  have hlabels : e.labels.lookup name = none ↔ name ∉ labelNames code := by
    rw [(link_eq_ok hlink).2.2.1, lookup_eq_none_iff_not_mem, map_fst_placedLabels]
  constructor
  · rintro ⟨address, hcell⟩
    exact hlabels.mp hcell.not_label
  · intro hfree
    obtain ⟨k, hk⟩ := List.getElem?_of_mem (mem_variableNames.mpr ⟨hused, hfree, hpre⟩)
    have hvars : e.vars.lookup name = some (variableBase + k.toUInt16) := by
      rw [(link_tables hlink).2, lookup_numbered (nodup_variableNames code) hk]
    refine ⟨_, hlabels.mpr hfree, hvars, ?_, ?_⟩
    · rw [address?_eq hlink, addressIn?_variable hk]
    · rw [toNat_variableCell hlink hk]
      omega

end

end Executable

end HackComputer.Assembly

namespace HackComputer.Vm

open Isa Assembly Code

/-! ### Names of static variables -/

/-- A text that ends in a dot and a part without one is cut at a dot in
two ways: at that dot, or at one before it. -/
theorem append_dot_eq_iff {xs ys unit digits : List Char} (hdigits : '.' ∉ digits) :
    xs ++ '.' :: ys = unit ++ '.' :: digits
      ↔ (xs = unit ∧ ys = digits) ∨
        ∃ rest, unit = xs ++ '.' :: rest ∧ ys = rest ++ '.' :: digits := by
  constructor
  · intro h
    rcases List.append_eq_append_iff.mp h with ⟨rest, hunit, hrest⟩ | ⟨rest, hxs, hrest⟩
    · cases rest with
      | nil =>
          left
          simp at hunit hrest
          exact ⟨hunit.symm, hrest⟩
      | cons c rest =>
          right
          simp only [List.cons_append, List.cons.injEq] at hrest
          obtain ⟨rfl, hys⟩ := hrest
          exact ⟨rest, hunit, hys⟩
    · cases rest with
      | nil =>
          left
          simp at hxs hrest
          exact ⟨hxs, hrest.symm⟩
      | cons c rest =>
          -- Then a dot stands behind the last one.
          simp only [List.cons_append, List.cons.injEq] at hrest
          exact absurd (by simp [hrest.2]) hdigits
  · rintro (⟨rfl, rfl⟩ | ⟨rest, rfl, rfl⟩)
    · rfl
    · simp

/-- A number holds no dot. -/
theorem dot_not_mem_toDigits (n : Nat) : '.' ∉ Nat.toDigits 10 n :=
  Text.not_mem_toDigits (by decide) n

/-- A static variable is called by its unit, a dot and its number. -/
theorem toList_staticName (unit : String) (index : Word) :
    (Segment.staticName unit index).toList
      = unit.toList ++ '.' :: Nat.toDigits 10 index.toNat := by
  simp [Segment.staticName, Text.decimal]

/-- The label of a scope runs together with it to the name of the static
variable. -/
def RunsInto (scope label unit : String) (index : Word) : Prop :=
  (scope = unit ∧ label = Text.decimal index.toNat) ∨
    ∃ rest, unit = scope ++ "." ++ rest ∧ label = rest ++ "." ++ Text.decimal index.toNat

/-- This is what it takes for the two to have one name. -/
theorem dotted_eq_staticName_iff {scope label unit : String} {index : Word} :
    scope ++ "." ++ label = Segment.staticName unit index ↔ RunsInto scope label unit index := by
  have hlists : scope ++ "." ++ label = Segment.staticName unit index
      ↔ scope.toList ++ '.' :: label.toList
        = unit.toList ++ '.' :: Nat.toDigits 10 index.toNat := by
    rw [← String.toList_inj, toList_staticName]
    simp
  rw [hlists, append_dot_eq_iff (dot_not_mem_toDigits _), RunsInto]
  refine or_congr ?_ ?_
  · simp [← String.toList_inj, Text.decimal]
  · constructor
    · rintro ⟨rest, hunit, hlabel⟩
      exact ⟨String.ofList rest, by simp [← String.toList_inj, hunit],
        by simp [← String.toList_inj, hlabel, Text.decimal]⟩
    · rintro ⟨rest, rfl, rfl⟩
      exact ⟨rest.toList, by simp, by simp [Text.decimal]⟩

/-- Static variables of one name are one variable. -/
theorem staticName_inj {unit unit' : String} {index index' : Word}
    (h : Segment.staticName unit index = Segment.staticName unit' index') :
    unit = unit' ∧ index = index' := by
  have hnames : unit.toList ++ '.' :: Nat.toDigits 10 index.toNat
      = unit'.toList ++ '.' :: Nat.toDigits 10 index'.toNat := by
    rw [← toList_staticName, ← toList_staticName, h]
  obtain ⟨hunit, hindex⟩ := append_cons_inj_last hnames (dot_not_mem_toDigits _)
    (dot_not_mem_toDigits _)
  exact ⟨String.toList_inj.mp hunit, UInt16.toNat_inj.mp (Text.toDigits_inj hindex)⟩

/-! ### Labels with the names of static variables -/

namespace LabelSource

/-- The label has the name of the static variable `index` of `unit`. Only a
label inside a function can, unless the unit's own name holds a `$`. -/
def Captures (unit : String) (index : Word) : LabelSource → Prop
  | entry function => ∃ rest, unit = "$" ++ rest ∧ function = Segment.staticName rest index
  | generated kind n => unit = "$" ++ kind.text ∧ n = index.toNat
  | inside function label => RunsInto function label unit index
  | outside other label => RunsInto (other ++ "$top") label unit index

/-- An entry label and a static variable of one name. -/
theorem entry_eq_staticName_iff {function unit : String} {index : Word} :
    Frame.entry function = Segment.staticName unit index
      ↔ ∃ rest, unit = "$" ++ rest ∧ function = Segment.staticName rest index := by
  rw [← String.toList_inj, toList_staticName]
  constructor
  · intro h
    cases hunit : unit.toList with
    | nil =>
        rw [hunit] at h
        simp [Frame.entry] at h
    | cons c rest =>
        rw [hunit] at h
        simp only [Frame.entry, String.toList_append, String.reduceToList, List.cons_append,
          List.nil_append, List.cons.injEq] at h
        obtain ⟨rfl, hfunction⟩ := h
        refine ⟨String.ofList rest, ?_, ?_⟩
        · simp [← String.toList_inj, hunit]
        · rw [← String.toList_inj, toList_staticName, hfunction, String.toList_ofList]
  · rintro ⟨rest, rfl, rfl⟩
    simp [Frame.entry, toList_staticName]

/-- A made-up label and a static variable of one name. -/
theorem generatedLabel_eq_staticName_iff {kind : LabelKind} {n : Nat} {unit : String}
    {index : Word} :
    generatedLabel kind n = Segment.staticName unit index
      ↔ unit = "$" ++ kind.text ∧ n = index.toNat := by
  rw [generatedLabel, dotted_eq_staticName_iff, RunsInto]
  constructor
  · rintro (⟨hunit, hn⟩ | ⟨rest, -, hn⟩)
    · refine ⟨hunit.symm, Text.toDigits_inj ?_⟩
      rw [← Text.toList_decimal, hn, Text.toList_decimal]
    · -- A number is no name with a dot.
      have hdot : '.' ∈ (Text.decimal n).toList := by simp [hn]
      rw [Text.toList_decimal] at hdot
      exact absurd hdot (dot_not_mem_toDigits n)
  · rintro ⟨rfl, rfl⟩
    exact .inl ⟨rfl, rfl⟩

/-- **A label captures a static variable exactly if it has its name.** -/
theorem name_eq_staticName_iff {s : LabelSource} {unit : String} {index : Word} :
    s.name = Segment.staticName unit index ↔ s.Captures unit index := by
  cases s with
  | entry function => exact entry_eq_staticName_iff
  | generated kind n => exact generatedLabel_eq_staticName_iff
  | inside function label => exact dotted_eq_staticName_iff
  | outside other label =>
      have hname : (outside other label).name = other ++ "$top" ++ "." ++ label := by
        simp [name, ← String.toList_inj]
      rw [hname]
      exact dotted_eq_staticName_iff

/-- Whether a label has such a name can be read off it. -/
instance (unit : String) (index : Word) (s : LabelSource) : Decidable (s.Captures unit index) :=
  decidable_of_iff _ name_eq_staticName_iff

/-- Static variables of a unit without a `$` in its name are captured by
labels inside functions only. -/
theorem Captures.exists_inside {s : LabelSource} {unit : String} {index : Word}
    (h : s.Captures unit index) (hunit : isSourceName unit) :
    ∃ function label, s = inside function label ∧ RunsInto function label unit index := by
  cases s with
  | inside function label => exact ⟨function, label, rfl, h⟩
  | entry function =>
      obtain ⟨rest, rfl, -⟩ := h
      exact absurd (by simp) hunit
  | generated kind n =>
      obtain ⟨rfl, -⟩ := h
      exact absurd (by simp) hunit
  | outside other label =>
      rcases h with ⟨rfl, -⟩ | ⟨rest, rfl, -⟩
      · exact absurd (by simp) hunit
      · exact absurd (by simp) hunit

end LabelSource

/-! ### The static variables of a program -/

/-- The static variable that a command reads or writes. -/
def Command.static? : Command → Option Word
  | .push .static index | .pop .static index => some index
  | _ => none

/-- The static variables that units read or write, each with the name of
its unit. -/
def SourceUnit.statics (units : List SourceUnit) : List (String × Word) :=
  units.flatMap fun unit =>
    (unit.lines.filterMap fun line => line.command.static?).map (unit.name, ·)

namespace Program

/-- Every line of a unit has its origin. -/
theorem exists_mem_lineOrigins {unit : String} {lines : List Line} {l : Line} (h : l ∈ lines)
    (current : Option String) :
    ∃ function, .line ⟨unit, function⟩ l ∈ lineOrigins unit current lines := by
  induction lines generalizing current with
  | nil => cases h
  | cons first lines ih =>
      rcases List.mem_cons.mp h with rfl | hlater
      · exact ⟨_, List.mem_cons_self⟩
      · obtain ⟨function, hmem⟩ := ih hlater (functionAt current first.command)
        exact ⟨function, List.mem_cons_of_mem _ hmem⟩

/-- The code of an origin is part of the program. -/
theorem exists_code_of_mem_origins {entryPoint? : Option String} {units : List SourceUnit}
    {p : Program} (h : assemble entryPoint? units = .ok p) {o : Origin}
    (ho : o ∈ origins entryPoint? units) :
    ∃ before lines after, o.Compiles before lines after ∧ ∀ i ∈ lines, i ∈ p.code := by
  obtain ⟨supply, hemits⟩ := assemble_emits h
  obtain ⟨k, hk⟩ := List.getElem?_of_mem ho
  obtain ⟨before, lines, after, hcompiles, hblock⟩ := hemits.getElem? hk
  refine ⟨before, lines, after, hcompiles, ?_⟩
  intro i hi
  exact List.mem_flatMap.mpr ⟨_, List.mem_of_getElem? hblock, by simpa using hi⟩

/-- A command that uses a static variable loads its name. -/
theorem load_mem_of_static {context : Context} {l : Line} {index : Word}
    (hstatic : l.command.static? = some index) {before after : LabelSupply} {lines : Lines}
    (h : Origin.Compiles before (.line context l) lines after) :
    .load (.symbol (Segment.staticName context.unit index)) ∈ lines := by
  cases h with
  | push context row text segment place location hlocation =>
      cases segment <;> cases hstatic
      cases hlocation
      simp [fetch, symbol]
  | pop context row text segment place location code hlocation hlines =>
      cases segment <;> cases hstatic
      cases hlocation
      cases hlines
      simp [symbol]
  | _ => cases hstatic

/-- The static variables of a program are among the names that it loads. -/
theorem mem_symbolNames_of_statics {entryPoint? : Option String} {units : List SourceUnit}
    {p : Program} (h : assemble entryPoint? units = .ok p) {unit : String} {index : Word}
    (hstatic : (unit, index) ∈ SourceUnit.statics units) :
    Segment.staticName unit index ∈ symbolNames p.code := by
  simp only [SourceUnit.statics, List.mem_flatMap, List.mem_map, List.mem_filterMap,
    Prod.mk.injEq] at hstatic
  obtain ⟨source, hsource, _, ⟨l, hl, hcommand⟩, rfl, rfl⟩ := hstatic
  obtain ⟨function, ho⟩ : ∃ function, Origin.line ⟨source.name, function⟩ l
      ∈ lineOrigins source.name none source.lines := exists_mem_lineOrigins hl none
  have horigin : Origin.line ⟨source.name, function⟩ l ∈ origins entryPoint? units :=
    List.mem_append_right _ (List.mem_flatMap.mpr ⟨source, hsource, ho⟩)
  obtain ⟨before, lines, after, hcompiles, hlines⟩ := exists_code_of_mem_origins h horigin
  exact mem_symbolNames.mpr (hlines _ (load_mem_of_static hcommand hcompiles))

/-- No predefined name holds a dot. -/
theorem lookup_predefined_staticName (unit : String) (index : Word) :
    predefined.lookup (Segment.staticName unit index) = none := by
  rw [lookup_eq_none_iff_not_mem]
  intro hmem
  have hdots : ∀ name ∈ predefined.map Prod.fst, '.' ∉ name.toList := by decide
  exact hdots _ hmem (by simp [toList_staticName])

section
variable {entryPoint? : Option String} {units : List SourceUnit} {p : Program} {e : Executable}
  (hassemble : assemble entryPoint? units = .ok p) (hlink : Executable.link p.code = .ok e)
  {unit : String} {index : Word}
include hassemble hlink

/-- A static variable has a cell exactly if no label captures it. -/
theorem exists_hasCell_static_iff (hstatic : (unit, index) ∈ SourceUnit.statics units) :
    (∃ address, e.HasCell (Segment.staticName unit index) address)
      ↔ ∀ s ∈ labelSources {} (origins entryPoint? units), ¬ s.Captures unit index := by
  rw [Executable.exists_hasCell_iff hlink (mem_symbolNames_of_statics hassemble hstatic)
    (lookup_predefined_staticName unit index), labelNames_code hassemble]
  simp only [List.mem_map, not_exists, not_and, LabelSource.name_eq_staticName_iff]

/-- A static variable that a label captures stands for the place of that
label in program memory. -/
theorem address?_of_captures {s : LabelSource}
    (hs : s ∈ labelSources {} (origins entryPoint? units)) (h : s.Captures unit index) :
    ∃ place, e.labels.lookup (Segment.staticName unit index) = some place ∧
      e.address? (Segment.staticName unit index) = some place := by
  have hlabel : Segment.staticName unit index ∈ labelNames p.code := by
    rw [labelNames_code hassemble, ← LabelSource.name_eq_staticName_iff.mpr h]
    exact List.mem_map_of_mem hs
  cases hlookup : e.labels.lookup (Segment.staticName unit index) with
  | none =>
      rw [(Executable.link_eq_ok hlink).2.2.1, lookup_eq_none_iff_not_mem,
        map_fst_placedLabels] at hlookup
      exact absurd hlabel hlookup
  | some place => exact ⟨place, rfl, by simp [Executable.address?, hlookup]⟩

end

/-- **When static variables are private.** Take two static variables of a
program that assembles and links, of different units or with different
indices. Both are variables with cells from 16 on, each one its own,
exactly if no label captures either of them. A variable that is captured
stands for the place of the label in program memory instead. If the name
of its unit holds no `$`, the label is declared inside a function, and
either the function is called like the unit and the label is the index, or
the function's name and a dot start the name of the unit and the label is
the rest of it with a dot and the index. -/
theorem statics_private_iff {entryPoint? : Option String} {units : List SourceUnit} {p : Program}
    {e : Executable} (hassemble : assemble entryPoint? units = .ok p)
    (hlink : Executable.link p.code = .ok e) {u v : String} {i j : Word}
    (hu : (u, i) ∈ SourceUnit.statics units) (hv : (v, j) ∈ SourceUnit.statics units)
    (hne : (u, i) ≠ (v, j)) :
    ((∃ a b, e.HasCell (Segment.staticName u i) a ∧ e.HasCell (Segment.staticName v j) b ∧ a ≠ b)
      ↔ ∀ s ∈ labelSources {} (origins entryPoint? units), ¬ s.Captures u i ∧ ¬ s.Captures v j) ∧
    ∀ s ∈ labelSources {} (origins entryPoint? units), s.Captures u i →
      (∃ place, e.labels.lookup (Segment.staticName u i) = some place ∧
        e.address? (Segment.staticName u i) = some place) ∧
      (isSourceName u → ∃ f l, s = .inside f l ∧ RunsInto f l u i) := by
  have hcell := exists_hasCell_static_iff hassemble hlink hu
  have hcell' := exists_hasCell_static_iff hassemble hlink hv
  constructor
  · constructor
    · rintro ⟨a, b, ha, hb, -⟩ s hs
      exact ⟨hcell.mp ⟨a, ha⟩ s hs, hcell'.mp ⟨b, hb⟩ s hs⟩
    · intro hfree
      obtain ⟨a, ha⟩ := hcell.mpr fun s hs => (hfree s hs).1
      obtain ⟨b, hb⟩ := hcell'.mpr fun s hs => (hfree s hs).2
      refine ⟨a, b, ha, hb, ?_⟩
      -- Variables in one cell have one name, and the name shows the unit and the index.
      rintro rfl
      obtain ⟨rfl, rfl⟩ := staticName_inj (ha.name_eq hlink hb)
      exact hne rfl
  · intro s hs hcaptures
    exact ⟨address?_of_captures hassemble hlink hs hcaptures, hcaptures.exists_inside⟩

/-- Two units with static variables of the same index, and labels whose
names come close. -/
def staticUnits : List SourceUnit :=
  [⟨"A", [⟨1, "function A.0 0", .function "A.0" 0⟩, ⟨2, "label 0", .label "0"⟩,
      ⟨3, "pop static 0", .pop .static 0⟩]⟩,
    ⟨"B", [⟨1, "label 0", .label "0"⟩, ⟨2, "push static 0", .push .static 0⟩]⟩]

/-- The two variables have cells of their own. -/
theorem statics_private_of_staticUnits :
    let p := compiled none staticUnits
    assemble none staticUnits = .ok p ∧ Executable.link p.code = .ok p.linked ∧
    ("A", 0) ∈ SourceUnit.statics staticUnits ∧ ("B", 0) ∈ SourceUnit.statics staticUnits ∧
    ∃ a b, p.linked.HasCell "A.0" a ∧ p.linked.HasCell "B.0" b ∧ a ≠ b := by
  intro p
  obtain ⟨hassemble, hlink⟩ : assemble none staticUnits = .ok p ∧
      Executable.link p.code = .ok p.linked := link_compiled (by decide)
  have hu : ("A", 0) ∈ SourceUnit.statics staticUnits := by decide
  have hv : ("B", 0) ∈ SourceUnit.statics staticUnits := by decide
  exact ⟨hassemble, hlink, hu, hv,
    (statics_private_iff hassemble hlink hu hv (by decide)).1.mpr (by decide)⟩

/-- A unit with a function of its own name, whose labels are numbers. -/
def numberedLabelsUnit : SourceUnit :=
  ⟨"A", [⟨1, "function A 0", .function "A" 0⟩, ⟨2, "label 0", .label "0"⟩,
    ⟨3, "label 1", .label "1"⟩, ⟨4, "push constant 7", .push .constant 7⟩,
    ⟨5, "pop static 0", .pop .static 0⟩, ⟨6, "push static 1", .push .static 1⟩]⟩

/-- The labels capture both static variables: they stand for the start of
the program, so popping into either overwrites the stack pointer. -/
theorem statics_captured_by_labels :
    let p := compiled none [numberedLabelsUnit]
    SourceUnit.Read [numberedLabelsUnit] ∧ assemble none [numberedLabelsUnit] = .ok p ∧
    Executable.link p.code = .ok p.linked ∧
    ("A", 0) ∈ SourceUnit.statics [numberedLabelsUnit] ∧
    ("A", 1) ∈ SourceUnit.statics [numberedLabelsUnit] ∧
    p.linked.labels.lookup "A.0" = some 0 ∧ p.linked.address? "A.0" = some 0 ∧
    p.linked.address? "A.1" = some 0 ∧ p.linked.vars = [] := by
  intro p
  have hread : SourceUnit.Read [numberedLabelsUnit] := SourceUnit.read_singleton
    "function A 0\nlabel 0\nlabel 1\npush constant 7\npop static 0\npush static 1\n".toList
    (by decide) rfl
  obtain ⟨hassemble, hlink⟩ : assemble none [numberedLabelsUnit] = .ok p ∧
      Executable.link p.code = .ok p.linked := link_compiled (by decide)
  obtain ⟨hlabels, hvars⟩ := Executable.link_tables hlink
  refine ⟨hread, hassemble, hlink, by decide, by decide, ?_, ?_, ?_, ?_⟩
  · rw [hlabels]
    decide
  · rw [Executable.address?_eq hlink]
    decide
  · rw [Executable.address?_eq hlink]
    decide
  · rw [hvars]
    decide

end Program

end HackComputer.Vm
