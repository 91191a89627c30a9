import HackComputer.Proofs.Assembly.SymbolLookup

/-!
# `HackComputer.Proofs.Assembly.PredefinedNames`: what a predefined name loads

Some cells of memory have names that no program declares: the registers, the
first sixteen cells by number, the screen and the keyboard. `NamesCell` lists
them, and `lookup_predefined_iff` says that the table of the linker is this
list.

A program may still declare a label with one of these names, and then it
depends on the name what is loaded. Reading turns the names of the eight
registers into registers, so the linker never sees them. All other names are
left to the linker, which asks for a label before it asks the table.

* `exists_load_of_loadedName?`: what stands in program memory for a line that
  loads a name.
* `load_eq_cell_iff`: a predefined name loads its cell unless a label takes the
  name (`LabelTakes`), and then it loads the place of the label.
* `label_takes_numbered_cell`: a program in which a label does.
-/

set_option autoImplicit false

namespace HackComputer.Assembly

open Isa Text

/-- The names that every program may use without declaring them, with the
cells that they stand for. -/
inductive NamesCell : String → Nat → Prop
  | stackPointer : NamesCell "SP" 0
  | locals : NamesCell "LCL" 1
  | arguments : NamesCell "ARG" 2
  | this : NamesCell "THIS" 3
  | that : NamesCell "THAT" 4
  | numbered {k : Nat} (h : k < 16) : NamesCell ("R" ++ decimal k) k
  | screen : NamesCell "SCREEN" 16384
  | keyboard : NamesCell "KBD" 24576

/-- A label of the program takes the name of a cell and has another address.
The names of registers are safe, because reading knows them. -/
def LabelTakes (code : List Instruction) (name : String) (cell : Nat) : Prop :=
  (∀ r : Register, r.name ≠ name) ∧
  ∃ i : Nat, code[i]? = some (.label name) ∧ romLength (code.take i) ≠ cell

/-! ### The table -/

/-- Every pair of the table names its cell. -/
theorem namesCell_of_mem {name : String} {address : Word} (h : (name, address) ∈ predefined) :
    NamesCell name address.toNat := by
  rw [predefined, List.mem_append, List.mem_append] at h
  rcases h with (hregister | hnumbered) | hdevice
  · obtain ⟨r, -, hpair⟩ := List.mem_map.mp hregister
    cases hpair
    cases r with
    | sp => exact .stackPointer
    | lcl => exact .locals
    | arg => exact .arguments
    | this => exact .this
    | that => exact .that
    | r13 => exact .numbered (k := 13) (by decide)
    | r14 => exact .numbered (k := 14) (by decide)
    | r15 => exact .numbered (k := 15) (by decide)
  · obtain ⟨k, hk, hpair⟩ := List.mem_map.mp hnumbered
    rw [List.mem_range] at hk
    cases hpair
    have hword : k.toUInt16.toNat = k := UInt16.toNat_ofNat_of_lt (Nat.lt_trans hk (by decide))
    rw [hword]
    exact .numbered hk
  · simp only [List.mem_cons, List.not_mem_nil, or_false] at hdevice
    rcases hdevice with hpair | hpair
    · cases hpair
      exact .screen
    · cases hpair
      exact .keyboard

/-- The first sixteen cells are found by number. -/
theorem lookup_predefined_numbered :
    ∀ k < 16, predefined.lookup ("R" ++ decimal k) = some k.toUInt16 := by
  decide

/-- **The table of predefined names is the list of cells with names.** -/
theorem lookup_predefined_iff {name : String} {address : Word} :
    predefined.lookup name = some address ↔ NamesCell name address.toNat := by
  constructor
  · intro h
    obtain ⟨before, after, hsplit, -⟩ := List.lookup_eq_some_iff.mp h
    exact namesCell_of_mem (by simp [hsplit])
  · intro h
    generalize hcell : address.toNat = cell at h
    obtain rfl : address = cell.toUInt16 := by
      rw [← hcell]
      exact UInt16.ofNat_toNat.symm
    cases h with
    | numbered hk => exact lookup_predefined_numbered _ hk
    | _ => rfl

/-- A cell with a name is found under it. -/
theorem exists_lookup_of_namesCell {name : String} {cell : Nat} (h : NamesCell name cell) :
    ∃ address : Word, predefined.lookup name = some address ∧ address.toNat = cell := by
  have hsmall : cell < 65536 := by cases h <;> omega
  have hword : cell.toUInt16.toNat = cell := UInt16.toNat_ofNat_of_lt hsmall
  refine ⟨cell.toUInt16, ?_, hword⟩
  rw [lookup_predefined_iff, hword]
  exact h

/-! ### What a line loads -/

/-- A line that loads a name stands in program memory behind the instructions
of the lines before it, and what it loads is the value of its operand. -/
theorem exists_load_of_loadedName? {source : List Char} {code : List Instruction} {e : Executable}
    (hparse : parse source = .ok code) (hlink : Executable.link code = .ok e) {n : Nat}
    {line : List Char} {name : String} (hline : (lines source)[n]? = some line)
    (hname : loadedName? line = some name) :
    e.rom[romLength (codeBefore source n)]? = some (.load (addressIn code name)) ∧
        (∀ r : Register, r.name ≠ name) ∨
      ∃ r : Register, r.name = name ∧
        e.rom[romLength (codeBefore source n)]? = some (.load r.address) := by
  obtain ⟨i?, hread, hplace⟩ := codeBefore_append_isPrefix hparse hline
  obtain ⟨operand, rfl, rfl, hliteral⟩ := operand_of_loadedName? hname hread
  have hsymbol : e.symbol = addressIn code := by
    funext name
    rw [Executable.symbol, Executable.address?_eq hlink, addressIn]
  have hload := (Loaded.of_link hlink).getElem?_eq hplace rfl
  rw [hsymbol] at hload
  cases operand with
  | literal value => exact absurd rfl (hliteral value)
  | register r => exact .inr ⟨r, rfl, hload⟩
  | symbol name =>
      refine .inl ⟨hload, ?_⟩
      -- Reading would have taken the name for the register.
      intro r hr
      have hmem : .load (.symbol name) ∈ code := hplace.subset (by simp)
      have hexpressible := isExpressible_of_mem_parse hparse _ hmem
      simp only [Instruction.isExpressible, Operand.isExpressible, Bool.and_eq_true] at hexpressible
      rw [show name = r.name from hr.symm, ofName?_name] at hexpressible
      cases hexpressible.2

/-- **A predefined name loads its cell unless a label takes the name**, and a
name that is no register and declared as a label loads the place of the
label. -/
theorem load_eq_cell_iff {source : List Char} {code : List Instruction} {e : Executable}
    (hparse : parse source = .ok code) (hlink : Executable.link code = .ok e) {n : Nat}
    {line : List Char} {name : String} {cell : Nat} (hline : (lines source)[n]? = some line)
    (hname : loadedName? line = some name) (hcell : NamesCell name cell) :
    ∃ loaded, e.rom[romLength (codeBefore source n)]? = some (.load loaded) ∧
      (loaded.toNat = cell ↔ ¬ LabelTakes code name cell) ∧
      ((∀ r : Register, r.name ≠ name) → ∀ i : Nat, code[i]? = some (.label name) →
        loaded.toNat = romLength (code.take i)) := by
  obtain ⟨address, hlookup, rfl⟩ := exists_lookup_of_namesCell hcell
  rcases exists_load_of_loadedName? hparse hlink hline hname with
    ⟨hload, hsymbol⟩ | ⟨r, rfl, hload⟩
  · refine ⟨_, hload, ?_, ?_⟩
    · by_cases hlabel : name ∈ labelNames code
      · -- The label is asked for first, so its place is what is loaded.
        obtain ⟨i, hi⟩ := exists_line_of_mem_labelNames hlabel
        constructor
        · rintro hsame ⟨-, j, hj, hne⟩
          rw [Executable.toNat_addressIn_label hlink hj] at hsame
          exact hne hsame
        · intro hfree
          rw [Executable.toNat_addressIn_label hlink hi]
          apply Classical.byContradiction
          intro hne
          exact hfree ⟨hsymbol, i, hi, hne⟩
      · rw [addressIn_predefined hlabel hlookup]
        refine iff_of_true rfl ?_
        rintro ⟨-, i, hi, -⟩
        exact hlabel (List.mem_of_getElem? (getElem?_labelNames hi))
    · intro _ i hi
      exact Executable.toNat_addressIn_label hlink hi
  · -- The register was known before any label was.
    rw [lookup_predefined_name, Option.some.injEq] at hlookup
    subst hlookup
    refine ⟨r.address, hload, iff_of_true rfl ?_, ?_⟩
    · intro htakes
      exact htakes.1 r rfl
    · intro hsymbol
      exact absurd rfl (hsymbol r)

/-- A label with the name of a numbered cell in front of a program that loads
cells of every kind, and one with the name of a register. -/
def namesakeSource : String :=
  "(KBD)\n@R3\n@x\n  @ R 13 // a register\n(R13)\n(R3)\n@SCREEN\n0;JMP\n"

/-- The register is loaded, although the program has a label of that name. -/
theorem load_eq_cell_of_namesakeSource :
    ∃ code e, parse namesakeSource.toList = .ok code ∧ Executable.link code = .ok e ∧
      (lines namesakeSource.toList)[3]? = some "  @ R 13 // a register".toList ∧
      loadedName? "  @ R 13 // a register".toList = some "R13" ∧ NamesCell "R13" 13 ∧
      "R13" ∈ labelNames code ∧ ¬ LabelTakes code "R13" 13 ∧ e.rom[2]? = some (.load 13) := by
  let code : List Instruction := [.label "KBD", .load (.symbol "R3"), .load (.symbol "x"),
    .load (.register .r13), .label "R13", .label "R3", .load (.symbol "SCREEN"),
    .compute ⟨.none, .zero, .always⟩]
  have hparse : parse namesakeSource.toList = .ok code := rfl
  obtain ⟨e, hlink⟩ : ∃ e, Executable.link code = .ok e :=
    Executable.exists_link (by decide) (by decide)
  have hline : (lines namesakeSource.toList)[3]? = some "  @ R 13 // a register".toList := rfl
  have hname : loadedName? "  @ R 13 // a register".toList = some "R13" := rfl
  have hcell : NamesCell "R13" 13 := .numbered (k := 13) (by decide)
  have hfree : ¬ LabelTakes code "R13" 13 := by
    intro htakes
    exact htakes.1 .r13 rfl
  obtain ⟨loaded, hload, hiff, -⟩ := load_eq_cell_iff hparse hlink hline hname hcell
  obtain rfl : loaded = 13 := UInt16.toNat_inj.mp (hiff.mpr hfree)
  exact ⟨code, e, hparse, hlink, hline, hname, hcell, by decide, hfree, hload⟩

/-- **A label can take the name of a numbered cell.** The program loads the
place of the label, and not cell 5. -/
theorem label_takes_numbered_cell :
    ∃ code e, parse "@R5\n(R5)\n".toList = .ok code ∧ Executable.link code = .ok e ∧
      (lines "@R5\n(R5)\n".toList)[0]? = some "@R5".toList ∧
      loadedName? "@R5".toList = some "R5" ∧ NamesCell "R5" 5 ∧
      e.rom[0]? = some (.load 1) := by
  let code : List Instruction := [.load (.symbol "R5"), .label "R5"]
  obtain ⟨e, hlink⟩ : ∃ e, Executable.link code = .ok e :=
    Executable.exists_link (by decide) (by decide)
  have hrom : e.rom[0]? = some (.load 1) := by
    rw [← Array.getElem?_toList, Executable.toList_rom hlink]
    decide
  exact ⟨code, e, rfl, hlink, rfl, rfl, .numbered (k := 5) (by decide), hrom⟩

end HackComputer.Assembly
