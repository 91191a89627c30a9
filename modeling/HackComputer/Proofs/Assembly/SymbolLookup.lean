import HackComputer.Proofs.Assembly.AddressWidth
import HackComputer.Watch.Point

/-!
# `HackComputer.Proofs.Assembly.SymbolLookup`: names in a program and names asked for

A name gets its address twice. Inside a program, reading turns the names of
registers into registers, and linking resolves all others. From outside,
`Executable.address?` looks a name up in the finished program; this is how a
watch document names an instruction. The two agree on labels, variables and
predefined names (`Executable.address?_eq`). They need not agree on the name
of a register. Reading takes it for the register before any label is known,
and looking up finds the label first if there is one.

* `codeBefore_append_isPrefix`: where the instruction of a line stands.
* `operand_of_loadedName?`: what reading makes of a name.
* `load_eq_address_iff`: the two agree exactly if no label has the name of a
  register and another address (`HidesRegister`).
* `label_hides_register`: a program in which they do not.
-/

set_option autoImplicit false

namespace HackComputer.Assembly

open Isa Text

/-- The name that a line loads: what stands behind its `@`, without blanks and
comment. A run of digits is a number and no name. -/
def loadedName? (line : List Char) : Option String :=
  match squeeze (uncommented line) with
  | '@' :: cs => if cs.all Char.isDigit then none else some (String.ofList cs)
  | _ => none

/-- The instructions in the first lines of a text, labels included. -/
def codeBefore (source : List Char) (n : Nat) : List Instruction :=
  ((lines source).take n).filterMap fun line => (Instruction.parse line).toOption.join

/-- The name is that of a register, and also that of a label with another
address. -/
def HidesRegister (code : List Instruction) (name : String) : Prop :=
  ∃ (r : Register) (i : Nat), r.name = name ∧ code[i]? = some (.label name) ∧
    romLength (code.take i) ≠ r.address.toNat

/-! ### Reading -/

/-- **The instruction of a line stands behind those of the lines before it.** -/
theorem codeBefore_append_isPrefix {source : List Char} {code : List Instruction}
    (h : parse source = .ok code) {n : Nat} {line : List Char}
    (hline : (lines source)[n]? = some line) :
    ∃ i?, Instruction.parse line = .ok i? ∧ codeBefore source n ++ i?.toList <+: code := by
  have hlines : readLines Instruction.parse source = .ok code := h
  rcases readLines_cases Instruction.parse source with ⟨held, hheld, hok⟩ |
    ⟨_, _, _, _, _, _, _, herror⟩
  · rw [hlines] at hok
    cases hok
    -- What the lines hold is known line by line, so the text can be cut anywhere.
    have htake : codeBefore source n = (held.take n).filterMap id :=
      calc codeBefore source n
          = (((lines source).map Instruction.parse).take n).filterMap (·.toOption.join) := by
            rw [← List.map_take, List.filterMap_map]
            rfl
        _ = (held.take n).filterMap id := by
            rw [hheld, ← List.map_take, List.filterMap_map]
            rfl
    have hread : held[n]?.map Except.ok = some (Instruction.parse line) := by
      rw [← List.getElem?_map, ← hheld, List.getElem?_map, hline]
      rfl
    obtain ⟨i?, hi, hparse⟩ := Option.map_eq_some_iff.mp hread
    refine ⟨i?, hparse.symm, ?_⟩
    have hnext : (held.take (n + 1)).filterMap id = codeBefore source n ++ i?.toList := by
      rw [List.take_add_one, hi, List.filterMap_append, htake]
      cases i? <;> rfl
    rw [← hnext]
    exact (List.take_prefix (n + 1) held).filterMap id
  · rw [hlines] at herror
    cases herror

/-- A name is read as a register or as a symbol, and both are written as it
is. -/
theorem operand_of_loadedName? {line : List Char} {name : String} {i? : Option Instruction}
    (hname : loadedName? line = some name) (h : Instruction.parse line = .ok i?) :
    ∃ operand, i? = some (.load operand) ∧ operand.text = name ∧
      ∀ value, operand ≠ .literal value := by
  unfold loadedName? at hname
  split at hname
  · rename_i cs hcs
    split at hname
    · cases hname
    · rename_i hdigits
      cases hname
      have hdecimal : decimal? cs = none := by simp [decimal?, hdigits]
      simp only [Instruction.parse, hcs, Operand.parse, hdecimal] at h
      split at h
      · rename_i r hr
        cases h
        have hfound : r.name = String.ofList cs := by simpa using List.find?_some hr
        exact ⟨.register r, rfl, hfound, by simp⟩
      · split at h
        · cases h
          exact ⟨.symbol (String.ofList cs), rfl, rfl, by simp⟩
        · cases h
  · cases hname

/-! ### Registers -/

/-- A register is found by its name. -/
theorem ofName?_name (r : Register) : Register.ofName? r.name = some r := by
  cases r <;> rfl

/-- The name of a register is predefined. -/
theorem lookup_predefined_name (r : Register) : predefined.lookup r.name = some r.address := by
  cases r <;> rfl

section
variable {code : List Instruction} {e : Executable} (hlink : Executable.link code = .ok e)
include hlink

/-- The name of a register stands for its cell unless a label hides it. -/
theorem addressIn_name_eq_iff (r : Register) :
    r.address = addressIn code r.name ↔ ¬ HidesRegister code r.name := by
  by_cases hlabel : r.name ∈ labelNames code
  · obtain ⟨i, hi⟩ := exists_line_of_mem_labelNames hlabel
    have hplace := Executable.toNat_addressIn_label hlink hi
    constructor
    · rintro hsame ⟨r', j, hname, hj, hne⟩
      -- Registers are told apart by their names, and labels by theirs.
      have hr : r' = r := by
        have hfound := ofName?_name r'
        rw [hname, ofName?_name r] at hfound
        exact (Option.some.inj hfound).symm
      rw [hr, hsame, Executable.toNat_addressIn_label hlink hj] at hne
      exact hne rfl
    · intro hclear
      apply UInt16.toNat_inj.mp
      rw [hplace]
      apply Classical.byContradiction
      intro hne
      exact hclear ⟨r, i, rfl, hi, fun heq => hne heq.symm⟩
  · rw [addressIn_predefined hlabel (lookup_predefined_name r)]
    refine iff_of_true rfl ?_
    rintro ⟨_, i, -, hi, -⟩
    exact hlabel (List.mem_of_getElem? (getElem?_labelNames hi))

end

/-- The name of an operand has an address if it is used or predefined. -/
theorem isSome_address?_text {code : List Instruction} {operand : Operand}
    (h : .load operand ∈ code) (hname : ∀ value, operand ≠ .literal value) :
    (addressIn? code operand.text).isSome := by
  cases operand with
  | literal value => exact absurd rfl (hname value)
  | register r =>
      show (addressIn? code r.name).isSome
      rw [addressIn?, lookup_predefined_name]
      cases (labelAddresses code).lookup r.name <;> rfl
  | symbol name => exact Executable.isSome_addressIn? (mem_symbolNames.mpr h)

/-- **A name that a program loads stands for the address that looking it up
gives**, unless a label hides the register of that name. -/
theorem load_eq_address_iff {source : List Char} {code : List Instruction} {e : Executable}
    (hparse : parse source = .ok code) (hlink : Executable.link code = .ok e) {n : Nat}
    {line : List Char} {name : String} (hline : (lines source)[n]? = some line)
    (hname : loadedName? line = some name) :
    ∃ loaded address, e.rom[romLength (codeBefore source n)]? = some (.load loaded) ∧
      e.address? name = some address ∧ (Watch.Key.symbol name).resolve e = .ok address ∧
      (loaded = address ↔ ¬ HidesRegister code name) := by
  obtain ⟨i?, hread, hplace⟩ := codeBefore_append_isPrefix hparse hline
  obtain ⟨operand, rfl, rfl, hliteral⟩ := operand_of_loadedName? hname hread
  have hmem : .load operand ∈ code := hplace.subset (by simp)
  obtain ⟨address, haddress⟩ := Option.isSome_iff_exists.mp (isSome_address?_text hmem hliteral)
  have hsymbol : e.symbol = addressIn code := by
    funext name
    rw [Executable.symbol, Executable.address?_eq hlink, addressIn]
  have hload := (Loaded.of_link hlink).getElem?_eq hplace rfl
  rw [hsymbol] at hload
  have hfound : e.address? operand.text = some address := by
    rw [Executable.address?_eq hlink, haddress]
  refine ⟨_, address, hload, hfound, by simp [Watch.Key.resolve, hfound], ?_⟩
  have hvalue : address = addressIn code operand.text := by
    rw [addressIn, haddress, Option.getD_some]
  rw [hvalue]
  cases operand with
  | literal value => exact absurd rfl (hliteral value)
  | register r => exact addressIn_name_eq_iff hlink r
  | symbol name =>
      refine iff_of_true rfl ?_
      rintro ⟨r, -, hr, -⟩
      -- Reading would have taken the name for the register.
      have hexpressible := isExpressible_of_mem_parse hparse _ hmem
      simp only [Instruction.isExpressible, Operand.isExpressible, Bool.and_eq_true] at hexpressible
      rw [show name = r.name from hr.symm, ofName?_name] at hexpressible
      cases hexpressible.2

/-- A label that is called like a predefined cell, a variable, a register and
a line with blanks and a comment. -/
def borrowingSource : String :=
  "@x\n  @ R5  // the label\n@SP\n(R5)\n@KBD\n"

/-- The borrowed name hides no register, and is loaded as it is looked up. -/
theorem load_eq_address_of_borrowingSource :
    ∃ code e, parse borrowingSource.toList = .ok code ∧ Executable.link code = .ok e ∧
      ¬ HidesRegister code "R5" ∧ e.rom[1]? = some (.load 3) ∧ e.address? "R5" = some 3 := by
  let code : List Instruction := [.load (.symbol "x"), .load (.symbol "R5"), .load (.register .sp),
    .label "R5", .load (.symbol "KBD")]
  have hparse : parse borrowingSource.toList = .ok code := rfl
  obtain ⟨e, hlink⟩ : ∃ e, Executable.link code = .ok e :=
    Executable.exists_link (by decide) (by decide)
  have hclear : ¬ HidesRegister code "R5" := by
    rintro ⟨r, -, hr, -⟩
    cases r <;> exact absurd hr (by decide)
  have hline : (lines borrowingSource.toList)[1]? = some "  @ R5  // the label".toList := rfl
  have hname : loadedName? "  @ R5  // the label".toList = some "R5" := rfl
  obtain ⟨loaded, address, hload, haddress, -, hsame⟩ :=
    load_eq_address_iff hparse hlink hline hname
  have hthree : e.address? "R5" = some 3 := by
    rw [Executable.address?_eq hlink]
    decide
  rw [haddress] at hthree
  rw [hsame.mpr hclear] at hload
  cases hthree
  exact ⟨code, e, hparse, hlink, hclear, hload, haddress⟩

/-- **A label can hide a register from those who look it up.** The program
loads the cell of the stack pointer, and the name stands for the label. -/
theorem label_hides_register :
    ∃ code e, parse "@SP\n(SP)\n".toList = .ok code ∧ Executable.link code = .ok e ∧
      (lines "@SP\n(SP)\n".toList)[0]? = some "@SP".toList ∧
      loadedName? "@SP".toList = some "SP" ∧
      e.rom[0]? = some (.load 0) ∧ e.address? "SP" = some 1 := by
  let code : List Instruction := [.load (.register .sp), .label "SP"]
  obtain ⟨e, hlink⟩ : ∃ e, Executable.link code = .ok e :=
    Executable.exists_link (by decide) (by decide)
  have hrom : e.rom[0]? = some (.load 0) := by
    rw [← Array.getElem?_toList, Executable.toList_rom hlink]
    rfl
  have haddress : e.address? "SP" = some 1 := by
    rw [Executable.address?_eq hlink]
    decide
  exact ⟨code, e, rfl, hlink, rfl, rfl, hrom, haddress⟩

end HackComputer.Assembly
