import HackComputer.Proofs.Assembly.Image
import HackComputer.Proofs.Assembly.Layout
import HackComputer.Proofs.Machine.Run

/-!
# `HackComputer.Proofs.Assembly.AddressWidth`: addresses that fit into an instruction

An instruction has fifteen bits for the value that it loads. A literal is
checked when it is read, and registers and predefined names have small
addresses. Labels and variables are counted, and only the length of the
program is checked. So there are two ways to an address that is too wide: a
label behind the last of 32768 instructions, and more variables than there
are cells from 16 on. `NamesFit` says that a program takes neither.

* `toNat_addressIn_le_iff`: one name, by the kind of name that it is.
* `loads_fit_iff`: a program that is read and linked loads only values of
  fifteen bits exactly if its names fit, and exactly then its image holds
  the same machine.
* `label_behind_full_memory`: a program of 32768 instructions that halts,
  while the machine of its image does not.
-/

set_option autoImplicit false

namespace HackComputer.Assembly

open Isa Machine

/-- No name that is used has an address of more than fifteen bits. -/
structure NamesFit (code : List Instruction) : Prop where
  /-- A label that is used stands before an instruction. -/
  label_lt : ∀ (i : Nat) name, code[i]? = some (.label name) → name ∈ symbolNames code →
    romLength (code.take i) < romCapacity
  /-- The variables end with memory. -/
  vars_le : variableBase.toNat + (variableNames code).length ≤ ramSize

/-! ### One name -/

/-- A declared label stands in some line. -/
theorem exists_line_of_mem_labelNames {code : List Instruction} {name : String}
    (h : name ∈ labelNames code) : ∃ i : Nat, code[i]? = some (.label name) := by
  obtain ⟨line, hline, hname⟩ := List.mem_filterMap.mp h
  cases line with
  | load operand => cases hname
  | compute c => cases hname
  | label other =>
      cases hname
      exact List.getElem?_of_mem hline

/-- Predefined cells have addresses of fifteen bits. -/
theorem toNat_le_of_lookup_predefined {name : String} {address : Word}
    (h : predefined.lookup name = some address) : address.toNat ≤ maxImmediate.toNat := by
  have hall : predefined.all (fun p => decide (p.2.toNat ≤ maxImmediate.toNat)) = true := by decide
  obtain ⟨before, after, hsplit, -⟩ := List.lookup_eq_some_iff.mp h
  have hmem : (name, address) ∈ predefined := by simp [hsplit]
  simpa using List.all_eq_true.mp hall _ hmem

/-- A predefined name that is no label has its predefined address. -/
theorem addressIn_predefined {code : List Instruction} {name : String} {address : Word}
    (hlabel : name ∉ labelNames code) (h : predefined.lookup name = some address) :
    addressIn code name = address := by
  have hnone : (labelAddresses code).lookup name = none := by
    rw [labelAddresses_eq, lookup_eq_none_iff_not_mem, map_fst_placedLabels]
    exact hlabel
  simp [addressIn, addressIn?, hnone, h]

namespace Executable

section
variable {code : List Instruction} {e : Executable} (hlink : link code = .ok e)
include hlink

/-- Variables are counted from `variableBase` on. -/
theorem toNat_addressIn_variable {name : String} {k : Nat}
    (hk : (variableNames code)[k]? = some name) :
    (addressIn code name).toNat = variableBase.toNat + k := by
  rw [addressIn, addressIn?_variable hk, Option.getD_some, toNat_variableCell hlink hk]
  rfl

/-- **The address of a name has fifteen bits** unless it is a label behind
a full program memory or a variable behind the last cell. -/
theorem toNat_addressIn_le_iff {name : String} (hname : name ∈ symbolNames code) :
    (addressIn code name).toNat ≤ maxImmediate.toNat ↔
      (∀ i : Nat, code[i]? = some (.label name) → romLength (code.take i) < romCapacity) ∧
      (∀ k : Nat, (variableNames code)[k]? = some name → variableBase.toNat + k < ramSize) := by
  by_cases hlabel : name ∈ labelNames code
  · -- A label has the address of the line behind it, and is no variable.
    obtain ⟨i, hi⟩ := exists_line_of_mem_labelNames hlabel
    constructor
    · intro hle
      refine ⟨?_, ?_⟩
      · intro j hj
        rw [toNat_addressIn_label hlink hj] at hle
        exact Nat.lt_succ_of_le hle
      · intro k hk
        exact absurd hlabel (mem_variableNames.mp (List.mem_of_getElem? hk)).2.1
    · rintro ⟨hlabels, -⟩
      rw [toNat_addressIn_label hlink hi]
      exact Nat.le_of_lt_succ (hlabels i hi)
  · have hnolabel : ∀ i : Nat, code[i]? = some (.label name) →
        romLength (code.take i) < romCapacity := by
      intro i hi
      exact absurd (List.mem_of_getElem? (getElem?_labelNames hi)) hlabel
    cases hpre : predefined.lookup name with
    | some address =>
        rw [addressIn_predefined hlabel hpre]
        refine iff_of_true (toNat_le_of_lookup_predefined hpre) ⟨hnolabel, ?_⟩
        intro k hk
        have hfree := (mem_variableNames.mp (List.mem_of_getElem? hk)).2.2
        rw [hpre] at hfree
        cases hfree
    | none =>
        -- What is left is a variable, under the number that it has in the list.
        obtain ⟨k, hk⟩ := List.getElem?_of_mem (mem_variableNames.mpr ⟨hname, hlabel, hpre⟩)
        constructor
        · intro hle
          refine ⟨hnolabel, ?_⟩
          intro j hj
          rw [toNat_addressIn_variable hlink hj] at hle
          exact Nat.lt_succ_of_le hle
        · rintro ⟨-, hvariables⟩
          rw [toNat_addressIn_variable hlink hk]
          exact Nat.le_of_lt_succ (hvariables k hk)

/-- All names have addresses of fifteen bits exactly if the names fit. -/
theorem forall_addressIn_le_iff :
    (∀ name ∈ symbolNames code, (addressIn code name).toNat ≤ maxImmediate.toNat)
      ↔ NamesFit code := by
  constructor
  · intro h
    refine ⟨?_, ?_⟩
    · intro i name hi hname
      exact ((toNat_addressIn_le_iff hlink hname).mp (h name hname)).1 i hi
    · -- The last variable has the highest address.
      rcases Nat.eq_zero_or_pos (variableNames code).length with hnone | hsome
      · rw [hnone]
        decide
      · have hlast : (variableNames code).length - 1 < (variableNames code).length := by omega
        have hk := List.getElem?_eq_getElem hlast
        have hname := (mem_variableNames.mp (List.mem_of_getElem? hk)).1
        have hlt := ((toNat_addressIn_le_iff hlink hname).mp (h _ hname)).2 _ hk
        omega
  · intro hfit name hname
    refine (toNat_addressIn_le_iff hlink hname).mpr ⟨?_, ?_⟩
    · intro i hi
      exact hfit.label_lt i name hi hname
    · intro k hk
      have hlt := (List.getElem?_eq_some_iff.mp hk).1
      have hend := hfit.vars_le
      omega

/-- The values that a program loads are the values of its operands. -/
theorem load_mem_rom_iff {value : Word} :
    .load value ∈ e.rom
      ↔ ∃ operand, .load operand ∈ code ∧ operand.value (addressIn code) = value := by
  rw [← Array.mem_toList_iff, toList_rom hlink, operations, List.mem_filterMap]
  constructor
  · rintro ⟨line, hline, hop⟩
    cases line with
    | load operand =>
        cases hop
        exact ⟨operand, hline, rfl⟩
    | compute c => cases hop
    | label name => cases hop
  · rintro ⟨operand, hline, rfl⟩
    exact ⟨_, hline, rfl⟩

end

end Executable

/-! ### Whole programs -/

/-- A word keeps all of an operation exactly if it loads no wider value. -/
theorem truncated_eq_iff (op : Operation) :
    op.truncated = op ↔ ∀ value, op = .load value → value ≤ maxImmediate := by
  cases op with
  | load value =>
      simp only [Operation.truncated, Operation.load.injEq, forall_eq']
      rw [← UInt16.toNat_inj, UInt16.le_iff_toNat_le, UInt16.toNat_mod]
      show value.toNat % 32768 = value.toNat ↔ value.toNat ≤ 32767
      omega
  | compute c => simp [Operation.truncated]

/-- An image holds the program exactly if the program loads no wider value
than fifteen bits. -/
theorem map_truncated_eq_iff (rom : Array Operation) :
    rom.map Operation.truncated = rom ↔ ∀ value, .load value ∈ rom → value ≤ maxImmediate := by
  have hpointwise := List.map_inj_left (l := rom.toList) (f := Operation.truncated) (g := id)
  rw [List.map_id, ← Array.toList_map, Array.toList_inj] at hpointwise
  rw [hpointwise]
  simp only [id, truncated_eq_iff, Array.mem_toList_iff]
  constructor
  · intro h value hmem
    exact h _ hmem value rfl
  · intro h op hmem value hop
    exact h value (hop ▸ hmem)

/-- The literals of a text that was read are checked, so only names can be
too wide. -/
theorem loads_fit_iff_names {source : List Char} {code : List Instruction} {e : Executable}
    (hparse : parse source = .ok code) (hlink : Executable.link code = .ok e) :
    (∀ value, .load value ∈ e.rom → value ≤ maxImmediate) ↔ NamesFit code := by
  rw [← Executable.forall_addressIn_le_iff hlink]
  constructor
  · intro h name hname
    have hload : .load (addressIn code name) ∈ e.rom :=
      (Executable.load_mem_rom_iff hlink).mpr ⟨.symbol name, mem_symbolNames.mp hname, rfl⟩
    exact UInt16.le_iff_toNat_le.mp (h _ hload)
  · intro h value hvalue
    obtain ⟨operand, hline, rfl⟩ := (Executable.load_mem_rom_iff hlink).mp hvalue
    cases operand with
    | literal value =>
        -- The only check there is: reading refuses a wider literal.
        have hexpressible := isExpressible_of_mem_parse hparse _ hline
        show value ≤ maxImmediate
        simpa [Instruction.isExpressible, Operand.isExpressible, Operand.isSpellable]
          using hexpressible
    | register r =>
        show r.address ≤ maxImmediate
        cases r <;> decide
    | symbol name => exact UInt16.le_iff_toNat_le.mpr (h name (mem_symbolNames.mpr hline))

/-- **A program loads only values of fifteen bits exactly if its names
fit**, and exactly then the machine that its image holds is the machine of
the program. -/
theorem loads_fit_iff {source : List Char} {code : List Instruction} {e : Executable}
    (hparse : parse source = .ok code) (hlink : Executable.link code = .ok e) :
    ((∀ value, .load value ∈ e.rom → value ≤ maxImmediate) ↔ NamesFit code) ∧
    ∃ rom, Image.read (Image.write e.rom).toList = .ok rom ∧
      (State.start rom = State.start e.rom ↔ NamesFit code) := by
  have hfits := loads_fit_iff_names hparse hlink
  refine ⟨hfits, e.rom.map Operation.truncated, ?_, ?_⟩
  · exact Image.read_write_of_size_le (Loaded.of_link hlink).size_le
  · rw [← hfits, ← map_truncated_eq_iff]
    constructor
    · intro h
      exact congrArg State.rom h
    · intro h
      rw [h]

/-- A program with a literal at the limit, a label, variables and names of
every other kind. -/
def mixedSource : String :=
  "@32767\nD=A\n@count\nM=D\n@SCREEN\nM=-1\n@SP\n@R7\n@other\n(END)\n@END\n0;JMP\n"

/-- All its names fit, and so its image starts like the program itself. -/
theorem loads_fit_of_mixedSource :
    ∃ code e rom, parse mixedSource.toList = .ok code ∧ Executable.link code = .ok e ∧
      NamesFit code ∧ (∀ value, .load value ∈ e.rom → value ≤ maxImmediate) ∧
      Image.read (Image.write e.rom).toList = .ok rom ∧ State.start rom = State.start e.rom := by
  let code : List Instruction := [.load (.literal 32767),
    .compute ⟨⟨false, true, false⟩, .y .a, .never⟩, .load (.symbol "count"),
    .compute ⟨⟨false, false, true⟩, .d, .never⟩, .load (.symbol "SCREEN"),
    .compute ⟨⟨false, false, true⟩, .minusOne, .never⟩, .load (.register .sp),
    .load (.symbol "R7"), .load (.symbol "other"), .label "END", .load (.symbol "END"),
    .compute ⟨.none, .zero, .always⟩]
  have hparse : parse mixedSource.toList = .ok code := rfl
  obtain ⟨e, hlink⟩ : ∃ e, Executable.link code = .ok e :=
    Executable.exists_link (by decide) (by decide)
  have hfit : NamesFit code := by
    refine ⟨?_, by decide⟩
    intro i name _ _
    calc romLength (code.take i) ≤ romLength code := romLength_le_of_isPrefix (code.take_prefix i)
      _ < romCapacity := by decide
  obtain ⟨hloads, rom, hread, hsame⟩ := loads_fit_iff hparse hlink
  exact ⟨code, e, rom, hparse, hlink, hfit, hloads.mpr hfit, hread, hsame.mpr hfit⟩

/-! ### A label behind a full program memory -/

/-- Jumps if `D` is zero, as it is at the start. -/
def jumpIfZero : Calculation :=
  ⟨.none, .d, ⟨false, true, false⟩⟩

/-- A program that jumps to the label behind its last instruction. -/
def leavingCode (n : Nat) : List Instruction :=
  .load (.symbol "END") :: List.replicate n (.compute jumpIfZero) ++ [.label "END"]

/-- The text of such a program is read back, however long it is. -/
theorem parse_leavingCode (n : Nat) :
    parse ((leavingCode n).flatMap fun i => i.text.toList ++ ['\n']) = .ok (leavingCode n) := by
  apply parse_lines
  intro i hi
  simp only [leavingCode, List.cons_append, List.mem_cons, List.mem_append, List.mem_replicate,
    List.not_mem_nil, or_false] at hi
  rcases hi with rfl | ⟨-, rfl⟩ | rfl <;> rfl

/-- The label is the number of instructions, whatever that is. -/
theorem link_leavingCode {n : Nat} (hn : n < romCapacity) :
    ∃ e, Executable.link (leavingCode n) = .ok e ∧
      e.rom.toList = .load (n + 1).toUInt16 :: List.replicate n (.compute jumpIfZero) := by
  let jumps : List Instruction := List.replicate n (.compute jumpIfZero)
  have hlabels : labelNames jumps = [] := by
    simp [jumps, labelNames, Instruction.labelName?]
  have hoperations (address : String → Word) :
      operations address jumps = List.replicate n (.compute jumpIfZero) :=
    List.filterMap_replicate_of_some rfl
  have hlength : romLength jumps = n := by
    rw [← length_operations fun _ => 0, hoperations, List.length_replicate]
  obtain ⟨e, hlink⟩ : ∃ e, Executable.link (leavingCode n) = .ok e := by
    apply Executable.exists_link
    · show (labelNames (.load (.symbol "END") :: jumps ++ [.label "END"])).Nodup
      simp [hlabels]
    · show romLength (.load (.symbol "END") :: jumps ++ [.label "END"]) ≤ romCapacity
      simp only [List.cons_append, romLength_load, romLength_append, hlength, romLength_label,
        romLength_nil]
      exact hn
  have hplace : (leavingCode n)[n + 1]? = some (.label "END") := by
    simp [leavingCode]
  have haddress : addressIn (leavingCode n) "END" = (n + 1).toUInt16 := by
    apply UInt16.toNat_inj.mp
    have hbefore : (leavingCode n).take (n + 1) = .load (.symbol "END") :: jumps := by
      simp [leavingCode, jumps]
    rw [Executable.toNat_addressIn_label hlink hplace, hbefore, romLength_load, hlength]
    exact (UInt16.toNat_ofNat_of_lt (Nat.lt_of_le_of_lt hn (by decide))).symm
  refine ⟨e, hlink, ?_⟩
  rw [Executable.toList_rom hlink, ← haddress, ← hoperations (addressIn (leavingCode n))]
  show operations _ (.load (.symbol "END") :: jumps ++ [.label "END"]) = _
  simp only [List.cons_append, operations_load, operations_append, operations_label,
    operations_nil, List.append_nil]
  rfl

/-- The jump is taken at once. -/
theorem steps_leaving {rom : Array Operation} {target : Word} {n : Nat}
    (hrom : rom.toList = .load target :: List.replicate (n + 1) (.compute jumpIfZero))
    (hsize : rom.size ≤ romCapacity) :
    State.Steps 2 (State.start rom)
      ((Data.mk (Vector.replicate ramSize 0) target 0).state rom target.toNat) := by
  let x : Data := ⟨Vector.replicate ramSize 0, 0, 0⟩
  have hload : rom[0]? = some (.load target) := by
    rw [← Array.getElem?_toList, hrom]
    rfl
  have hjump : rom[1]? = some (.compute jumpIfZero) := by
    rw [← Array.getElem?_toList, hrom]
    rfl
  have hfirst : State.Steps 1 (x.state rom 0) ((x.perform (.load target)).state rom 1) :=
    step_perform hsize hload x rfl
  -- `D` is zero, so the jump is taken; being conditional, it is no idle loop.
  have hsecond : State.Steps 1 ((x.perform (.load target)).state rom 1)
      ((x.perform (.load target)).state rom target.toNat) :=
    steps_jump hsize hjump _ rfl (isIdle_of_ne_always (by decide))
  exact hfirst.trans hsecond

/-- **A label behind 32768 instructions has an address of sixteen bits.**
The program jumps to it and halts. Its image loads zero in its place, so
the machine of the image jumps to its first instruction and never halts. -/
theorem label_behind_full_memory :
    ∃ source code e rom, parse source = .ok code ∧ Executable.link code = .ok e ∧
      .load 0x8000 ∈ e.rom ∧ Image.read (Image.write e.rom).toList = .ok rom ∧
      ((State.start e.rom).run 3).2.halted = true ∧
      ∀ limit, ((State.start rom).run limit).2.halted = false := by
  -- Nothing below should count out the program, so its length is only known by this equation.
  obtain ⟨n, hn⟩ : ∃ n, n + 2 = romCapacity := ⟨32766, rfl⟩
  obtain ⟨e, hlink, hrom⟩ := link_leavingCode (n := n + 1) (by omega)
  have hlast : (n + 1 + 1).toUInt16 = 0x8000 := by rw [hn]; rfl
  rw [hlast] at hrom
  have hsize : e.rom.size = romCapacity := by
    rw [← Array.length_toList, hrom, List.length_cons, List.length_replicate]
    exact hn
  have himage : (e.rom.map Operation.truncated).toList
      = .load 0 :: List.replicate (n + 1) (.compute jumpIfZero) := by
    rw [Array.toList_map, hrom, List.map_cons, List.map_replicate]
    rfl
  have himageSize : (e.rom.map Operation.truncated).size ≤ romCapacity := by
    rw [Array.size_map]
    exact Nat.le_of_eq hsize
  refine ⟨_, leavingCode (n + 1), e, e.rom.map Operation.truncated, parse_leavingCode (n + 1),
    hlink, ?_, ?_, ?_, ?_⟩
  · rw [← Array.mem_toList_iff, hrom]
    exact List.mem_cons_self
  · exact Image.read_write_of_size_le (Nat.le_of_eq hsize)
  · -- The target is the first address without an operation.
    have hleave := steps_leaving hrom (Nat.le_of_eq hsize)
    have hend : (0x8000 : Word).toNat = e.rom.size := hsize.symm
    rw [hend] at hleave
    rw [State.run_add 2 1, hleave.run_eq, run_end (Nat.le_of_eq hsize)]
  · -- The target is the start, and nothing has changed on the way.
    intro limit
    exact State.Steps.live_of_loop (steps_leaving himage himageSize) (by decide) limit

end HackComputer.Assembly
