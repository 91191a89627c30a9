import HackComputer.Assembly.Executable

/-!
# `HackComputer.Proofs.Assembly.Linking`: what linking puts into program memory

Linking makes two passes over the lines. The first places the labels:
each gets the number of instructions before it. The second turns every
other line into an operation and gives cells to the variables that it
meets, so an operand is resolved against the variables known so far. The
proofs want to resolve it against the finished program instead, and
`Extends` is why that is the same: a name that has an address keeps it.

* `collectLabels_eq_ok`, `collectLabels_isOk_iff`: the first pass succeeds
  exactly on distinct labels, and then lists them with their places.
* `resolve_rom`: the second pass, resolved against its own result.
* `link_eq_ok`: both together, for a program that links.
* `exists_link`: distinct labels and enough room are all that linking
  asks for.
* `link_eq_redefinedLabel_iff`: a redefined label is reported exactly if
  the labels are not distinct.
* `Loaded`: the three facts that an execution needs to know.
-/

set_option autoImplicit false

namespace HackComputer.Assembly

open Isa

/-! ### Lines and places -/

/-- The number of words that lines of assembly take in program memory. -/
def romLength (code : List Instruction) : Nat :=
  code.countP (!·.isLabel)

/-- No lines take no words. -/
@[simp] theorem romLength_nil : romLength [] = 0 := rfl

/-- A label takes no word. -/
@[simp] theorem romLength_label (name : String) (code : List Instruction) :
    romLength (.label name :: code) = romLength code := by
  simp [romLength, Instruction.isLabel]

/-- A load takes one word. -/
@[simp] theorem romLength_load (operand : Operand) (code : List Instruction) :
    romLength (.load operand :: code) = romLength code + 1 := by
  simp [romLength, Instruction.isLabel]

/-- A computing line takes one word. -/
@[simp] theorem romLength_compute (c : Calculation) (code : List Instruction) :
    romLength (.compute c :: code) = romLength code + 1 := by
  simp [romLength, Instruction.isLabel]

/-- Two pieces of code take their words together. -/
@[simp] theorem romLength_append (code code' : List Instruction) :
    romLength (code ++ code') = romLength code + romLength code' := by
  simp [romLength]

/-- The value of an operand, with addresses for the names. -/
def Operand.value (address : String → Word) : Operand → Word
  | literal value => value
  | register r => r.address
  | symbol name => address name

namespace Instruction

/-- The label that a line declares. -/
def labelName? : Instruction → Option String
  | label name => some name
  | _ => none

/-- The operation of a line, with addresses for the names. -/
def operation? (address : String → Word) : Instruction → Option Operation
  | load operand => some (.load (operand.value address))
  | compute c => some (.compute c)
  | label _ => none

end Instruction

/-- The operations of lines of assembly, with addresses for the names. -/
def operations (address : String → Word) (code : List Instruction) : List Operation :=
  code.filterMap (Instruction.operation? address)

section
variable (address : String → Word) (code : List Instruction)

/-- No lines are no operations. -/
@[simp] theorem operations_nil : operations address [] = [] := rfl

/-- A label is no operation. -/
@[simp] theorem operations_label (name : String) :
    operations address (.label name :: code) = operations address code := rfl

/-- A load is one operation, with the address of its operand. -/
@[simp] theorem operations_load (operand : Operand) :
    operations address (.load operand :: code)
      = .load (operand.value address) :: operations address code := rfl

/-- A computing line is one operation as it stands. -/
@[simp] theorem operations_compute (c : Calculation) :
    operations address (.compute c :: code) = .compute c :: operations address code := rfl

/-- The operations of two pieces of code follow each other. -/
@[simp] theorem operations_append (code' : List Instruction) :
    operations address (code ++ code') = operations address code ++ operations address code' := by
  simp [operations]

/-- Lines become as many operations as they take words. -/
theorem length_operations : (operations address code).length = romLength code := by
  induction code with
  | nil => rfl
  | cons i code ih => cases i <;> simp [ih]

end

/-- The labels that lines of assembly declare, in order. -/
def labelNames (code : List Instruction) : List String :=
  code.filterMap Instruction.labelName?

/-- No lines place no labels. -/
@[simp] theorem labelNames_nil : labelNames [] = [] := rfl

/-- A label places its name. -/
@[simp] theorem labelNames_label (name : String) (code : List Instruction) :
    labelNames (.label name :: code) = name :: labelNames code := rfl

/-- A load places no label. -/
@[simp] theorem labelNames_load (operand : Operand) (code : List Instruction) :
    labelNames (.load operand :: code) = labelNames code := rfl

/-- A computing line places no label. -/
@[simp] theorem labelNames_compute (c : Calculation) (code : List Instruction) :
    labelNames (.compute c :: code) = labelNames code := rfl

/-- The labels of two pieces of code follow each other. -/
@[simp] theorem labelNames_append (code code' : List Instruction) :
    labelNames (code ++ code') = labelNames code ++ labelNames code' := by
  simp [labelNames]

/-- The number of labels before line `i`. -/
def labelIndex (code : List Instruction) (i : Nat) : Nat :=
  (labelNames (code.take i)).length

/-- The label in a line is found under its number. -/
theorem getElem?_labelNames {code : List Instruction} {i : Nat} {name : String}
    (h : code[i]? = some (.label name)) : (labelNames code)[labelIndex code i]? = some name := by
  obtain ⟨hi, hline⟩ := List.getElem?_eq_some_iff.mp h
  have hsplit : code = code.take i ++ .label name :: code.drop (i + 1) := by
    rw [← hline, List.getElem_cons_drop, List.take_append_drop]
  have hnames : labelNames code
      = labelNames (code.take i) ++ name :: labelNames (code.drop (i + 1)) := by
    rw [← labelNames_label, ← labelNames_append, ← hsplit]
  rw [hnames, labelIndex, List.getElem?_append_right (Nat.le_refl _), Nat.sub_self,
    List.getElem?_cons_zero]

/-- Labels are numbered in the order of their lines. -/
theorem labelIndex_lt {code : List Instruction} {i j : Nat} {name : String}
    (h : code[i]? = some (.label name)) (hij : i < j) : labelIndex code i < labelIndex code j := by
  have hnext : labelIndex code (i + 1) = labelIndex code i + 1 := by
    rw [labelIndex, List.take_add_one, h, labelNames_append, List.length_append]
    rfl
  have hinit : code.take (i + 1) <+: code.take j := List.take_prefix_take_left hij
  have hle : labelIndex code (i + 1) ≤ labelIndex code j :=
    (hinit.filterMap Instruction.labelName?).length_le
  omega

/-- The first part of a program numbers its labels by itself. -/
theorem labelIndex_append_left {code code' : List Instruction} {i : Nat} (hi : i ≤ code.length) :
    labelIndex (code ++ code') i = labelIndex code i := by
  rw [labelIndex, List.take_append_of_le_length hi, labelIndex]

/-- The second part numbers its labels behind those of the first. -/
theorem labelIndex_append_right {code code' : List Instruction} {i : Nat}
    (hi : code.length ≤ i) :
    labelIndex (code ++ code') i
      = (labelNames code).length + labelIndex code' (i - code.length) := by
  rw [labelIndex, List.take_append, List.take_of_length_le hi, labelNames_append,
    List.length_append, labelIndex]

/-- The labels with their addresses, for lines that stand behind `size`
instructions. -/
def placedLabels : Nat → List Instruction → List (String × Word)
  | _, [] => []
  | size, .label name :: code => (name, size.toUInt16) :: placedLabels size code
  | size, .load _ :: code => placedLabels (size + 1) code
  | size, .compute _ :: code => placedLabels (size + 1) code

/-- A search finds nothing exactly for the names that no pair carries. -/
theorem lookup_eq_none_iff_not_mem {name : String} {pairs : List (String × Word)} :
    pairs.lookup name = none ↔ name ∉ pairs.map Prod.fst := by
  induction pairs with
  | nil => simp
  | cons p pairs ih =>
      rw [List.lookup_cons, List.map_cons, List.mem_cons, not_or]
      by_cases h : name = p.1
      · simp [h]
      · rw [show (name == p.1) = false from by simp [h]]
        simp [h, ih]

/-- A label whose name is declared once is found where it stands. -/
theorem lookup_placedLabels (size : Nat) (before after : List Instruction) (name : String)
    (h : name ∉ labelNames before) :
    (placedLabels size (before ++ .label name :: after)).lookup name
      = some (size + romLength before).toUInt16 := by
  induction before generalizing size with
  | nil => simp [placedLabels]
  | cons i before ih =>
      cases i with
      | label other =>
          rw [labelNames_label, List.mem_cons, not_or] at h
          obtain ⟨hne, hrest⟩ := h
          rw [List.cons_append, placedLabels, List.lookup_cons,
            show (name == other) = false from by simp [hne]]
          simpa using ih size hrest
      | load operand =>
          rw [List.cons_append, placedLabels, ih (size + 1) h, romLength_load]
          congr 2; omega
      | compute c =>
          rw [List.cons_append, placedLabels, ih (size + 1) h, romLength_compute]
          congr 2; omega

namespace Executable

/-! ### The first pass -/

/-- A first pass that succeeds has counted the instructions and listed
the labels behind those it was given. -/
theorem collectLabels_eq_ok {code : List Instruction} {size n : Nat} {labels table : SymbolTable}
    (h : collectLabels code size labels = .ok (n, table)) :
    n = size + romLength code ∧ table.toList = labels.toList ++ placedLabels size code := by
  induction code generalizing size labels with
  | nil =>
      cases h
      simp [placedLabels]
  | cons i code ih =>
      cases i with
      | label name =>
          rw [collectLabels] at h
          split at h
          · cases h
          · rename_i hnew
            obtain ⟨hn, htable⟩ := ih h
            rw [SymbolTable.toList_push hnew] at htable
            exact ⟨by simpa using hn, by simpa [placedLabels] using htable⟩
      | load operand =>
          have hrest : collectLabels code (size + 1) labels = .ok (n, table) := h
          obtain ⟨hn, htable⟩ := ih hrest
          exact ⟨by rw [hn, romLength_load]; omega, htable⟩
      | compute c =>
          have hrest : collectLabels code (size + 1) labels = .ok (n, table) := h
          obtain ⟨hn, htable⟩ := ih hrest
          exact ⟨by rw [hn, romLength_compute]; omega, htable⟩

/-- A first pass succeeds exactly when no name comes twice, be it among
the labels that it was given or among those of the lines. -/
theorem collectLabels_isOk_iff (code : List Instruction) (size : Nat) (labels : SymbolTable)
    (hlabels : (labels.toList.map Prod.fst).Nodup) :
    (∃ r, collectLabels code size labels = .ok r)
      ↔ (labels.toList.map Prod.fst ++ labelNames code).Nodup := by
  induction code generalizing size labels with
  | nil => simp [collectLabels, hlabels]
  | cons i code ih =>
      cases i with
      | label name =>
          rw [collectLabels, labelNames_label]
          split
          · rename_i address hold
            -- The name is among the labels already, so the list repeats it.
            have hmem : name ∈ labels.toList.map Prod.fst := by
              apply Classical.byContradiction
              intro hnot
              rw [← lookup_eq_none_iff_not_mem, ← SymbolTable.get?_eq_lookup, hold] at hnot
              cases hnot
            simp only [reduceCtorEq, exists_false, false_iff]
            intro hnodup
            exact (List.nodup_append.mp hnodup).2.2 name hmem name List.mem_cons_self rfl
          · rename_i hnew
            have hnot : name ∉ labels.toList.map Prod.fst := by
              rw [← lookup_eq_none_iff_not_mem, ← SymbolTable.get?_eq_lookup, hnew]
            have hpush : ((labels.push name size.toUInt16).toList.map Prod.fst)
                = labels.toList.map Prod.fst ++ [name] := by
              rw [SymbolTable.toList_push hnew, List.map_append]
              rfl
            rw [ih size (labels.push name size.toUInt16) (by
              rw [hpush, List.nodup_append]
              refine ⟨hlabels, by simp, ?_⟩
              intro a ha b hb
              rw [List.mem_singleton] at hb
              subst hb
              intro heq
              exact hnot (heq ▸ ha)), hpush]
            simp
      | load operand => exact ih (size + 1) labels hlabels
      | compute c => exact ih (size + 1) labels hlabels

/-- A first pass fails only at a name that comes twice. -/
theorem collectLabels_eq_error {code : List Instruction} {size : Nat} {labels : SymbolTable}
    {err : Error} (h : collectLabels code size labels = .error err) :
    ∃ name, err = .redefinedLabel name := by
  induction code generalizing size labels with
  | nil => cases h
  | cons i code ih =>
      cases i with
      | label name =>
          rw [collectLabels] at h
          split at h
          · cases h
            exact ⟨name, rfl⟩
          · exact ih h
      | load operand => exact ih h
      | compute c => exact ih h

/-! ### The second pass -/

/-- What a name stands for while only some variables have their cells. -/
def lookupName (labels vars : SymbolTable) (name : String) : Option Word :=
  labels.get? name <|> predefined.lookup name <|> vars.get? name

/-- What has an address with the variables `vars` has the same one with
`vars'`. -/
def Extends (labels vars vars' : SymbolTable) : Prop :=
  ∀ name address, lookupName labels vars name = some address →
    lookupName labels vars' name = some address

/-- Nothing new changes nothing. -/
theorem Extends.refl (labels vars : SymbolTable) : Extends labels vars vars :=
  fun _ _ h => h

/-- What two extensions keep, both together keep. -/
theorem Extends.trans {labels vars vars' vars'' : SymbolTable} (h : Extends labels vars vars')
    (h' : Extends labels vars' vars'') : Extends labels vars vars'' :=
  fun name address hname => h' name address (h name address hname)

/-- No variable has the name of a predefined cell. -/
def Proper (vars : SymbolTable) : Prop :=
  ∀ name, (vars.get? name).isSome → predefined.lookup name = none

/-- A new name is found in a table behind the old ones. -/
theorem get?_push {vars : SymbolTable} {name : String} (h : vars.get? name = none)
    (address : Word) (other : String) :
    (vars.push name address).get? other
      = (vars.get? other <|> if other = name then some address else none) := by
  rw [SymbolTable.get?_eq_lookup, SymbolTable.get?_eq_lookup, SymbolTable.toList_push h,
    List.lookup_append]
  by_cases hother : other = name
  · simp [hother]
  · simp [List.lookup_cons, hother, show (other == name) = false from by simp [hother]]

/-- Resolving a name gives the address that the name has from then on. -/
theorem lookupName_resolveSymbol (labels vars : SymbolTable) (name : String) :
    lookupName labels (resolveSymbol labels vars name).2 name
      = some (resolveSymbol labels vars name).1 := by
  unfold resolveSymbol
  split
  · rename_i address hold
    exact hold
  · rename_i hnew
    simp only [Option.orElse_eq_orElse, Option.orElse_eq_or, Option.or_eq_none_iff] at hnew
    obtain ⟨hlabel, hpre, hvar⟩ := hnew
    simp [lookupName, hlabel, hpre, get?_push hvar, hvar]

/-- Resolving a name takes no address away. -/
theorem extends_resolveSymbol (labels vars : SymbolTable) (name : String) :
    Extends labels vars (resolveSymbol labels vars name).2 := by
  unfold resolveSymbol
  split
  · exact Extends.refl labels vars
  · rename_i hnew
    simp only [Option.orElse_eq_orElse, Option.orElse_eq_or, Option.or_eq_none_iff] at hnew
    obtain ⟨hlabel, hpre, hvar⟩ := hnew
    intro other address hother
    unfold lookupName at hother ⊢
    rw [get?_push hvar]
    cases hl : labels.get? other with
    | some w => rw [hl] at hother; simpa using hother
    | none =>
        cases hp : predefined.lookup other with
        | some w => rw [hl, hp] at hother; simpa using hother
        | none =>
            rw [hl, hp] at hother
            have hv : vars.get? other = some address := by simpa using hother
            simp [hv]

/-- Resolving a name gives a cell to no predefined name. -/
theorem proper_resolveSymbol {labels vars : SymbolTable} (h : Proper vars) (name : String) :
    Proper (resolveSymbol labels vars name).2 := by
  unfold resolveSymbol
  split
  · exact h
  · rename_i hnew
    simp only [Option.orElse_eq_orElse, Option.orElse_eq_or, Option.or_eq_none_iff] at hnew
    obtain ⟨-, hpre, hvar⟩ := hnew
    intro other hother
    by_cases hname : other = name
    · rw [hname]; exact hpre
    · rw [get?_push hvar] at hother
      exact h other (by simpa [hname] using hother)

/-- The address of a name with the variables `vars`, zero if it has
none. -/
def addressWith (labels vars : SymbolTable) (name : String) : Word :=
  (lookupName labels vars name).getD 0

/-- The value of an operand may be read off any later stage. -/
theorem resolveOperand_fst (labels vars vars' : SymbolTable) (operand : Operand)
    (h : Extends labels (resolveOperand labels vars operand).2 vars') :
    (resolveOperand labels vars operand).1 = operand.value (addressWith labels vars') := by
  cases operand with
  | literal value => rfl
  | register r => rfl
  | symbol name =>
      have hname := h name _ (lookupName_resolveSymbol labels vars name)
      simp only [resolveOperand, Operand.value, addressWith, hname, Option.getD_some]

/-- Resolving an operand takes no address away. -/
theorem extends_resolveOperand (labels vars : SymbolTable) (operand : Operand) :
    Extends labels vars (resolveOperand labels vars operand).2 := by
  cases operand with
  | literal value => exact Extends.refl labels vars
  | register r => exact Extends.refl labels vars
  | symbol name => exact extends_resolveSymbol labels vars name

/-- Resolving an operand gives a cell to no predefined name. -/
theorem proper_resolveOperand {labels vars : SymbolTable} (h : Proper vars) (operand : Operand) :
    Proper (resolveOperand labels vars operand).2 := by
  cases operand with
  | literal value => exact h
  | register r => exact h
  | symbol name => exact proper_resolveSymbol h name

/-- The second pass takes no address away, gives a cell to no predefined
name, and appends the operations of its lines, with every name resolved
as it is in the end. -/
theorem resolve_rom (labels : SymbolTable) (code : List Instruction) (vars : SymbolTable)
    (rom : Array Operation) (hproper : Proper vars) :
    Extends labels vars (resolve labels code vars rom).1 ∧
    Proper (resolve labels code vars rom).1 ∧
    (resolve labels code vars rom).2.toList = rom.toList
      ++ operations (addressWith labels (resolve labels code vars rom).1) code := by
  induction code generalizing vars rom with
  | nil => exact ⟨Extends.refl labels vars, hproper, by simp [resolve]⟩
  | cons i code ih =>
      cases i with
      | label name =>
          simpa [resolve] using ih vars rom hproper
      | compute c =>
          obtain ⟨hext, hprop, hrom⟩ := ih vars (rom.push (.compute c)) hproper
          exact ⟨hext, hprop, by simpa [resolve] using hrom⟩
      | load operand =>
          obtain ⟨hext, hprop, hrom⟩ := ih (resolveOperand labels vars operand).2
            (rom.push (.load (resolveOperand labels vars operand).1))
            (proper_resolveOperand hproper operand)
          refine ⟨(extends_resolveOperand labels vars operand).trans hext, hprop, ?_⟩
          -- The operand was resolved with the variables so far; no later line takes them away.
          have hvalue := resolveOperand_fst labels vars _ operand hext
          simp only [resolve, operations_load]
          rw [hrom, Array.toList_push, List.append_assoc, List.singleton_append, ← hvalue]

/-! ### Both passes -/

/-- The address of a name in a finished program, zero if it has none. -/
def symbol (e : Executable) (name : String) : Word :=
  (e.address? name).getD 0

/-- What a program that links looks like: its labels are distinct, it has
room, and its operations are its lines with every name resolved as in
the finished program. -/
theorem link_eq_ok {code : List Instruction} {e : Executable} (h : link code = .ok e) :
    (labelNames code).Nodup ∧ romLength code ≤ romCapacity ∧ e.labels = placedLabels 0 code ∧
      e.rom.toList = operations e.symbol code := by
  unfold link at h
  cases hcollect : collectLabels code 0 .empty with
  | error err => rw [hcollect] at h; cases h
  | ok r =>
      obtain ⟨size, labels⟩ := r
      obtain ⟨hsize, hlabels⟩ := collectLabels_eq_ok hcollect
      rw [Nat.zero_add] at hsize
      rw [SymbolTable.toList_empty, List.nil_append] at hlabels
      have hnodup := (collectLabels_isOk_iff code 0 .empty (by simp)).mp ⟨_, hcollect⟩
      rw [SymbolTable.toList_empty, List.map_nil, List.nil_append] at hnodup
      rw [hcollect] at h
      by_cases hfull : romCapacity < size
      · simp only [bind, Except.bind, hfull, if_true] at h
        cases h
      · simp only [bind, Except.bind, hfull, if_false, pure, Except.pure] at h
        cases h
        obtain ⟨-, hproper, hrom⟩ := resolve_rom labels code .empty #[]
          (fun name hname => by simp [SymbolTable.get?_eq_lookup] at hname)
        refine ⟨hnodup, by omega, hlabels, ?_⟩
        rw [hrom]
        -- The finished program asks for variables before predefined names. No variable
        -- has such a name, so the order makes no difference.
        have hsame : addressWith labels (resolve labels code .empty #[]).1
            = symbol ⟨(resolve labels code .empty #[]).2, labels.toList,
                (resolve labels code .empty #[]).1.toList⟩ := by
          funext name
          simp only [addressWith, lookupName, symbol, address?, SymbolTable.get?_eq_lookup]
          cases hvar : (resolve labels code .empty #[]).1.toList.lookup name with
          | none => simp
          | some address =>
              have hpre := hproper name (by rw [SymbolTable.get?_eq_lookup, hvar]; rfl)
              simp [hpre]
        rw [hsame]
        rfl

/-- A program links when its labels are distinct and it has room. -/
theorem exists_link {code : List Instruction} (hnodup : (labelNames code).Nodup)
    (hroom : romLength code ≤ romCapacity) : ∃ e, link code = .ok e := by
  obtain ⟨⟨size, labels⟩, hcollect⟩ :=
    (collectLabels_isOk_iff code 0 .empty (by simp)).mpr (by simpa using hnodup)
  have hsize := (collectLabels_eq_ok hcollect).1
  refine ⟨⟨(resolve labels code .empty #[]).2, labels.toList,
    (resolve labels code .empty #[]).1.toList⟩, ?_⟩
  have hfit : ¬ romCapacity < size := by omega
  unfold link
  rw [hcollect]
  simp only [bind, Except.bind, hfit, if_false, pure, Except.pure]

/-- A label is reported as redefined exactly when some label comes twice. -/
theorem link_eq_redefinedLabel_iff {code : List Instruction} :
    (∃ name, link code = .error (.redefinedLabel name)) ↔ ¬ (labelNames code).Nodup := by
  have hiff := collectLabels_isOk_iff code 0 .empty (by simp)
  rw [SymbolTable.toList_empty, List.map_nil, List.nil_append] at hiff
  rw [← hiff]
  cases hcollect : collectLabels code 0 .empty with
  | error err =>
      obtain ⟨name, rfl⟩ := collectLabels_eq_error hcollect
      have hlink : link code = .error (.redefinedLabel name) := by
        unfold link
        rw [hcollect]
        rfl
      simp [hlink]
  | ok r =>
      -- The only error behind the first pass is a program that is too long.
      obtain ⟨size, labels⟩ := r
      have hlink : ∀ name, link code ≠ .error (.redefinedLabel name) := by
        intro name hfail
        unfold link at hfail
        rw [hcollect] at hfail
        by_cases hfull : romCapacity < size
        · simp only [bind, Except.bind, hfull, if_true] at hfail
          cases hfail
        · simp only [bind, Except.bind, hfull, if_false] at hfail
          cases hfail
      simp [hlink]

end Executable

/-! ### Loaded programs

A place in a program is given by the lines before it, and that `lines`
stand there by `before ++ lines <+: code`. -/

/-- The first of two parts stands where both stand. -/
theorem isPrefix_left {before lines lines' code : List Instruction}
    (h : before ++ (lines ++ lines') <+: code) : before ++ lines <+: code := by
  rw [← List.append_assoc] at h
  exact (List.prefix_append _ _).trans h

/-- The second of two parts stands behind the first. -/
theorem isPrefix_right {before lines lines' code : List Instruction}
    (h : before ++ (lines ++ lines') <+: code) : (before ++ lines) ++ lines' <+: code := by
  rw [List.append_assoc]
  exact h

/-- Lines that stand in a program have room together with those before
them. -/
theorem romLength_le_of_isPrefix {lines code : List Instruction} (h : lines <+: code) :
    romLength lines ≤ romLength code := by
  obtain ⟨after, rfl⟩ := h
  rw [romLength_append]
  exact Nat.le_add_right _ _

/-- Program memory holds the lines of `code`, where every name stands for
the address that `address` gives it. -/
structure Loaded (code : List Instruction) (rom : Array Operation) (address : String → Word) :
    Prop where
  /-- The operations are those of the lines. -/
  rom_eq : rom.toList = operations address code
  /-- A label stands for the instruction after it. -/
  label_eq : ∀ before name, before ++ [.label name] <+: code →
    address name = (romLength before).toUInt16
  /-- The program has room. -/
  fits : romLength code ≤ romCapacity

namespace Loaded

variable {code : List Instruction} {rom : Array Operation} {address : String → Word}

/-- Linking loads a program. -/
theorem of_link {e : Executable} (h : Executable.link code = .ok e) :
    Loaded code e.rom e.symbol := by
  obtain ⟨hnodup, hroom, hlabels, hrom⟩ := Executable.link_eq_ok h
  refine ⟨hrom, ?_, hroom⟩
  rintro before name ⟨after, hcode⟩
  rw [List.append_assoc, List.singleton_append] at hcode
  have hnot : name ∉ labelNames before := by
    rw [← hcode, labelNames_append, labelNames_label, List.nodup_append] at hnodup
    intro hmem
    exact hnodup.2.2 name hmem name List.mem_cons_self rfl
  have hlookup := lookup_placedLabels 0 before after name hnot
  rw [hcode, ← hlabels, Nat.zero_add] at hlookup
  simp [Executable.symbol, Executable.address?, hlookup]

/-- Program memory is as long as the lines say. -/
theorem size_eq (h : Loaded code rom address) : rom.size = romLength code := by
  rw [← Array.length_toList, h.rom_eq, length_operations]

/-- A program that was loaded fits into program memory. -/
theorem size_le (h : Loaded code rom address) : rom.size ≤ romCapacity :=
  h.size_eq ▸ h.fits

/-- The words before any place of the program can be counted in a
word. -/
theorem toNat_romLength (h : Loaded code rom address) {lines : List Instruction}
    (hcode : lines <+: code) : (romLength lines).toUInt16.toNat = romLength lines :=
  UInt16.toNat_ofNat_of_lt (Nat.lt_of_le_of_lt
    (Nat.le_trans (romLength_le_of_isPrefix hcode) h.fits) (by decide))

/-- The number of words before a label is its address. -/
theorem label_toNat (h : Loaded code rom address) (before : List Instruction) (name : String)
    (hcode : before ++ [.label name] <+: code) : (address name).toNat = romLength before := by
  rw [h.label_eq before name hcode]
  exact h.toNat_romLength ((List.prefix_append _ _).trans hcode)

/-- The operation of a line is found behind the words of the lines before
it. -/
theorem getElem?_eq (h : Loaded code rom address) {before : List Instruction}
    {i : Instruction} {op : Operation} (hcode : before ++ [i] <+: code)
    (hop : i.operation? address = some op) : rom[romLength before]? = some op := by
  obtain ⟨after, rfl⟩ := hcode
  have hops : operations address [i] = [op] := by
    show List.filterMap (Instruction.operation? address) [i] = [op]
    rw [List.filterMap_cons_some hop, List.filterMap_nil]
  rw [← Array.getElem?_toList, h.rom_eq, operations_append, operations_append, hops,
    ← length_operations address before, List.append_assoc]
  simp

end Loaded

end HackComputer.Assembly
