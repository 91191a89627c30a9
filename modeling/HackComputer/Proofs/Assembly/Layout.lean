import HackComputer.Proofs.Assembly.Linking

/-!
# `HackComputer.Proofs.Assembly.Layout`: what linking computes, without its passes

Linking walks through the lines twice, threads two tables through the
walks and may stop in the middle of the first. `layout` says what comes
out, with everything read off the lines as a whole:

* `repeatedLabel?`: the first label that an earlier line has declared.
* `labelAddresses`: each label with the number of instructions before it.
* `variableNames`: the names that are used and are neither labels of the
  program nor predefined, in the order of their first use. They are
  numbered from `variableBase` on (`numbered`).
* `addressIn?`: a label comes before a predefined name, and that before a
  variable.

`link_eq_layout` is the main statement. The first pass is the easy half:
it stops at the first repetition, and otherwise lists what `labelAddresses`
lists. The second pass meets the names one by one, so its invariant is
about the lines that are left: what they add to the variables are the new
names among them, each once (`resolve_vars`).
-/

set_option autoImplicit false

namespace HackComputer.Assembly

open Isa

/-! ### Names and their addresses, read off the lines -/

/-- The name that a line loads. -/
def Instruction.symbolName? : Instruction → Option String
  | load (.symbol name) => some name
  | _ => none

/-- The names that lines load, in order and as often as they do. -/
def symbolNames (code : List Instruction) : List String :=
  code.filterMap Instruction.symbolName?

section
variable (code : List Instruction)

/-- No lines load no names. -/
@[simp] theorem symbolNames_nil : symbolNames [] = [] := rfl

/-- A label places a name and loads none. -/
@[simp] theorem symbolNames_label (name : String) :
    symbolNames (.label name :: code) = symbolNames code := rfl

/-- Computing loads no name. -/
@[simp] theorem symbolNames_compute (c : Calculation) :
    symbolNames (.compute c :: code) = symbolNames code := rfl

/-- A number is no name. -/
@[simp] theorem symbolNames_literal (value : Word) :
    symbolNames (.load (.literal value) :: code) = symbolNames code := rfl

/-- A register is known without its name. -/
@[simp] theorem symbolNames_register (r : Register) :
    symbolNames (.load (.register r) :: code) = symbolNames code := rfl

/-- Only the load of a symbol loads a name. -/
@[simp] theorem symbolNames_symbol (name : String) :
    symbolNames (.load (.symbol name) :: code) = name :: symbolNames code := rfl

end

/-- A name is loaded exactly if a line loads it. -/
theorem mem_symbolNames {code : List Instruction} {name : String} :
    name ∈ symbolNames code ↔ .load (.symbol name) ∈ code := by
  rw [symbolNames, List.mem_filterMap]
  constructor
  · rintro ⟨line, hline, hname⟩
    unfold Instruction.symbolName? at hname
    split at hname
    · cases hname
      exact hline
    · cases hname
  · intro hline
    exact ⟨_, hline, rfl⟩

/-- The first label that a line before it has declared already. -/
def repeatedLabel? (code : List Instruction) : Option String :=
  ((labelNames code).zipIdx.find? fun (name, i) => ((labelNames code).take i).contains name).map
    Prod.fst

/-- The labels in the order of their lines, each with the number of
instructions before it. -/
def labelAddresses (code : List Instruction) : List (String × Word) :=
  code.zipIdx.filterMap fun (line, i) =>
    line.labelName?.map fun name => (name, (romLength (code.take i)).toUInt16)

/-- The name is neither a label of the program nor predefined. -/
def isFree (code : List Instruction) (name : String) : Bool :=
  !(labelNames code).contains name && (predefined.lookup name).isNone

/-- The names that need a cell, in the order of their first use. -/
def variableNames (code : List Instruction) : List String :=
  ((symbolNames code).filter (isFree code)).eraseDups

/-- Variables with their cells, one after the other. -/
def numbered (names : List String) : List (String × Word) :=
  names.mapIdx fun k name => (name, variableBase + k.toUInt16)

/-- What a name stands for: its label, else its predefined cell, else its
variable. -/
def addressIn? (code : List Instruction) (name : String) : Option Word :=
  (labelAddresses code).lookup name <|> predefined.lookup name
    <|> (numbered (variableNames code)).lookup name

/-- The address of a name, zero if it has none. -/
def addressIn (code : List Instruction) (name : String) : Word :=
  (addressIn? code name).getD 0

/-- What linking has to compute. A repeated label is reported before a
program that is too long. -/
def layout (code : List Instruction) : Except Error Executable :=
  match repeatedLabel? code with
  | some name => .error (.redefinedLabel name)
  | none =>
      if romCapacity < romLength code then .error (.romOverflow (romLength code))
      else .ok ⟨(operations (addressIn code) code).toArray, labelAddresses code,
        numbered (variableNames code)⟩

/-! ### Lists without repetitions -/

/-- Dropping repetitions keeps the order. -/
theorem eraseDups_sublist (names : List String) : names.eraseDups.Sublist names := by
  match names with
  | [] => simp
  | name :: rest =>
      rw [List.eraseDups_cons]
      have hrest := eraseDups_sublist (rest.filter fun other => !other == name)
      exact (hrest.trans List.filter_sublist).cons_cons name
termination_by names.length
decreasing_by
  have := List.length_filter_le (fun other => !other == name) rest
  simp only [List.length_cons]
  omega

/-- Dropping repetitions leaves none. -/
theorem nodup_eraseDups (names : List String) : names.eraseDups.Nodup := by
  match names with
  | [] => simp
  | name :: rest =>
      rw [List.eraseDups_cons, List.nodup_cons]
      refine ⟨?_, nodup_eraseDups _⟩
      intro hmem
      have := List.mem_eraseDups.mp hmem
      simp at this
termination_by names.length
decreasing_by
  have := List.length_filter_le (fun other => !other == name) rest
  simp only [List.length_cons]
  omega

/-- In a list without repetitions no element comes again. -/
theorem not_mem_take_of_nodup {names : List String} (h : names.Nodup) :
    ∀ name i, (name, i) ∈ names.zipIdx → name ∉ names.take i := by
  intro name i hmem htake
  obtain ⟨-, hi, hname⟩ := List.mem_zipIdx hmem
  obtain ⟨j, hj, hjname⟩ := List.getElem_of_mem htake
  simp only [List.getElem_take, Nat.sub_zero] at hname hjname
  have hji : j < i := by simp only [List.length_take] at hj; omega
  exact List.pairwise_iff_getElem.mp h j i _ _ hji (hjname.trans hname)

/-! ### The first pass -/

/-- The first repetition is where the names before it are distinct. -/
theorem repeatedLabel?_of_split {code : List Instruction} {before after : List String}
    {name : String} (hnames : labelNames code = before ++ name :: after) (hbefore : before.Nodup)
    (hmem : name ∈ before) : repeatedLabel? code = some name := by
  have hfirst : (labelNames code).zipIdx.find?
      (fun (name, i) => ((labelNames code).take i).contains name)
        = some (name, before.length) := by
    rw [List.find?_eq_some_iff_append]
    refine ⟨by simp [hnames, hmem], before.zipIdx, after.zipIdx (before.length + 1), ?_, ?_⟩
    · simp [hnames, List.zipIdx_append]
    · intro ⟨other, i⟩ hother
      have hi := (List.mem_zipIdx hother).2.1
      have htake : (labelNames code).take i = before.take i := by
        rw [hnames, List.take_append_of_le_length (by omega)]
      simpa [htake] using not_mem_take_of_nodup hbefore other i hother
  rw [repeatedLabel?, hfirst]
  rfl

/-- Distinct labels have no repetition. -/
theorem repeatedLabel?_of_nodup {code : List Instruction} (h : (labelNames code).Nodup) :
    repeatedLabel? code = none := by
  simpa [repeatedLabel?] using not_mem_take_of_nodup h

/-- Walking through the lines and counting places the labels as the lines
before them do. -/
theorem placedLabels_eq (size : Nat) (code : List Instruction) :
    placedLabels size code = code.zipIdx.filterMap fun (line, i) =>
      line.labelName?.map fun name => (name, (size + romLength (code.take i)).toUInt16) := by
  induction code generalizing size with
  | nil => rfl
  | cons line code ih =>
      rw [List.zipIdx_cons, List.zipIdx_succ, List.filterMap_cons, List.filterMap_map,
        Function.comp_def]
      cases line with
      | label name => simp [placedLabels, ih, Instruction.labelName?]
      | load operand =>
          -- The label behind is one word further on, on both sides.
          simp [placedLabels, ih, Instruction.labelName?, Nat.add_assoc, Nat.add_comm 1]
      | compute c =>
          simp [placedLabels, ih, Instruction.labelName?, Nat.add_assoc, Nat.add_comm 1]

/-- The labels with their addresses, found by walking. -/
theorem labelAddresses_eq (code : List Instruction) :
    labelAddresses code = placedLabels 0 code := by
  simp [labelAddresses, placedLabels_eq]

/-- The labels that are placed are those of the lines. -/
theorem map_fst_placedLabels (size : Nat) (code : List Instruction) :
    (placedLabels size code).map Prod.fst = labelNames code := by
  induction code generalizing size with
  | nil => rfl
  | cons line code ih => cases line <;> simp [placedLabels, ih]

namespace Executable

/-- A first pass that stops has come to the first name that is there
already, be it among the labels that it was given or before it in the
lines. -/
theorem collectLabels_eq_redefinedLabel {code : List Instruction} {size : Nat}
    {labels : SymbolTable} {name : String}
    (h : collectLabels code size labels = .error (.redefinedLabel name))
    (hlabels : (labels.toList.map Prod.fst).Nodup) :
    ∃ before after, labelNames code = before ++ name :: after ∧
      (labels.toList.map Prod.fst ++ before).Nodup ∧
      name ∈ labels.toList.map Prod.fst ++ before := by
  induction code generalizing size labels with
  | nil => cases h
  | cons line code ih =>
      cases line with
      | load operand =>
          have hrest : collectLabels code (size + 1) labels = .error (.redefinedLabel name) := h
          exact ih hrest hlabels
      | compute c =>
          have hrest : collectLabels code (size + 1) labels = .error (.redefinedLabel name) := h
          exact ih hrest hlabels
      | label other =>
          rw [collectLabels] at h
          split at h
          · rename_i address hold
            cases h
            refine ⟨[], labelNames code, rfl, by simpa using hlabels, ?_⟩
            have hfound : labels.toList.lookup name ≠ none := by
              rw [← SymbolTable.get?_eq_lookup, hold]
              simp
            simpa [lookup_eq_none_iff_not_mem] using hfound
          · rename_i hnew
            have hpush : (labels.push other size.toUInt16).toList.map Prod.fst
                = labels.toList.map Prod.fst ++ [other] := by
              simp [SymbolTable.toList_push hnew]
            rw [SymbolTable.get?_eq_lookup, lookup_eq_none_iff_not_mem] at hnew
            -- The pass goes on with one label more, which stays in front of what it finds.
            obtain ⟨before, after, hnames, hnodup, hmem⟩ := ih h (by
              rw [hpush, List.nodup_append]
              refine ⟨hlabels, by simp, ?_⟩
              intro a ha b hb heq
              rw [List.mem_singleton] at hb
              exact hnew (hb ▸ heq ▸ ha))
            rw [hpush, List.append_assoc, List.singleton_append] at hnodup hmem
            exact ⟨other :: before, after, by simp [hnames], hnodup, hmem⟩

/-! ### The second pass -/

/-- The names that lines add to the variables `seen`: those that are
`free` and new, each once. -/
def newNames (free : String → Bool) (seen : List String) (code : List Instruction) : List String :=
  ((symbolNames code).filter fun name => free name && !seen.contains name).eraseDups

/-- Names with a meaning of their own add nothing. -/
theorem newNames_of_old {free : String → Bool} {seen : List String} {name : String}
    (h : (free name && !seen.contains name) = false) (code : List Instruction) :
    newNames free seen (.load (.symbol name) :: code) = newNames free seen code := by
  simp only [newNames, symbolNames_symbol, List.filter_cons, h, Bool.false_eq_true, if_false]

/-- A new name comes first, and the lines behind it know it. -/
theorem newNames_of_new {free : String → Bool} {seen : List String} {name : String}
    (h : (free name && !seen.contains name) = true) (code : List Instruction) :
    newNames free seen (.load (.symbol name) :: code)
      = name :: newNames free (seen ++ [name]) code := by
  have hkeep : ∀ other, (!other == name && (free other && !seen.contains other))
      = (free other && !(seen ++ [name]).contains other) := by
    intro other
    by_cases hother : other = name <;> simp [hother, Bool.and_comm]
  simp only [newNames, symbolNames_symbol, List.filter_cons, h, if_true, List.eraseDups_cons,
    List.filter_filter, hkeep]

/-- One more variable gets the next cell. -/
@[simp] theorem numbered_concat (names : List String) (name : String) :
    numbered (names ++ [name])
      = numbered names ++ [(name, variableBase + names.length.toUInt16)] := by
  simp [numbered, List.mapIdx_concat]

/-- Numbering keeps the names and their order. -/
@[simp] theorem map_fst_numbered (names : List String) : (numbered names).map Prod.fst = names := by
  simp [numbered, List.mapIdx_eq_zipIdx_map, Function.comp_def]

/-- A name is new exactly if it has no meaning yet. -/
theorem isNone_lookupName (labels : SymbolTable) {vars : SymbolTable} {seen : List String}
    (hvars : vars.toList = numbered seen) (name : String) :
    ((labels.get? name).isNone && (predefined.lookup name).isNone && !seen.contains name)
      = (lookupName labels vars name).isNone := by
  have hseen : (!seen.contains name) = (vars.get? name).isNone := by
    rw [Bool.eq_iff_iff, Option.isNone_iff_eq_none, SymbolTable.get?_eq_lookup, hvars,
      lookup_eq_none_iff_not_mem, map_fst_numbered]
    simp
  rw [hseen, lookupName]
  cases labels.get? name <;> cases predefined.lookup name <;> simp

/-- A name that has a meaning gets no cell. -/
theorem vars_resolveSymbol_of_some {labels vars : SymbolTable} {name : String} {address : Word}
    (h : lookupName labels vars name = some address) :
    (resolveSymbol labels vars name).2 = vars := by
  unfold lookupName at h
  simp only [resolveSymbol, h]

/-- A name without a meaning gets the next cell. -/
theorem vars_resolveSymbol_of_none {labels vars : SymbolTable} {name : String}
    (h : lookupName labels vars name = none) :
    (resolveSymbol labels vars name).2.toList
      = vars.toList ++ [(name, variableBase + vars.size.toUInt16)] := by
  unfold lookupName at h
  have hvar : vars.get? name = none := by
    simp only [Option.orElse_eq_orElse, Option.orElse_eq_or, Option.or_eq_none_iff] at h
    exact h.2.2
  simp only [resolveSymbol, h, SymbolTable.toList_push hvar]

/-- **The second pass numbers the new names of its lines** behind the
variables that it was given. -/
theorem resolve_vars (labels : SymbolTable) (code : List Instruction) (vars : SymbolTable)
    (rom : Array Operation) (seen : List String) (hvars : vars.toList = numbered seen) :
    (resolve labels code vars rom).1.toList = numbered (seen ++ newNames
      (fun name => (labels.get? name).isNone && (predefined.lookup name).isNone) seen code) := by
  induction code generalizing vars rom seen with
  | nil => simp [resolve, newNames, hvars]
  | cons line code ih =>
      cases line with
      | label name => exact ih vars rom seen hvars
      | compute c => exact ih vars (rom.push (.compute c)) seen hvars
      | load operand =>
          cases operand with
          | literal value => exact ih vars (rom.push (.load value)) seen hvars
          | register r => exact ih vars (rom.push (.load r.address)) seen hvars
          | symbol name =>
              have hnew := isNone_lookupName labels hvars name
              show (resolve labels code (resolveSymbol labels vars name).2 _).1.toList = _
              cases hname : lookupName labels vars name with
              | some address =>
                  rw [vars_resolveSymbol_of_some hname,
                    newNames_of_old (hnew.trans (by rw [hname]; rfl))]
                  exact ih vars _ seen hvars
              | none =>
                  -- The name takes the cell behind those of the names seen so far.
                  have hsize : vars.size = seen.length := by
                    have := congrArg List.length hvars
                    simpa [numbered, SymbolTable.toList, SymbolTable.size] using this
                  have hvars' : (resolveSymbol labels vars name).2.toList
                      = numbered (seen ++ [name]) := by
                    rw [vars_resolveSymbol_of_none hname, hvars, hsize, numbered_concat]
                  rw [newNames_of_new (hnew.trans (by rw [hname]; rfl)),
                    ih _ _ (seen ++ [name]) hvars', List.append_assoc, List.singleton_append]

/-! ### Cells of variables -/

/-- The variables of a program: used, no labels and not predefined. -/
theorem mem_variableNames {code : List Instruction} {name : String} :
    name ∈ variableNames code
      ↔ name ∈ symbolNames code ∧ name ∉ labelNames code ∧ predefined.lookup name = none := by
  simp [variableNames, isFree]

/-- Every variable is listed once. -/
theorem nodup_variableNames (code : List Instruction) : (variableNames code).Nodup :=
  nodup_eraseDups _

/-- No program has more variables than instructions. -/
theorem length_variableNames_le (code : List Instruction) :
    (variableNames code).length ≤ romLength code := by
  have hsymbols : (symbolNames code).length ≤ romLength code := by
    induction code with
    | nil => simp
    | cons line code ih =>
        cases line with
        | label name => simpa using ih
        | compute c => simp; omega
        | load operand => cases operand <;> simp <;> omega
  calc (variableNames code).length
      ≤ ((symbolNames code).filter (isFree code)).length := (eraseDups_sublist _).length_le
    _ ≤ (symbolNames code).length := List.length_filter_le _ _
    _ ≤ romLength code := hsymbols

/-- The cells of the first variables are counted without running out of
words. -/
theorem toNat_variableBase_add {k : Nat} (hk : k ≤ romCapacity) :
    (variableBase + k.toUInt16).toNat = 16 + k := by
  have hword : k.toUInt16.toNat = k := UInt16.toNat_ofNat_of_lt (by
    simp only [romCapacity] at hk
    simp only [UInt16.size]
    omega)
  rw [UInt16.toNat_add, hword]
  simp only [romCapacity] at hk
  show (16 + k) % 2 ^ 16 = 16 + k
  omega

/-- What is found in numbered cells is a variable with its number. -/
theorem exists_number_of_lookup {names : List String} {name : String} {address : Word}
    (h : (numbered names).lookup name = some address) :
    ∃ k : Nat, names[k]? = some name ∧ address = variableBase + k.toUInt16 := by
  obtain ⟨before, after, hsplit, -⟩ := List.lookup_eq_some_iff.mp h
  have hmem : (name, address) ∈ numbered names := by simp [hsplit]
  obtain ⟨k, hk, hpair⟩ := List.mem_mapIdx.mp hmem
  cases hpair
  exact ⟨k, List.getElem?_eq_getElem hk, rfl⟩

/-- A variable is found in the cell of its number. -/
theorem lookup_numbered {names : List String} (hnames : names.Nodup) {k : Nat} {name : String}
    (h : names[k]? = some name) :
    (numbered names).lookup name = some (variableBase + k.toUInt16) := by
  cases hlookup : (numbered names).lookup name with
  | none =>
      rw [lookup_eq_none_iff_not_mem, map_fst_numbered] at hlookup
      exact absurd (List.mem_of_getElem? h) hlookup
  | some address =>
      obtain ⟨i, hi, rfl⟩ := exists_number_of_lookup hlookup
      -- The name has one place only, so what was found is its own cell.
      have hik : i = k :=
        (List.getElem?_inj (List.getElem?_eq_some_iff.mp hi).1 hnames).mp (hi.trans h.symm)
      rw [hik]

/-! ### Linking computes the layout -/

/-- A first pass that stops is the result. -/
theorem link_of_error {code : List Instruction} {err : Error}
    (h : collectLabels code 0 .empty = .error err) : link code = .error err := by
  rw [link, h]
  rfl

/-- Behind a first pass only the length of the program matters. -/
theorem link_of_ok {code : List Instruction} {size : Nat} {labels : SymbolTable}
    (h : collectLabels code 0 .empty = .ok (size, labels)) :
    link code = if romCapacity < size then .error (.romOverflow size)
      else .ok ⟨(resolve labels code .empty #[]).2, labels.toList,
        (resolve labels code .empty #[]).1.toList⟩ := by
  rw [link, h]
  by_cases hfull : romCapacity < size
  · simp only [bind, Except.bind, hfull, if_true]
    rfl
  · simp only [bind, Except.bind, hfull, if_false, pure, Except.pure]

/-- The tables of a program that links are those of its layout. -/
theorem link_tables {code : List Instruction} {e : Executable} (h : link code = .ok e) :
    e.labels = labelAddresses code ∧ e.vars = numbered (variableNames code) := by
  have hlabels : e.labels = labelAddresses code := by
    rw [labelAddresses_eq, (link_eq_ok h).2.2.1]
  refine ⟨hlabels, ?_⟩
  cases hcollect : collectLabels code 0 .empty with
  | error err => rw [link_of_error hcollect] at h; cases h
  | ok found =>
      obtain ⟨size, labels⟩ := found
      rw [link_of_ok hcollect] at h
      split at h
      · cases h
      · cases h
        -- With all labels of the program known, the names without a meaning are the free ones.
        have hfree : (fun name => (labels.get? name).isNone && (predefined.lookup name).isNone)
            = isFree code := by
          funext name
          have hlabel : (labels.get? name).isNone = !(labelNames code).contains name := by
            rw [Bool.eq_iff_iff, Option.isNone_iff_eq_none, SymbolTable.get?_eq_lookup,
              lookup_eq_none_iff_not_mem, (collectLabels_eq_ok hcollect).2]
            simp [map_fst_placedLabels]
          rw [hlabel, isFree]
        have hvars := resolve_vars labels code .empty #[] [] rfl
        rw [hfree, List.nil_append] at hvars
        simpa [newNames, variableNames] using hvars

/-- Look-up in the finished program is that of the layout: it asks for
variables before predefined names, but no name is both. -/
theorem address?_eq {code : List Instruction} {e : Executable} (h : link code = .ok e) :
    e.address? = addressIn? code := by
  obtain ⟨hlabels, hvars⟩ := link_tables h
  funext name
  rw [address?, addressIn?, hlabels, hvars]
  cases hvar : (numbered (variableNames code)).lookup name with
  | none => simp
  | some address =>
      obtain ⟨k, hk, -⟩ := exists_number_of_lookup hvar
      simp [(mem_variableNames.mp (List.mem_of_getElem? hk)).2.2]

/-- Program memory holds the operations of the lines, with the addresses
of the layout. -/
theorem toList_rom {code : List Instruction} {e : Executable} (h : link code = .ok e) :
    e.rom.toList = operations (addressIn code) code := by
  have hsymbol : e.symbol = addressIn code := by
    funext name
    rw [symbol, address?_eq h, addressIn]
  rw [(link_eq_ok h).2.2.2, hsymbol]

/-- A label has the number of instructions before it. -/
theorem toNat_addressIn_label {code : List Instruction} {e : Executable} (h : link code = .ok e)
    {i : Nat} {name : String} (hi : code[i]? = some (.label name)) :
    (addressIn code name).toNat = romLength (code.take i) := by
  have hline : code.take i ++ [.label name] <+: code := by
    have htake : code.take (i + 1) = code.take i ++ [.label name] := by
      rw [List.take_add_one, hi]
      rfl
    rw [← htake]
    exact List.take_prefix _ _
  have hplace := (Loaded.of_link h).label_toNat _ name hline
  rwa [symbol, address?_eq h] at hplace

/-- A variable is found in the cell of its number. -/
theorem addressIn?_variable {code : List Instruction} {k : Nat} {name : String}
    (hk : (variableNames code)[k]? = some name) :
    addressIn? code name = some (variableBase + k.toUInt16) := by
  obtain ⟨-, hlabel, hpre⟩ := mem_variableNames.mp (List.mem_of_getElem? hk)
  have hnone : (labelAddresses code).lookup name = none := by
    rw [labelAddresses_eq, lookup_eq_none_iff_not_mem, map_fst_placedLabels]
    exact hlabel
  simpa [addressIn?, hnone, hpre] using lookup_numbered (nodup_variableNames code) hk

/-- The variables of a program that links have the cells from 16 on. -/
theorem toNat_variableCell {code : List Instruction} {e : Executable} (h : link code = .ok e)
    {k : Nat} {name : String} (hk : (variableNames code)[k]? = some name) :
    (variableBase + k.toUInt16).toNat = 16 + k := by
  have hlt := (List.getElem?_eq_some_iff.mp hk).1
  have hle := length_variableNames_le code
  have hfits := (link_eq_ok h).2.1
  exact toNat_variableBase_add (by omega)

/-- Every name that is used has an address. -/
theorem isSome_addressIn? {code : List Instruction} {name : String}
    (h : name ∈ symbolNames code) : (addressIn? code name).isSome := by
  by_cases hvar : name ∈ variableNames code
  · obtain ⟨k, hk⟩ := List.getElem?_of_mem hvar
    rw [addressIn?_variable hk]
    rfl
  · -- A name that is no variable is a label or predefined.
    rw [mem_variableNames] at hvar
    rw [addressIn?]
    cases hlabel : (labelAddresses code).lookup name with
    | some address => rfl
    | none =>
        rw [labelAddresses_eq, lookup_eq_none_iff_not_mem, map_fst_placedLabels] at hlabel
        cases hpre : predefined.lookup name with
        | some address => rfl
        | none => exact absurd ⟨h, hlabel, hpre⟩ hvar

/-- The operations of lines stand in the order of their instructions. -/
theorem getElem?_operations (address : String → Word) (code : List Instruction) (k : Nat) :
    (operations address code)[k]?
      = (code.filter (!·.isLabel))[k]?.bind (Instruction.operation? address) := by
  induction code generalizing k with
  | nil => rfl
  | cons line code ih =>
      cases line with
      | label name => simpa [Instruction.isLabel] using ih k
      | load operand => cases k <;> simp [Instruction.isLabel, Instruction.operation?, ih]
      | compute c => cases k <;> simp [Instruction.isLabel, Instruction.operation?, ih]

/-- **Linking computes the layout of a program**, whatever its lines are.
For a program that links, the layout says this: program memory holds the
instructions in order, with an address for every name; a label has the
number of instructions before it, and is no variable even if it is used
before its line; the variables have the cells from 16 on, in the order of
their first use and each one cell. -/
theorem link_eq_layout (code : List Instruction) :
    link code = layout code ∧
    ∀ e, link code = .ok e →
      e.rom.size = romLength code ∧
      (∀ k : Nat, e.rom[k]? = (code.filter (!·.isLabel))[k]?.bind
        (Instruction.operation? (addressIn code))) ∧
      (∀ name ∈ symbolNames code, (addressIn? code name).isSome) ∧
      (∀ (i : Nat) name, code[i]? = some (.label name) →
        (addressIn code name).toNat = romLength (code.take i) ∧ name ∉ variableNames code) ∧
      (variableNames code).Nodup ∧
      (∀ (k : Nat) name, (variableNames code)[k]? = some name →
        (addressIn code name).toNat = 16 + k) := by
  constructor
  · cases hcollect : collectLabels code 0 .empty with
    | error err =>
        obtain ⟨name, rfl⟩ := collectLabels_eq_error hcollect
        obtain ⟨before, after, hnames, hnodup, hmem⟩ :=
          collectLabels_eq_redefinedLabel hcollect (by simp)
        rw [link_of_error hcollect, layout,
          repeatedLabel?_of_split hnames (by simpa using hnodup) (by simpa using hmem)]
    | ok found =>
        obtain ⟨size, labels⟩ := found
        have hnodup := (collectLabels_isOk_iff code 0 .empty (by simp)).mp ⟨_, hcollect⟩
        have hsize : size = romLength code := by simpa using (collectLabels_eq_ok hcollect).1
        rw [layout, repeatedLabel?_of_nodup (by simpa using hnodup)]
        subst hsize
        by_cases hfull : romCapacity < romLength code
        · rw [link_of_ok hcollect]
          simp only [hfull, if_true]
        · -- The program links, and all its parts are those of the layout.
          obtain ⟨e, hlink⟩ := exists_link (by simpa using hnodup) (Nat.le_of_not_lt hfull)
          obtain ⟨hlabels, hvars⟩ := link_tables hlink
          simp only [hlink, hfull, if_false]
          obtain ⟨rom, elabels, evars⟩ := e
          simp only at hlabels hvars
          rw [hlabels, hvars, ← toList_rom hlink]
  · intro e h
    refine ⟨(Loaded.of_link h).size_eq, ?_, fun name => isSome_addressIn?, ?_,
      nodup_variableNames code, ?_⟩
    · intro k
      rw [← Array.getElem?_toList, toList_rom h, getElem?_operations]
    · intro i name hi
      refine ⟨toNat_addressIn_label h hi, ?_⟩
      intro hvar
      exact (mem_variableNames.mp hvar).2.1 (List.mem_of_getElem? (getElem?_labelNames hi))
    · intro k name hk
      rw [addressIn, addressIn?_variable hk, Option.getD_some, toNat_variableCell h hk]

-- A label that is used before its line is no variable, and a variable is listed once.
example : variableNames [.load (.symbol "END"), .load (.symbol "j"), .label "END",
    .load (.symbol "i"), .load (.symbol "SP"), .load (.symbol "j")] = ["j", "i"] := by
  decide

end Executable

end HackComputer.Assembly
