import HackComputer.Proofs.Vm.Fragments

/-!
# `HackComputer.Proofs.Vm.Placement`: where the entries of a program stand

The stack machine names places by entries, the processor by addresses.
`Placed` says that the two name the same places: the code of every entry
stands where the stack machine takes it to be, and one entry follows the
other. A program that assembles and links is placed (`Program.placed`),
and nothing else about assembling and linking is needed above this file.

* `Placed.address_le`: later entries have later addresses. Entries
  without code share the address of the entry behind them.
* `Placed.label_toNat`, `Placed.function_toNat`: the names in jumps and
  calls stand for the addresses of the entries that declare them.
* `Placed.value_eq`, `Placed.cell_eq`: the operands of pushes and pops.
-/

set_option autoImplicit false

namespace HackComputer.Vm

open Isa Machine Assembly Code

/-- The code of every entry stands at the entry's address. -/
structure Placed (m : StackMachine) (code : Lines) (rom : Array Operation)
    (address : String → Word) : Prop where
  loaded : Loaded code rom address
  /-- The code of an entry reaches up to the next entry. -/
  block : ∀ i o, m.origins[i]? = some o → ∃ before supply lines supply',
    o.Compiles supply lines supply' ∧ before ++ lines <+: code ∧
    m.address i = romLength before ∧ m.address (i + 1) = romLength (before ++ lines)
  /-- Behind the last entry the program ends. -/
  finish : m.address m.origins.length = romLength code
  /-- Static variables have the cells that linking chose. -/
  static : ∀ unit index, m.static unit index = address (Segment.staticName unit index)

/-- **A program that assembles and links is placed.** -/
theorem Program.placed {entryPoint? : Option String} {units : List SourceUnit} {p : Program}
    {e : Executable} (hassemble : assemble entryPoint? units = .ok p)
    (hlink : Executable.link p.code = .ok e) :
    Placed (p.stackMachine entryPoint? units e) p.code e.rom e.symbol := by
  obtain ⟨supply, hemits⟩ := assemble_emits hassemble
  refine ⟨Loaded.of_link hlink, ?_, ?_, fun _ _ => rfl⟩
  · intro i o ho
    obtain ⟨before, lines, after, hcompiles, hblock⟩ := hemits.getElem? ho
    have htake : (p.blocks.take (i + 1)).flatMap Block.code
        = (p.blocks.take i).flatMap Block.code ++ lines := by
      rw [List.take_add_one, hblock, List.flatMap_append]
      simp
    refine ⟨(p.blocks.take i).flatMap Block.code, before, lines, after, hcompiles, ?_, rfl, ?_⟩
    · rw [← htake, Program.code]
      exact ⟨(p.blocks.drop (i + 1)).flatMap Block.code, by
        rw [← List.flatMap_append, List.take_append_drop]⟩
    · exact congrArg romLength htake
  · show romLength ((p.blocks.take _).flatMap Block.code) = _
    have hall : p.blocks.length ≤ (origins entryPoint? units).length :=
      Nat.le_of_eq hemits.length_eq
    exact congrArg (fun bs : List Block => romLength (bs.flatMap Block.code))
      (List.take_of_length_le hall)

/-- The program in machine language, and an empty one if it does not
link. -/
def Program.linked (p : Program) : Executable :=
  (Executable.link p.code).toOption.getD ⟨#[], [], []⟩

/-- A test for programs that assemble and link. -/
def Program.isLinkable (entryPoint? : Option String) (units : List SourceUnit) : Bool :=
  match assemble entryPoint? units with
  | .ok p => (labelNames p.code).Nodup && romLength p.code ≤ romCapacity
  | .error _ => false

/-- Programs that pass the test do. -/
theorem Program.link_compiled {entryPoint? : Option String} {units : List SourceUnit}
    (h : isLinkable entryPoint? units = true) :
    assemble entryPoint? units = .ok (compiled entryPoint? units) ∧
    Executable.link (compiled entryPoint? units).code
      = .ok (compiled entryPoint? units).linked := by
  rw [isLinkable] at h
  split at h
  · rename_i p hassemble
    rw [Bool.and_eq_true, decide_eq_true_eq, decide_eq_true_eq] at h
    obtain ⟨e, hlink⟩ := Executable.exists_link h.1 h.2
    have hp : compiled entryPoint? units = p := by rw [compiled, hassemble]; rfl
    have he : p.linked = e := by rw [linked, hlink]; rfl
    rw [hp, he]
    exact ⟨hassemble, hlink⟩
  · cases h

namespace Placed

variable {m : StackMachine} {code : Lines} {rom : Array Operation} {address : String → Word}

/-- The next entry does not come before this one. -/
theorem address_le_succ (hp : Placed m code rom address) {i : Nat} (hi : i < m.origins.length) :
    m.address i ≤ m.address (i + 1) := by
  obtain ⟨before, _, lines, _, -, -, hstart, hstop⟩ :=
    hp.block i _ (List.getElem?_eq_getElem hi)
  rw [hstart, hstop, romLength_append]
  exact Nat.le_add_right _ _

/-- Later entries have later addresses. -/
theorem address_le (hp : Placed m code rom address) {i j : Nat} (hij : i ≤ j)
    (hj : j ≤ m.origins.length) : m.address i ≤ m.address j := by
  induction hij with
  | refl => exact Nat.le_refl _
  | step _ ih => exact Nat.le_trans (ih (by omega)) (hp.address_le_succ hj)

/-- The end of the program is the end of its memory. -/
theorem address_length (hp : Placed m code rom address) :
    m.address m.origins.length = rom.size := by
  rw [hp.finish, hp.loaded.size_eq]

/-- Addresses of entries are words. -/
theorem toNat_address (hp : Placed m code rom address) {i : Nat} (hi : i ≤ m.origins.length) :
    (m.address i).toUInt16.toNat = m.address i := by
  have hle := hp.address_le hi (Nat.le_refl _)
  rw [hp.address_length] at hle
  exact UInt16.toNat_ofNat_of_lt (Nat.lt_of_le_of_lt hle
    (Nat.lt_of_le_of_lt hp.loaded.size_le (by decide)))

/-! ### Names -/

/-- Contexts that see the same labels give them the same full names. -/
theorem scope_eq_of_sameScope {c c' : Context} (h : c.sameScope c' = true) (name : String) :
    c.scope name = c'.scope name := by
  simp only [Context.sameScope, Bool.and_eq_true, beq_iff_eq, Bool.or_eq_true] at h
  obtain ⟨hfunction, hunit⟩ := h
  unfold Context.scope
  cases hf : c.function with
  | some function => rw [← hfunction, hf]
  | none =>
      rw [hf] at hunit
      rw [← hfunction, hf, hunit.resolve_left (by decide)]

/-- The full name of a label is the address of the entry that declares
it. -/
theorem label_toNat (hp : Placed m code rom address) {context : Context} {name full : String}
    {i : Nat} (hentry : Origin.labelPlace? m.origins context name = some i)
    (hscope : context.scope name = .ok full) :
    i < m.origins.length ∧ (address full).toNat = m.address i := by
  obtain ⟨hi, hdeclares, -⟩ := List.findIdx?_eq_some_iff_getElem.mp hentry
  refine ⟨hi, ?_⟩
  obtain ⟨before, _, lines, _, hcompiles, hcode, hstart, -⟩ :=
    hp.block i _ (List.getElem?_eq_getElem hi)
  revert hdeclares
  generalize m.origins[i] = o at hcompiles
  intro hdeclares
  cases hcompiles with
  | label context' row text name' full' hscope' =>
      simp only [Origin.declaresLabel, Bool.and_eq_true, beq_iff_eq] at hdeclares
      obtain ⟨hsame, rfl⟩ := hdeclares
      rw [scope_eq_of_sameScope hsame, hscope'] at hscope
      cases hscope
      rw [hstart]
      exact hp.loaded.label_toNat before full hcode
  | _ => simp [Origin.declaresLabel] at hdeclares

/-- The entry label of a function is the address of the entry that
declares it. -/
theorem function_toNat (hp : Placed m code rom address) {name : String} {i : Nat}
    (hentry : Origin.functionPlace? m.origins name = some i) :
    i < m.origins.length ∧ (address (Frame.entry name)).toNat = m.address i := by
  obtain ⟨hi, hdeclares, -⟩ := List.findIdx?_eq_some_iff_getElem.mp hentry
  refine ⟨hi, ?_⟩
  obtain ⟨before, _, lines, _, hcompiles, hcode, hstart, -⟩ :=
    hp.block i _ (List.getElem?_eq_getElem hi)
  revert hdeclares
  generalize m.origins[i] = o at hcompiles
  intro hdeclares
  rw [hstart]
  cases hcompiles with
  | enter context row text name' =>
      simp only [Origin.declaresFunction, beq_iff_eq] at hdeclares
      subst hdeclares
      exact hp.loaded.label_toNat before _ hcode
  | function context row text name' locals hsome hsmall =>
      simp only [Origin.declaresFunction, beq_iff_eq] at hdeclares
      subst hdeclares
      rw [← List.singleton_append] at hcode
      exact hp.loaded.label_toNat before _ (isPrefix_left hcode)
  | _ => simp [Origin.declaresFunction] at hdeclares

/-! ### Operands -/

/-- The cell that a resolved location names. -/
theorem cell_eq (hp : Placed m code rom address) {unit : String} {segment : Segment}
    {index : Word} {location : Location} (h : segment.resolve unit index = .ok location)
    (ram : Ram) : m.cell? unit ram segment index = locationCell? address ram location := by
  cases segment with
  | constant | pointer | temp =>
      simp only [Segment.resolve] at h
      split at h
      · cases h
        rfl
      · cases h
  | locals | argument | this | that =>
      cases h
      rfl
  | static =>
      cases h
      exact congrArg some (hp.static unit index)

/-- The value that a resolved location has. -/
theorem value_eq (hp : Placed m code rom address) {unit : String} {segment : Segment}
    {index : Word} {location : Location} (h : segment.resolve unit index = .ok location)
    (ram : Ram) : m.value unit ram segment index = locationValue address ram location := by
  rw [StackMachine.value, hp.cell_eq h]
  cases segment with
  | constant | pointer | temp =>
      simp only [Segment.resolve] at h
      split at h
      · cases h
        rfl
      · cases h
  | locals | argument | this | that | static =>
      cases h
      rfl

end Placed

end HackComputer.Vm
