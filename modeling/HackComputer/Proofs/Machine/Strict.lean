import HackComputer.Proofs.Assembly.Layout
import HackComputer.Proofs.Machine.HaltReport

/-!
# `HackComputer.Proofs.Machine.Strict`: no address is out of range

The machine counts in words, which start again at zero behind the highest
one, and its memory is a vector, so that no access can fail. Neither says
that nothing ever wraps around or would fail. `Strict` is the same machine
with these two comforts taken away. Its memory is an array of any length,
every access asks whether the cell is there, the program counter refuses to
go past the highest word, and the stack refuses to be cut where it is not.

A strict machine can be refused at every turn, and it never is
(`after?_strict`). The reason is in the size of program memory. An operation
is only performed at an address inside the program, which has at most
`romCapacity` words, so there is always an address behind it. Linking and
reading an image both check that size, so this is what `Loadable` gives.

Linking counts as well: labels by the instructions before them, variables
from `variableBase` on. Both counts stay below the number of words, since
there are no more variables than instructions.

* `step?_strict`: one step.
* `after?_strict`: whatever the machine is asked to do.
* `addresses_in_range`: linked addresses and running machines together.
-/

set_option autoImplicit false

namespace HackComputer.Assembly.Executable

open Isa

section
variable {code : List Instruction} {e : Executable} (h : link code = .ok e)
include h

/-- The table of labels holds the number of instructions before each label,
and nothing of it is cut off. -/
theorem exists_lookup_labels {i : Nat} {name : String} (hi : code[i]? = some (.label name)) :
    ∃ address, e.labels.lookup name = some address ∧
      address.toNat = romLength (code.take i) := by
  have hlabels := (link_tables h).1
  cases hlookup : e.labels.lookup name with
  | none =>
      rw [hlabels, labelAddresses_eq, lookup_eq_none_iff_not_mem, map_fst_placedLabels] at hlookup
      exact absurd (List.mem_of_getElem? (getElem?_labelNames hi)) hlookup
  | some address =>
      have haddress : addressIn code name = address := by
        rw [hlabels] at hlookup
        simp [addressIn, addressIn?, hlookup]
      exact ⟨address, rfl, haddress ▸ toNat_addressIn_label h hi⟩

/-- The table of variables counts them, and nothing of the count is cut
off. -/
theorem toNat_of_getElem?_vars {k : Nat} {name : String} {address : Word}
    (hk : e.vars[k]? = some (name, address)) : address.toNat = variableBase.toNat + k := by
  rw [(link_tables h).2, numbered, List.getElem?_mapIdx, Option.map_eq_some_iff] at hk
  obtain ⟨name', hname, hpair⟩ := hk
  cases hpair
  exact toNat_variableCell h hname

/-- The count of variables ends below the number of words. -/
theorem variables_lt : variableBase.toNat + e.vars.length < UInt16.size := by
  have hlength : e.vars.length = (variableNames code).length := by
    rw [(link_tables h).2, numbered, List.length_mapIdx]
  have hle := length_variableNames_le code
  have hfits := (link_eq_ok h).2.1
  calc variableBase.toNat + e.vars.length
      ≤ variableBase.toNat + romCapacity := by omega
    _ < UInt16.size := by decide

end

end HackComputer.Assembly.Executable

namespace HackComputer.Machine

open Isa Assembly

/-- A machine that takes nothing for granted: its memory is an array of any
length. -/
structure Strict where
  rom : Array Operation
  ram : Array Word
  a : Word
  d : Word
  pc : Word
  halted : Bool

namespace Strict

/-- The machine before its first step. -/
def start (rom : Array Operation) : Strict where
  rom := rom
  ram := Array.replicate ramSize 0
  a := 0
  d := 0
  pc := 0
  halted := false

/-- The next word. There is none behind the highest. -/
def next? (w : Word) : Option Word :=
  if w.toNat + 1 < UInt16.size then some (w + 1) else none

/-- The content of a cell, if the cell is there. -/
def read? (s : Strict) (address : Word) : Option Word :=
  s.ram[address.toNat % ramSize]?

/-- The machine with one cell changed, if the cell is there. -/
def write? (s : Strict) (address value : Word) : Option Strict :=
  if h : address.toNat % ramSize < s.ram.size then
    some { s with ram := s.ram.set (address.toNat % ramSize) value h }
  else none

/-- The machine with the cells from `first` on, `count` of them, set to one
value, if they are all there. -/
def fillFrom? (first : Word) (value : Word) : Nat → Strict → Option Strict
  | 0, s => some s
  | count + 1, s => do
      let s ← s.write? first value
      let first ← next? first
      fillFrom? first value count s

/-- The cells from `first` up to but without `bound`, if memory reaches that
far and the bound does not come first. -/
def slice? (s : Strict) (first bound : Nat) : Option (List Word) :=
  if first ≤ bound ∧ bound ≤ s.ram.size then some (s.ram.extract first bound).toList else none

/-- The stack from its base to its top. -/
def stack? (s : Strict) : Option (List Word) := do
  let sp ← s.read? Register.sp.address
  s.slice? stackBase.toNat (max stackBase.toNat (min sp.toNat ramSize))

/-- Stores a result where the destination says. The cell is the one that
`A` addresses before. -/
def store? (s : Strict) (dest : Destination) (out : Word) : Option Strict :=
  let t := { s with d := if dest.d then out else s.d, a := if dest.a then out else s.a }
  if dest.m then t.write? s.a out else some t

/-- Performs a computing instruction. -/
def calculate? (s : Strict) (c : Calculation) : Option Strict := do
  let m ← s.read? s.a
  let out := c.comp.eval s.d s.a m
  let t ← s.store? c.dest out
  if c.jump.holds out then
    return { t with pc := s.a, halted := State.isIdle s.rom c s.pc s.a }
  else
    let pc ← next? s.pc
    return { t with pc := pc }

/-- Performs an operation. -/
def perform? (s : Strict) : Operation → Option Strict
  | .load value => do
      let pc ← next? s.pc
      return { s with a := value, pc := pc }
  | .compute c => s.calculate? c

/-- One step. -/
def step? (s : Strict) : Option (Option (Word × Operation) × Strict) :=
  match if s.halted then none else s.rom[s.pc.toNat]? with
  | none => some (none, { s with halted := true })
  | some op => (s.perform? op).map fun t => (some (s.pc, op), t)

/-- Runs for at most `limit` more steps. -/
def run? : Nat → Strict → Option Strict
  | 0, s => some s
  | limit + 1, s => do
      match ← s.step? with
      | (none, t) => some t
      | (some _, t) => if t.halted then some t else run? limit t

/-- The machine after a call. -/
def call? (s : Strict) : Call → Option Strict
  | .exec => s.step?.map Prod.snd
  | .run limit => s.run? limit
  | .set address value => s.write? address value
  | .fill first bound value => fillFrom? first value (bound.toNat - first.toNat) s

/-- The machine after some calls, if none of them is refused. -/
def after? (s : Strict) (calls : List Call) : Option Strict :=
  calls.foldlM call? s

end Strict

namespace State

/-- The machine without its guarantees. -/
def strict (s : State) : Strict where
  rom := s.rom
  ram := s.ram.toArray
  a := s.a
  d := s.d
  pc := s.pc
  halted := s.halted

/-- The machine with a result stored where the destination says. -/
def stored (s : State) (dest : Destination) (out : Word) : State :=
  { s with
    ram := if dest.m then s.ram.store s.a out else s.ram
    d := if dest.d then out else s.d
    a := if dest.a then out else s.a }

/-- A computing instruction stores its result, and then jumps or moves on. -/
theorem calculate_eq (s : State) (c : Calculation) :
    s.calculate c =
      let out := c.comp.eval s.d s.a (s.read s.a)
      if c.jump.holds out then
        { s.stored c.dest out with pc := s.a, halted := isIdle s.rom c s.pc s.a }
      else { s.stored c.dest out with pc := s.pc + 1 } := by
  rcases c with ⟨⟨ca, cd, cm⟩, comp, jump⟩
  cases ca <;> cases cd <;> cases cm <;> rfl

end State

namespace Strict

/-! ### Memory -/

/-- At the start memory has all its cells. -/
theorem strict_start (rom : Array Operation) : (State.start rom).strict = start rom := by
  rfl

variable (s : State)

/-- The highest bit of an address counts for nothing, so the cell is
there. -/
theorem read?_strict (address : Word) : s.strict.read? address = some (s.read address) := by
  have hcell : address.toNat % ramSize < s.ram.toArray.size := by
    rw [s.ram.size_toArray]
    exact Nat.mod_lt _ (by decide)
  exact Array.getElem?_eq_getElem hcell

/-- A cell can be written for the same reason. -/
theorem write?_strict (address value : Word) :
    s.strict.write? address value = some (s.write address value).strict := by
  have hcell : address.toNat % ramSize < s.ram.toArray.size := by
    rw [s.ram.size_toArray]
    exact Nat.mod_lt _ (by decide)
  exact dif_pos hcell

/-- There is a word behind every one but the highest. -/
theorem next?_of_lt {w : Word} (h : w.toNat + 1 < UInt16.size) : next? w = some (w + 1) :=
  if_pos h

/-- Cells are filled without running out of words. -/
theorem fillFrom?_strict (value : Word) (count : Nat) (first : Word)
    (h : first.toNat + count < UInt16.size) :
    fillFrom? first value count s.strict = some (State.fillFrom first value count s).strict := by
  induction count generalizing first s with
  | zero => rfl
  | succ count ih =>
      have hnext : first.toNat + 1 < UInt16.size := by omega
      have hsucc : (first + 1).toNat = first.toNat + 1 := by
        rw [UInt16.toNat_add]
        exact Nat.mod_eq_of_lt hnext
      rw [fillFrom?, write?_strict, next?_of_lt hnext]
      exact ih (s.write first value) (first + 1) (by omega)

/-- The stack begins before it ends, and ends with memory at the latest. -/
theorem stack?_strict : s.strict.stack? = some s.stack := by
  have hbase : stackBase.toNat ≤ s.stackTop := Nat.le_max_left _ _
  have htop : s.stackTop ≤ s.ram.toArray.size := by
    rw [s.ram.size_toArray]
    exact Nat.max_le.mpr ⟨by decide, Nat.min_le_right _ _⟩
  rw [stack?, read?_strict]
  exact if_pos ⟨hbase, htop⟩

/-! ### Steps -/

/-- A result can be stored. -/
theorem store?_strict (dest : Destination) (out : Word) :
    s.strict.store? dest out = some (s.stored dest out).strict := by
  cases hm : dest.m with
  | false => simp only [store?, State.stored, hm]; rfl
  | true =>
      simp only [store?, State.stored, hm]
      exact write?_strict
        { s with d := if dest.d then out else s.d, a := if dest.a then out else s.a } s.a out

/-- A computing instruction reads one cell, may write it, and moves on or
jumps. -/
theorem calculate?_strict (c : Calculation) (h : s.pc.toNat + 1 < UInt16.size) :
    s.strict.calculate? c = some (s.calculate c).strict := by
  have hpc : next? s.strict.pc = some (s.pc + 1) := next?_of_lt h
  rw [calculate?, read?_strict, State.calculate_eq]
  simp only [Option.bind_eq_bind, Option.bind_some, store?_strict, hpc]
  cases hjump : c.jump.holds (c.comp.eval s.d s.a (s.read s.a)) with
  | true => exact if_pos hjump
  | false => exact if_neg (Bool.eq_false_iff.mp hjump)

/-- An operation is performed inside the program, so there is an address
behind it. -/
theorem perform?_strict (op : Operation) (h : s.pc.toNat + 1 < UInt16.size) :
    s.strict.perform? op = some (s.perform op).strict := by
  cases op with
  | load value =>
      have hpc : next? s.strict.pc = some (s.pc + 1) := next?_of_lt h
      rw [perform?, hpc]
      rfl
  | compute c => exact calculate?_strict s c h

/-- **One step is never refused.** An operation is performed inside the
program, which is shorter than the words reach. -/
theorem step?_strict (hrom : s.rom.size ≤ romCapacity) :
    s.strict.step? = some (s.step.1, s.step.2.strict) := by
  have hfetch : (if s.strict.halted then none else s.strict.rom[s.strict.pc.toNat]?) = s.fetch? :=
    rfl
  rw [step?, hfetch, State.step]
  cases hop : s.fetch? with
  | none => rfl
  | some op =>
      have hlive : s.halted = false := by
        cases hhalted : s.halted with
        | true => simp [State.fetch?, hhalted] at hop
        | false => rfl
      rw [State.fetch?_of_live hlive] at hop
      have hlt : s.pc.toNat < s.rom.size := (Array.getElem?_eq_some_iff.mp hop).1
      have hnext : s.pc.toNat + 1 < UInt16.size :=
        Nat.lt_of_le_of_lt (Nat.le_trans hlt hrom) (by decide)
      simp only [perform?_strict s op hnext]
      rfl

/-- What is never refused in one step is not refused in a run. -/
theorem run?_strict (limit : Nat) (hrom : s.rom.size ≤ romCapacity) :
    run? limit s.strict = some (s.run limit).2.strict := by
  induction limit generalizing s with
  | zero => rfl
  | succ limit ih =>
      have hsame := State.step_rom s
      rw [run?, step?_strict s hrom]
      rcases hstep : s.step with ⟨_ | p, t⟩
      · rw [State.run_succ_of_none hstep]
        rfl
      · rw [hstep] at hsame
        cases ht : t.halted with
        | true =>
            rw [State.run_succ_of_halt hstep ht]
            exact if_pos ht
        | false =>
            rw [State.run_succ_of_live hstep ht]
            exact (if_neg (by simp [State.strict, ht])).trans (ih t (hsame ▸ hrom))

/-! ### Machines in use -/

/-- No call is refused. -/
theorem call?_strict (c : Call) (hrom : s.rom.size ≤ romCapacity) :
    s.strict.call? c = some (s.call c).strict := by
  cases c with
  | exec => rw [call?, step?_strict s hrom]; rfl
  | run limit => exact run?_strict s limit hrom
  | set address value => exact write?_strict s address value
  | fill first bound value =>
      refine fillFrom?_strict s value _ first ?_
      -- The last cell that is filled is below the bound, which is a word.
      have hfirst := first.toNat_lt
      have hbound := bound.toNat_lt
      simp only [UInt16.size]
      omega

/-- Filling data memory leaves program memory alone. -/
theorem rom_fillFrom (first value : Word) (count : Nat) (s : State) :
    (State.fillFrom first value count s).rom = s.rom := by
  induction count generalizing first s with
  | zero => rfl
  | succ count ih => exact ih (first + 1) (s.write first value)

/-- So does every call. -/
theorem rom_call (c : Call) : (s.call c).rom = s.rom := by
  cases c with
  | exec => exact State.step_rom s
  | run limit => exact State.run_rom limit s
  | set address value => rfl
  | fill first bound value => exact rom_fillFrom first value _ s

/-- **No sequence of calls is refused**, and the strict machine is where the
other one is. -/
theorem after?_strict (calls : List Call) (hrom : s.rom.size ≤ romCapacity) :
    s.strict.after? calls = some (s.after calls).strict := by
  induction calls generalizing s with
  | nil => rfl
  | cons c calls ih =>
      rw [after?, List.foldlM_cons, call?_strict s c hrom]
      exact ih (s.call c) (by rw [rom_call]; exact hrom)

-- What is never refused could be: there is no word behind the highest, and no cell behind the last.
example : next? 0xFFFF = none := by decide
example : ({ start #[] with ram := #[7, 8] } : Strict).read? 2 = none := by decide

end Strict

/-- **No address is out of range.** Linking stores every label and every
variable under the number that was counted, and the count of variables ends
below the number of words. Whatever a machine with a linked program or an
image is asked to do after its start, the strict machine is not refused on
the way: every cell that is read or written is there, and the program counter
has a next word whenever it moves on. It ends where the machine does, memory
has as many cells as before, every cell can be read, and the stack can be
cut out. -/
theorem addresses_in_range :
    (∀ (code : List Instruction) (e : Executable), Executable.link code = .ok e →
      (∀ (i : Nat) name, code[i]? = some (.label name) →
        ∃ address, e.labels.lookup name = some address ∧
          address.toNat = romLength (code.take i)) ∧
      (∀ (k : Nat) name address, e.vars[k]? = some (name, address) →
        address.toNat = variableBase.toNat + k) ∧
      variableBase.toNat + e.vars.length < UInt16.size) ∧
    ∀ rom : Array Operation, Loadable rom → ∀ calls : List Call,
      ∃ t : Strict, (Strict.start rom).after? calls = some t ∧
        t = ((State.start rom).after calls).strict ∧ t.ram.size = ramSize ∧
        (∀ address, t.read? address = some (((State.start rom).after calls).read address)) ∧
        t.stack? = some ((State.start rom).after calls).stack := by
  constructor
  · intro code e hlink
    exact ⟨fun _ _ => Executable.exists_lookup_labels hlink,
      fun _ _ _ => Executable.toNat_of_getElem?_vars hlink, Executable.variables_lt hlink⟩
  · intro rom hrom calls
    refine ⟨((State.start rom).after calls).strict, ?_, rfl, Vector.size_toArray _,
      Strict.read?_strict _, Strict.stack?_strict _⟩
    rw [← Strict.strict_start]
    exact Strict.after?_strict (State.start rom) calls hrom.size_le

end HackComputer.Machine
