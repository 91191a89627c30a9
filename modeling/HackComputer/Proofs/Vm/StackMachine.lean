import HackComputer.Proofs.Assembly.Linking
import HackComputer.Proofs.Machine.Memory
import HackComputer.Proofs.Vm.Origin

/-!
# `HackComputer.Proofs.Vm.StackMachine`: the machine that commands describe

The reference for compiled programs. It knows nothing of instructions:
its states are an entry of the program and the data memory, and every
command is one step. The steps are written on data memory alone, in the
order in which a command's parts happen, so they are defined for every
content of memory, also where the stack has run into the registers.

Two commands reuse a cell while they work, and there the order shows:

* A comparison marks the cell of its result before it knows the result.
  If that cell is the stack pointer itself, a comparison that fails
  clears the cell under the mark instead (`Ram.compare`).
* The start of a function counts its zeros in `R13`. A zero that lands on
  `R13` is the last one (`Ram.zeroLocals`).

Static variables and return addresses are numbers that only the compiled
program knows, so `StackMachine` carries them: where the code of each
entry starts and which cell each static variable has.
-/

set_option autoImplicit false

namespace HackComputer

open Isa

/-! ### What commands do to memory -/

namespace Machine.Ram

/-- Put a word on the stack. -/
def push (ram : Ram) (value : Word) : Ram :=
  let ram := ram.store (ram.reg .sp) value
  ram.setReg .sp (ram.reg .sp + 1)

/-- Take the stack pointer down by one. -/
def drop (ram : Ram) : Ram :=
  ram.setReg .sp (ram.reg .sp - 1)

/-- The word at the stack pointer. After `drop` it is the word that was
on top. -/
def top (ram : Ram) : Word :=
  ram.load (ram.reg .sp)

/-- Pop into a cell. Its address waits in `R13`. -/
def popTo (ram : Ram) (address : Word) : Ram :=
  let ram := (ram.setReg .r13 address).drop
  ram.store address ram.top

/-- Change the word on top. -/
def unary (f : Word → Word) (ram : Ram) : Ram :=
  let slot := ram.reg .sp - 1
  ram.store slot (f (ram.load slot))

/-- Replace the two words on top by one. -/
def binary (f : Word → Word → Word) (ram : Ram) : Ram :=
  let ram := ram.drop
  let slot := ram.reg .sp - 1
  ram.store slot (f (ram.load slot) ram.top)

/-- Replace the two words on top by all ones if their difference passes a
test, and by zero if not. -/
def compare (test : Word → Bool) (ram : Ram) : Ram :=
  let ram := ram.drop
  let slot := ram.reg .sp - 1
  if test (ram.load slot - ram.top) then ram.store slot 0xFFFF
  else if cell slot = cell Register.sp.address then (ram.store slot 0xFFFF).store 0xFFFE 0
  else ram.store slot 0

/-- Push the zeros that are left, `count` of them. `R13` ends at zero,
unless one of them lands on it. -/
def pushZeros : Nat → Ram → Ram
  | 0, ram => ram.setReg .r13 0
  | count + 1, ram =>
      if cell (ram.reg .sp) = cell Register.r13.address then (ram.push 0).setReg .r13 0xFFFF
      else pushZeros count (ram.push 0)

/-- Start a function with a number of local variables. Without any,
nothing happens. -/
def zeroLocals (ram : Ram) (locals : Word) : Ram :=
  if locals = 0 then ram else ram.pushZeros locals.toNat

/-- Save a register on the stack. -/
def save (ram : Ram) (r : Register) : Ram :=
  ram.push (ram.reg r)

/-- Call a function: save the frame and set the bases of the function. -/
def call (ram : Ram) (arguments returnAddress : Word) : Ram :=
  let ram := ((((ram.push returnAddress).save .lcl).save .arg).save .this).save .that
  let ram := ram.setReg .arg (ram.reg .sp - arguments - 5)
  ram.setReg .lcl (ram.reg .sp)

/-- Take a register out of the frame at `R14`. -/
def restore (ram : Ram) (r : Register) (distance : Word) : Ram :=
  ram.setReg r (ram.load (ram.reg .r14 - distance))

/-- Return from a function, up to the jump: the return address ends in
`R15`. -/
def ret (ram : Ram) : Ram :=
  let ram := (ram.setReg .r14 (ram.reg .lcl)).restore .r15 5
  let ram := ram.popTo (ram.reg .arg)
  let ram := ram.setReg .sp (ram.reg .arg + 1)
  (((ram.restore .that 1).restore .this 2).restore .arg 3).restore .lcl 4

/-- A push moves the stack pointer up, unless it lands on it. -/
theorem reg_sp_push {ram : Ram} {value : Word}
    (h : cell (ram.reg .sp) ≠ cell Register.sp.address) :
    (ram.push value).reg .sp = ram.reg .sp + 1 := by
  rw [push, reg_setReg, if_pos rfl]
  exact congrArg (· + 1) (load_store_of_ne ram h value)

/-- A stack that grows into `R13` with zeros left to push stops right
behind it. -/
theorem reg_sp_pushZeros_of_lt {count : Nat} (left : Nat) {ram : Ram}
    (hsp : (ram.reg .sp).toNat + left = 13) (hpos : 0 < (ram.reg .sp).toNat)
    (hleft : left < count) : (pushZeros count ram).reg .sp = 14 := by
  induction left generalizing count ram with
  | zero =>
      obtain ⟨count, rfl⟩ := Nat.exists_eq_succ_of_ne_zero (Nat.ne_of_gt hleft)
      have h13 : ram.reg .sp = Register.r13.address := UInt16.toNat_inj.mp hsp
      have hlow : cell (ram.reg .sp) ≠ cell Register.sp.address := by rw [h13]; decide
      rw [pushZeros, if_pos (congrArg cell h13), reg_setReg, if_neg (by decide),
        reg_sp_push hlow, h13]
      rfl
  | succ left ih =>
      obtain ⟨count, rfl⟩ := Nat.exists_eq_succ_of_ne_zero (Nat.ne_of_gt (Nat.zero_lt_of_lt hleft))
      have hne : ∀ r : Register, (ram.reg .sp).toNat ≠ r.address.toNat →
          cell (ram.reg .sp) ≠ cell r.address := fun r hr =>
        cell_ne_of_lt (by show _ < 32768; omega) (by cases r <;> decide)
          (fun heq => hr (congrArg UInt16.toNat heq))
      have h13 := hne .r13 (by show _ ≠ 13; omega)
      have hlow := hne .sp (by show _ ≠ 0; omega)
      have hnext : ((ram.push 0).reg .sp).toNat = (ram.reg .sp).toNat + 1 := by
        rw [reg_sp_push hlow, UInt16.toNat_add]
        show ((ram.reg .sp).toNat + 1) % 65536 = _
        omega
      rw [pushZeros, if_neg h13]
      exact ih (by omega) (by omega) (by omega)

end Machine.Ram

namespace Vm

open Machine Assembly

/-- What an arithmetic command does to memory. Comparisons read the
difference as a signed number. -/
def Arithmetic.act : Arithmetic → Ram → Ram
  | add => Ram.binary fun x y => x + y
  | sub => Ram.binary fun x y => x - y
  | and => Ram.binary fun x y => x &&& y
  | or => Ram.binary fun x y => x ||| y
  | neg => Ram.unary fun x => -x
  | not => Ram.unary fun x => ~~~x
  | eq => Ram.compare fun difference => difference.signed = 0
  | gt => Ram.compare fun difference => 0 < difference.signed
  | lt => Ram.compare fun difference => difference.signed < 0

/-! ### Where commands go -/

/-- Two contexts see the same labels: they are in the same function, or
outside of functions in the same unit. -/
def Context.sameScope (c c' : Context) : Bool :=
  c.function == c'.function && (c.function.isSome || c.unit == c'.unit)

namespace Origin

/-- The origin declares a label of this name that the context sees. -/
def declaresLabel (context : Context) (name : String) : Origin → Bool
  | line context' ⟨_, _, .label name'⟩ => context.sameScope context' && name == name'
  | _ => false

/-- The origin declares the function of this name. -/
def declaresFunction (name : String) : Origin → Bool
  | line _ ⟨_, _, .function name' _⟩ => name == name'
  | _ => false

/-- The entry of a label, seen from a context. -/
def labelPlace? (origins : List Origin) (context : Context) (name : String) : Option Nat :=
  origins.findIdx? (·.declaresLabel context name)

/-- The entry of a function. -/
def functionPlace? (origins : List Origin) (name : String) : Option Nat :=
  origins.findIdx? (·.declaresFunction name)

/-- The origin goes somewhere only where there is something to go to:
labels have to be declared where they are seen, and functions
anywhere. -/
def hasTarget (origins : List Origin) : Origin → Bool
  | start entryPoint => (functionPlace? origins entryPoint).isSome
  | line context ⟨_, _, command⟩ =>
      match command with
      | .goto target | .ifGoto target => (labelPlace? origins context target).isSome
      | .call name _ => (functionPlace? origins name).isSome
      | _ => true

/-- Every jump and every call of a program has its target. -/
def Closed (origins : List Origin) : Prop :=
  ∀ o ∈ origins, o.hasTarget origins = true

/-- The targets can be looked for one by one. -/
instance (origins : List Origin) : Decidable (Closed origins) :=
  inferInstanceAs (Decidable (∀ o ∈ origins, o.hasTarget origins = true))

end Origin

/-- A program as the stack machine sees it. -/
structure StackMachine where
  /-- What the entries stand for, in order. -/
  origins : List Origin
  /-- Where in program memory the code of an entry starts. -/
  address : Nat → Nat
  /-- The cell of a unit's static variable. -/
  static : String → Word → Word

namespace StackMachine

/-- The stack machine between two steps. -/
structure Config where
  /-- The entry that comes next. -/
  entry : Nat
  ram : Ram

variable (m : StackMachine)

/-- The first entry whose code starts at an address. Behind the last
entry the program's end counts as one. -/
def entryAt? (address : Word) : Option Nat :=
  (List.range (m.origins.length + 1)).find? fun i => m.address i == address.toNat

/-- The cell of a segment at an index. A constant has none. -/
def cell? (unit : String) (ram : Ram) (segment : Segment) (index : Word) : Option Word :=
  match segment with
  | .constant => none
  | .locals => some (ram.reg .lcl + index)
  | .argument => some (ram.reg .arg + index)
  | .this => some (ram.reg .this + index)
  | .that => some (ram.reg .that + index)
  | .pointer => some (3 + index)
  | .temp => some (5 + index)
  | .static => some (m.static unit index)

/-- The value of a segment at an index. -/
def value (unit : String) (ram : Ram) (segment : Segment) (index : Word) : Word :=
  match m.cell? unit ram segment index with
  | some address => ram.load address
  | none => index

/-- The call of a function from an entry. -/
def callFrom (c : Config) (name : String) (arguments : Word) (ram : Ram) : Option Config :=
  (Origin.functionPlace? m.origins name).map fun i =>
    ⟨i, ram.call arguments (m.address (c.entry + 1)).toUInt16⟩

/-- What a command does in a context. -/
def execute (context : Context) (command : Command) (c : Config) : Option Config :=
  match command with
  | .arithmetic op => some ⟨c.entry + 1, op.act c.ram⟩
  | .push segment index =>
      some ⟨c.entry + 1, c.ram.push (m.value context.unit c.ram segment index)⟩
  | .pop segment index =>
      (m.cell? context.unit c.ram segment index).map fun address =>
        ⟨c.entry + 1, c.ram.popTo address⟩
  | .label _ => some ⟨c.entry + 1, c.ram⟩
  | .goto target => (Origin.labelPlace? m.origins context target).map (⟨·, c.ram⟩)
  | .ifGoto target =>
      if c.ram.drop.top = 0 then some ⟨c.entry + 1, c.ram.drop⟩
      else (Origin.labelPlace? m.origins context target).map (⟨·, c.ram.drop⟩)
  | .function _ locals => some ⟨c.entry + 1, c.ram.zeroLocals locals⟩
  | .call name arguments => m.callFrom c name arguments c.ram
  | .ret => (m.entryAt? (c.ram.ret.reg .r15)).map (⟨·, c.ram.ret⟩)

/-- What an origin does. The start of the machine sets up an empty stack
and calls the first function. -/
def perform (c : Config) : Origin → Option Config
  | .start entryPoint => m.callFrom c entryPoint 0 (c.ram.setReg .sp 256)
  | .line context line => m.execute context line.command c

/-- One step. Behind the last entry there is none. -/
def step (c : Config) : Option Config :=
  (m.origins[c.entry]?).bind (m.perform c)

/-- Exactly `n` steps. -/
def run : Nat → Config → Option Config
  | 0, c => some c
  | n + 1, c => (m.step c).bind (run n)

end StackMachine

/-- The stack machine of a compiled and linked program. -/
def Program.stackMachine (entryPoint? : Option String) (units : List SourceUnit) (p : Program)
    (e : Executable) : StackMachine where
  origins := origins entryPoint? units
  address i := romLength ((p.blocks.take i).flatMap Block.code)
  static unit index := e.symbol (Segment.staticName unit index)

end Vm

end HackComputer
