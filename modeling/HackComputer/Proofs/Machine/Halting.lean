import HackComputer.Proofs.Machine.Run

/-!
# `HackComputer.Proofs.Machine.Halting`: a halted machine has nothing left to do

The machine halts when it finds no operation, and when it has taken the
jump of an idle loop. The second is a guess about the future made from one
jump, and this file shows that the guess is right.

`State.resume` performs the next step of a machine whether it has halted or
not, and `State.resumed` any number of such steps. `IdleLoop` says what
stands in program memory: a load of its own address, and behind it a jump
that is always taken and stores nothing. A state that `Rests` is behind the
program or in such a loop, with the address of the loop in `A`.

* `halted_step_iff`: a step halts the machine exactly if there is no
  operation or the step is the jump of an idle loop.
* `resumed_outside`, `resumed_idle`: from a resting state only the program
  counter changes, for any number of steps.
* `HaltsAtRest.after`: whatever the machine is asked to do from its start,
  it halts only at rest.
* `resumed_of_halted`: so nothing changes when a halted machine goes on.

Program memory may be of any length here: past the highest address the
program counter starts again at zero, and a loop may lie across that end.
-/

set_option autoImplicit false

namespace HackComputer.Machine

open Isa

/-- The two operations from `target` on are an idle loop. The jump may
compute anything, because the result is not stored. -/
structure IdleLoop (rom : Array Operation) (target : Word) : Prop where
  load : rom[target.toNat]? = some (.load target)
  jump : ∃ comp, rom[(target + 1).toNat]? = some (.compute ⟨.none, comp, .always⟩)

namespace State

/-- The machine is behind its program, or in the idle loop that `A`
addresses. -/
def Rests (s : State) : Prop :=
  s.rom.size ≤ s.pc.toNat ∨ IdleLoop s.rom s.a ∧ (s.pc = s.a ∨ s.pc = s.a + 1)

/-- One more step, even if the machine has halted. -/
def resume (s : State) : State :=
  { s with halted := false }.step.2

/-- The machine after `n` more steps that no halt prevents. -/
def resumed (s : State) : Nat → State
  | 0 => s
  | n + 1 => (s.resumed n).resume

/-! ### One step -/

section
variable {s : State}

/-- Without a halt the program counter says what is performed. -/
theorem fetch?_of_live (hlive : s.halted = false) : s.fetch? = s.rom[s.pc.toNat]? := by
  simp [fetch?, hlive]

/-- Behind the program the machine only halts. -/
theorem step_outside (h : s.rom.size ≤ s.pc.toNat) :
    s.step = (none, { s with halted := true }) := by
  have hfetch : s.fetch? = none := by
    simp [fetch?, Array.getElem?_eq_none h]
  simp only [step, hfetch]

/-- The load of an idle loop finds its value in `A` already. -/
theorem step_idle_load (hlive : s.halted = false) (hloop : IdleLoop s.rom s.a)
    (hpc : s.pc = s.a) : s.step.2 = { s with pc := s.a + 1 } := by
  have hfetch : s.fetch? = some (.load s.a) := by
    rw [fetch?_of_live hlive, hpc, hloop.load]
  simp only [step, hfetch, perform, hpc]

/-- A jump that is always taken and stores nothing changes nothing but the
program counter. -/
theorem calculate_always (comp : Computation) :
    s.calculate ⟨.none, comp, .always⟩
      = { s with pc := s.a, halted := isIdle s.rom ⟨.none, comp, .always⟩ s.pc s.a } := by
  show (if Jump.always.holds _ = true then
      { s with pc := s.a, halted := isIdle s.rom ⟨.none, comp, .always⟩ s.pc s.a }
    else { s with pc := s.pc + 1 }) = _
  rw [if_pos (holds_always _)]

/-- The jump of an idle loop goes back to the load, and halts the
machine. -/
theorem step_idle_jump (hlive : s.halted = false) (hloop : IdleLoop s.rom s.a)
    (hpc : s.pc = s.a + 1) : s.step.2 = { s with pc := s.a, halted := true } := by
  obtain ⟨comp, hjump⟩ := hloop.jump
  have hfetch : s.fetch? = some (.compute ⟨.none, comp, .always⟩) := by
    rw [fetch?_of_live hlive, hpc, hjump]
  have hidle : isIdle s.rom ⟨.none, comp, .always⟩ s.pc s.a = true := by
    simp [isIdle, hpc, hloop.load]
  simp only [step, hfetch, perform, calculate_always, hidle]

/-- Only the jump of an idle loop halts a machine that computes. -/
theorem isIdle_of_halted_calculate {c : Calculation} (hlive : s.halted = false)
    (h : (s.calculate c).halted = true) : isIdle s.rom c s.pc s.a = true := by
  rcases c with ⟨⟨ca, cd, cm⟩, comp, jump⟩
  simp only [calculate] at h
  split at h
  · -- Whatever was stored before the test, it sees the same program.
    cases ca <;> cases cd <;> cases cm <;> exact h
  · -- Without a jump the machine goes on.
    cases ca <;> cases cd <;> cases cm <;> exact absurd (hlive.symm.trans h) (by decide)

/-- An operation that halts the machine is the jump of an idle loop. -/
theorem idleLoop_of_halted_perform {op : Operation} (hlive : s.halted = false)
    (hop : s.rom[s.pc.toNat]? = some op) (h : (s.perform op).halted = true) :
    IdleLoop s.rom s.a ∧ s.pc = s.a + 1 := by
  cases op with
  | load value =>
      -- A load leaves the flag as it was.
      rw [show (s.perform (.load value)).halted = s.halted from rfl, hlive] at h
      cases h
  | compute c =>
      have hidle := isIdle_of_halted_calculate hlive h
      rcases c with ⟨dest, comp, jump⟩
      simp only [isIdle, Bool.and_eq_true, beq_iff_eq] at hidle
      obtain ⟨⟨⟨rfl, rfl⟩, hpc⟩, hload⟩ := hidle
      -- The jump itself is the operation behind its target.
      rw [← hpc] at hop
      exact ⟨⟨hload, comp, hop⟩, hpc.symm⟩

/-- **A step halts the machine** exactly if there is no operation or it is
the jump of an idle loop. -/
theorem halted_step_iff (hlive : s.halted = false) :
    s.step.2.halted = true
      ↔ s.rom.size ≤ s.pc.toNat ∨ IdleLoop s.rom s.a ∧ s.pc = s.a + 1 := by
  constructor
  · intro h
    rcases Nat.lt_or_ge s.pc.toNat s.rom.size with hlt | hge
    · have hop := Array.getElem?_eq_getElem hlt
      simp only [step, (fetch?_of_live hlive).trans hop] at h
      exact Or.inr (idleLoop_of_halted_perform hlive hop h)
    · exact Or.inl hge
  · rintro (houtside | ⟨hloop, hpc⟩)
    · rw [step_outside houtside]
    · rw [step_idle_jump hlive hloop hpc]

end

/-! ### Any number of steps -/

/-- Behind the program nothing changes. -/
theorem resumed_outside {s : State} (h : s.rom.size ≤ s.pc.toNat) (n : Nat) :
    ∃ halted, s.resumed n = { s with halted := halted } := by
  induction n with
  | zero => exact ⟨s.halted, rfl⟩
  | succ n ih =>
      obtain ⟨halted, hn⟩ := ih
      rw [resumed, hn, resume]
      exact ⟨true, congrArg Prod.snd (step_outside (s := { s with halted := false }) h)⟩

/-- In an idle loop the program counter goes from the load to the jump and
back, and nothing else changes. -/
theorem resumed_idle {s : State} (hloop : IdleLoop s.rom s.a) (hpc : s.pc = s.a ∨ s.pc = s.a + 1)
    (n : Nat) :
    ∃ pc halted, (pc = s.a ∨ pc = s.a + 1) ∧
      s.resumed n = { s with pc := pc, halted := halted } := by
  induction n with
  | zero => exact ⟨s.pc, s.halted, hpc, rfl⟩
  | succ n ih =>
      obtain ⟨pc, halted, hin, hn⟩ := ih
      rw [resumed, hn, resume]
      -- Each of the two places leads to the other one.
      rcases hin with rfl | rfl
      · exact ⟨s.a + 1, false, Or.inr rfl, step_idle_load rfl hloop rfl⟩
      · exact ⟨s.a, true, Or.inl rfl, step_idle_jump rfl hloop rfl⟩

end State

/-! ### Machines in use -/

/-- What a machine can be asked to do. -/
inductive Call where
  | exec
  | run (limit : Nat)
  | set (address value : Word)
  | fill (first bound value : Word)

namespace State

/-- The machine after a call. -/
def call (s : State) : Call → State
  | .exec => s.step.2
  | .run limit => (s.run limit).2
  | .set address value => s.write address value
  | .fill first bound value => s.fill first bound value

/-- The machine after some calls. -/
def after (s : State) (calls : List Call) : State :=
  calls.foldl call s

/-- The machine runs the program `rom`, and if it has halted, it is at
rest. -/
structure HaltsAtRest (rom : Array Operation) (s : State) : Prop where
  rom_eq : s.rom = rom
  rests : s.halted = true → s.Rests

namespace HaltsAtRest
variable {rom : Array Operation} {s : State}

/-- The machine has not halted when it starts. -/
theorem of_start (rom : Array Operation) : (start rom).HaltsAtRest rom := by
  refine ⟨rfl, ?_⟩
  intro h
  cases h

/-- One step. -/
theorem step (h : s.HaltsAtRest rom) : s.step.2.HaltsAtRest rom := by
  refine ⟨(step_rom s).trans h.rom_eq, ?_⟩
  intro hhalted
  cases hlive : s.halted with
  | true =>
      -- The machine had halted before, and stays as it was.
      have hsame : s.step.2 = { s with halted := true } := by
        simp [State.step, fetch?, hlive]
      rw [hsame]
      exact h.rests hlive
  | false =>
      rcases (halted_step_iff hlive).mp hhalted with houtside | ⟨hloop, hpc⟩
      · rw [step_outside houtside]
        exact Or.inl houtside
      · rw [step_idle_jump hlive hloop hpc]
        exact Or.inr ⟨hloop, Or.inl rfl⟩

/-- A cell is changed: being at rest is not about cells. -/
theorem write (h : s.HaltsAtRest rom) (address value : Word) :
    (s.write address value).HaltsAtRest rom :=
  ⟨h.rom_eq, h.rests⟩

/-- Cells are changed one after the other. -/
theorem fillFrom (value : Word) (count : Nat) (first : Word) (h : s.HaltsAtRest rom) :
    (State.fillFrom first value count s).HaltsAtRest rom := by
  induction count generalizing first s with
  | zero => exact h
  | succ count ih => exact ih (first + 1) (h.write first value)

/-- One call. -/
theorem call (h : s.HaltsAtRest rom) (c : Call) : (s.call c).HaltsAtRest rom := by
  cases c with
  | exec => exact h.step
  | run limit => exact run_preserves (fun _ ht => ht.step) limit h
  | set address value => exact h.write address value
  | fill first bound value => exact h.fillFrom value _ first

/-- **Whatever a machine is asked to do, it halts only at rest.** -/
theorem after (h : s.HaltsAtRest rom) (calls : List Call) :
    (s.after calls).HaltsAtRest rom := by
  induction calls generalizing s with
  | nil => exact h
  | cons c calls ih => exact ih (h.call c)

end HaltsAtRest

/-- **A halted machine has nothing left to do.** However it came to halt
after its start, going on changes neither data memory nor the registers,
and the program counter stays behind the program or in one idle loop. This
holds for the memory that the machine has now, so it may also be changed
from outside after the halt. -/
theorem resumed_of_halted {rom : Array Operation} {calls : List Call} {s : State}
    (hcalls : (start rom).after calls = s) (hhalted : s.halted = true) :
    (∀ n, (s.resumed n).ram = s.ram ∧ (s.resumed n).d = s.d ∧ (s.resumed n).a = s.a) ∧
    ((∀ n, rom.size ≤ (s.resumed n).pc.toNat) ∨
      IdleLoop rom s.a ∧ ∀ n, (s.resumed n).pc = s.a ∨ (s.resumed n).pc = s.a + 1) := by
  have hrest := (HaltsAtRest.of_start rom).after calls
  rw [hcalls] at hrest
  rw [← hrest.rom_eq]
  rcases hrest.rests hhalted with houtside | ⟨hloop, hpc⟩
  · refine ⟨?_, Or.inl ?_⟩
    · intro n
      obtain ⟨halted, hn⟩ := resumed_outside houtside n
      rw [hn]
      exact ⟨rfl, rfl, rfl⟩
    · intro n
      obtain ⟨halted, hn⟩ := resumed_outside houtside n
      rw [hn]
      exact houtside
  · refine ⟨?_, Or.inr ⟨hloop, ?_⟩⟩
    · intro n
      obtain ⟨pc, halted, -, hn⟩ := resumed_idle hloop hpc n
      rw [hn]
      exact ⟨rfl, rfl, rfl⟩
    · intro n
      obtain ⟨pc, halted, hin, hn⟩ := resumed_idle hloop hpc n
      rw [hn]
      exact hin

/-- Loads a value into a cell and idles, with a jump that computes. -/
def storingRom : Array Operation :=
  #[.load 7, .compute ⟨⟨false, true, true⟩, .y .a, .never⟩, .load 2,
    .compute ⟨.none, .incD, .always⟩]

/-- The machine is used while it runs and after it has halted. -/
def storingCalls : List Call :=
  [.fill 0 16 3, .exec, .set 20 9, .run 100, .set 7 1, .exec, .run 5]

/-- Set going again, the halted machine only moves between the load and the
jump. -/
theorem resumed_of_storingCalls :
    let s := (start storingRom).after storingCalls
    s.halted = true ∧ s.d = 7 ∧ (∀ n, (s.resumed n).ram = s.ram ∧ (s.resumed n).d = 7) ∧
    ∀ n, (s.resumed n).pc = 2 ∨ (s.resumed n).pc = 3 := by
  intro s
  have hhalted : s.halted = true := rfl
  have hcalls : (start storingRom).after storingCalls = s := rfl
  obtain ⟨hsame, hplace⟩ := resumed_of_halted hcalls hhalted
  refine ⟨hhalted, rfl, ?_, ?_⟩
  · intro n
    exact ⟨(hsame n).1, (hsame n).2.1⟩
  · rcases hplace with houtside | ⟨-, hloop⟩
    · -- The machine has not left its program of four operations.
      exact absurd (houtside 0) (by decide)
    · exact hloop

end State

end HackComputer.Machine
