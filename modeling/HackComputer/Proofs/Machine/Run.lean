import HackComputer.Proofs.Machine.Memory

/-!
# `HackComputer.Proofs.Machine.Run`: runs of the machine, taken apart

`State.run` stops at a halt, counts its steps and hands both back. The
proofs about programs want to cut a run into pieces instead, so this file
gives the two tools for that:

* `State.run_add`: a run of `m + n` steps is a run of `m` steps and then
  one of `n`. It holds for every state, because a halted machine stays
  as it is.
* `State.Steps`: exactly `n` steps, with the machine still going at the
  end. Such pieces compose (`Steps.trans`).

One step is described on `Data`, the part of the machine that an
instruction works on. `step_perform` moves on to the next instruction,
`step_jump` goes where `A` points; the latter keeps the machine's own
test for an idle loop, so that a caller has to say why it fails. For a
conditional jump it always fails (`isIdle_of_ne_always`).
-/

set_option autoImplicit false

namespace HackComputer.Machine

open Isa

namespace State

/-! ### Cutting runs -/

/-- The steps that count as done already are only added. -/
theorem runFrom_eq (done limit : Nat) (s : State) :
    runFrom done limit s = (done + (s.run limit).1, (s.run limit).2) := by
  have key : ∀ (limit done : Nat) (s : State),
      runFrom done limit s = (done + (runFrom 0 limit s).1, (runFrom 0 limit s).2) := by
    intro limit
    induction limit with
    | zero => intro done s; rfl
    | succ limit ih =>
        intro done s
        simp only [runFrom]
        split
        · rfl
        · split
          · rfl
          · rw [ih (done + 1), ih (0 + 1), Nat.zero_add, Nat.add_assoc]
  exact key limit done s

/-- No steps leave the machine as it is. -/
@[simp] theorem run_zero (s : State) : s.run 0 = (0, s) := rfl

/-- A step that finds no operation ends the run. -/
theorem run_succ_of_none {s t : State} (h : s.step = (none, t)) (n : Nat) :
    s.run (n + 1) = (0, t) := by
  show runFrom 0 (n + 1) s = (0, t)
  simp only [runFrom, h]

/-- A step into the idle loop is counted and ends the run. -/
theorem run_succ_of_halt {s t : State} {p : Word × Operation} (h : s.step = (some p, t))
    (ht : t.halted = true) (n : Nat) : s.run (n + 1) = (1, t) := by
  show runFrom 0 (n + 1) s = (1, t)
  simp only [runFrom, h, ht, if_true, Nat.zero_add]

/-- Any other step is counted, and the run goes on. -/
theorem run_succ_of_live {s t : State} {p : Word × Operation} (h : s.step = (some p, t))
    (ht : t.halted = false) (n : Nat) : s.run (n + 1) = (1 + (t.run n).1, (t.run n).2) := by
  show runFrom 0 (n + 1) s = _
  simp only [runFrom, h, ht, Bool.false_eq_true, if_false, Nat.zero_add]
  rw [runFrom_eq]

/-- A halted machine performs nothing and stays as it is. -/
theorem step_of_halted {s : State} (h : s.halted = true) : s.step = (none, s) := by
  have hself : { s with halted := true } = s := by rw [← h]
  simp only [step, fetch?, h, if_true, hself]

/-- Nor does it do more when it is run. -/
theorem run_of_halted {s : State} (h : s.halted = true) (n : Nat) : s.run n = (0, s) := by
  cases n with
  | zero => rfl
  | succ n => exact run_succ_of_none (step_of_halted h) n

/-- A step without an operation leaves the machine halted. -/
theorem halted_of_step_none {s t : State} (h : s.step = (none, t)) : t.halted = true := by
  unfold step at h
  split at h
  · cases h; rfl
  · cases h

/-- A run may be interrupted anywhere and taken up again. -/
theorem run_add (m n : Nat) (s : State) :
    s.run (m + n) = ((s.run m).1 + ((s.run m).2.run n).1, ((s.run m).2.run n).2) := by
  induction m generalizing s with
  | zero => simp
  | succ m ih =>
      rw [Nat.add_right_comm]
      -- The first step decides; the two halting cases leave nothing for the second run.
      rcases hstep : s.step with ⟨_ | p, t⟩
      · rw [run_succ_of_none hstep, run_succ_of_none hstep,
          run_of_halted (halted_of_step_none hstep)]
        rfl
      · cases ht : t.halted with
        | true =>
            rw [run_succ_of_halt hstep ht, run_succ_of_halt hstep ht, run_of_halted ht]
            rfl
        | false =>
            rw [run_succ_of_live hstep ht, run_succ_of_live hstep ht, ih t]
            simp only [Nat.add_assoc]

/-- Performing an operation leaves program memory alone. -/
theorem perform_rom (s : State) (op : Operation) : (s.perform op).rom = s.rom := by
  cases op with
  | load value => rfl
  | compute c =>
      rcases c with ⟨⟨ca, cd, cm⟩, comp, jump⟩
      simp only [perform, calculate]
      split <;> cases ca <;> cases cd <;> cases cm <;> rfl

/-- A step leaves program memory alone. -/
theorem step_rom (s : State) : s.step.2.rom = s.rom := by
  simp only [step]
  split
  · rfl
  · exact perform_rom s _

/-- What every step keeps, a run keeps. -/
theorem run_preserves {P : State → Prop} (hstep : ∀ s, P s → P s.step.2) (n : Nat) {s : State}
    (h : P s) : P (s.run n).2 := by
  induction n generalizing s with
  | zero => exact h
  | succ n ih =>
      have hnext := hstep s h
      rcases hs : s.step with ⟨_ | p, t⟩
      · rw [hs] at hnext
        rw [run_succ_of_none hs]
        exact hnext
      · rw [hs] at hnext
        cases ht : t.halted with
        | true =>
            rw [run_succ_of_halt hs ht]
            exact hnext
        | false =>
            rw [run_succ_of_live hs ht]
            exact ih hnext

/-- A run leaves program memory alone. -/
theorem run_rom (n : Nat) (s : State) : (s.run n).2.rom = s.rom := by
  apply run_preserves (P := fun t => t.rom = s.rom) ?_ n rfl
  intro t ht
  exact (step_rom t).trans ht

/-! ### Runs that go on -/

/-- The machine performs `n` steps from `s`, is then in `t` and has not
halted. -/
structure Steps (n : Nat) (s t : State) : Prop where
  run_eq : s.run n = (n, t)
  live : t.halted = false

/-- No step at all. -/
theorem Steps.refl {s : State} (h : s.halted = false) : Steps 0 s s :=
  ⟨rfl, h⟩

/-- One step. -/
theorem Steps.single {s t : State} {p : Word × Operation} (h : s.step = (some p, t))
    (ht : t.halted = false) : Steps 1 s t :=
  ⟨by rw [run_succ_of_live h ht, run_zero]; rfl, ht⟩

/-- Two runs one after the other. -/
theorem Steps.trans {m n : Nat} {s t u : State} (h₁ : Steps m s t) (h₂ : Steps n t u) :
    Steps (m + n) s u :=
  ⟨by rw [run_add, h₁.run_eq, h₂.run_eq], h₂.live⟩

/-- A machine that is still going was going all the time. -/
theorem Steps.live_of_le {m n : Nat} {s t : State} (h : Steps n s t) (hle : m ≤ n) :
    (s.run m).2.halted = false := by
  obtain ⟨k, rfl⟩ := Nat.exists_eq_add_of_le hle
  cases hm : (s.run m).2.halted with
  | false => rfl
  | true =>
      have hrun := h.run_eq
      rw [run_add, run_of_halted hm] at hrun
      have hend : (s.run m).2 = t := congrArg Prod.snd hrun
      rw [hend, h.live] at hm
      cases hm

/-- A machine that comes back to where it was never halts. -/
theorem Steps.live_of_loop {n : Nat} {s : State} (h : Steps n s s) (hn : 0 < n) (limit : Nat) :
    (s.run limit).2.halted = false := by
  have hrounds : ∀ k : Nat, Steps (k * n) s s := by
    intro k
    induction k with
    | zero => rw [Nat.zero_mul]; exact Steps.refl h.live
    | succ k ih => rw [Nat.succ_mul]; exact ih.trans h
  exact (hrounds limit).live_of_le (Nat.le_mul_of_pos_right limit hn)

end State

/-! ### Jumps -/

/-- A jump that is never taken is not taken. -/
theorem holds_never (out : Word) : Jump.never.holds out = false := rfl

/-- Only zero is read as the signed number zero. -/
theorem signed_eq_zero_iff (w : Word) : w.signed = 0 ↔ w = 0 := by
  constructor
  · intro h
    have h16 : w.toInt16 = 0 := Int16.toInt_inj.mp h
    rw [← UInt16.toUInt16_toInt16 w, h16]
    rfl
  · intro h
    rw [h]
    rfl

/-- A jump that is always taken is taken. -/
theorem holds_always (out : Word) : Jump.always.holds out = true := by
  simp only [Jump.always, Jump.holds, Bool.true_and, Bool.or_eq_true, decide_eq_true_eq,
    beq_iff_eq]
  rcases Int.lt_trichotomy out.signed 0 with h | h | h
  · exact Or.inl (Or.inl h)
  · exact Or.inl (Or.inr ((signed_eq_zero_iff out).mp h))
  · exact Or.inr h

/-- Only a jump that is always taken can be an idle loop. -/
theorem isIdle_of_ne_always {rom : Array Operation} {c : Calculation} {pc target : Word}
    (h : c.jump ≠ .always) : State.isIdle rom c pc target = false := by
  simp [State.isIdle, h]

/-! ### One step -/

/-- Counting in words agrees with counting. -/
theorem toUInt16_succ (n : Nat) : n.toUInt16 + 1 = (n + 1).toUInt16 := by
  show UInt16.ofNat n + UInt16.ofNat 1 = UInt16.ofNat (n + 1)
  rw [← UInt16.ofNat_add]

/-- What an instruction works on: data memory and the two registers. -/
structure Data where
  ram : Ram
  a : Word
  d : Word

namespace Data

/-- The machine that is about to perform the operation at `pc`. -/
def state (x : Data) (rom : Array Operation) (pc : Nat) : State where
  rom := rom
  ram := x.ram
  a := x.a
  d := x.d
  pc := pc.toUInt16
  halted := false

/-- The address register is that of the data. -/
@[simp] theorem state_a (x : Data) (rom : Array Operation) (pc : Nat) :
    (x.state rom pc).a = x.a := rfl

/-- The data register is that of the data. -/
@[simp] theorem state_d (x : Data) (rom : Array Operation) (pc : Nat) :
    (x.state rom pc).d = x.d := rfl

/-- The program counter is the one given. -/
@[simp] theorem state_pc (x : Data) (rom : Array Operation) (pc : Nat) :
    (x.state rom pc).pc = pc.toUInt16 := rfl

/-- What a computing instruction computes. -/
def result (x : Data) (c : Calculation) : Word :=
  c.comp.eval x.d x.a (x.ram.load x.a)

/-- The data after an operation. -/
def perform (x : Data) : Operation → Data
  | .load value => { x with a := value }
  | .compute c =>
      { ram := if c.dest.m then x.ram.store x.a (x.result c) else x.ram
        a := if c.dest.a then x.result c else x.a
        d := if c.dest.d then x.result c else x.d }

/-- The operation ends in a jump that is taken. -/
def jumps (x : Data) : Operation → Bool
  | .load _ => false
  | .compute c => c.jump.holds (x.result c)

end Data

/-- A machine between two steps is its data at its program counter. -/
theorem State.eq_state {s : State} (h : s.halted = false) :
    s = (Data.mk s.ram s.a s.d).state s.rom s.pc.toNat := by
  cases s
  simp_all [Data.state]

section
variable {rom : Array Operation} {pc : Nat} {op : Operation}

/-- The operation at the program counter is the one that is performed. -/
theorem step_state (hrom : rom.size ≤ romCapacity) (hop : rom[pc]? = some op) (x : Data) :
    (x.state rom pc).step = (some (pc.toUInt16, op), (x.state rom pc).perform op) := by
  have hlt : pc < rom.size := (Array.getElem?_eq_some_iff.mp hop).1
  have hpc : pc.toUInt16.toNat = pc :=
    UInt16.toNat_ofNat_of_lt (Nat.lt_of_lt_of_le hlt (Nat.le_trans hrom (by decide)))
  have hfetch : (x.state rom pc).fetch? = some op := by
    simp only [State.fetch?, Data.state, Bool.false_eq_true, if_false, hpc, hop]
  simp only [State.step, hfetch]
  rfl

/-- A computing instruction without a jump changes the data and moves on. -/
theorem calculate_state (x : Data) (c : Calculation) (h : c.jump.holds (x.result c) = false) :
    (x.state rom pc).calculate c = (x.perform (.compute c)).state rom (pc + 1) := by
  have hout : c.jump.holds (c.comp.eval x.d x.a ((x.state rom pc).read x.a)) = false := h
  simp only [State.calculate, Data.state_a, Data.state_d, Data.state_pc, hout,
    Bool.false_eq_true, if_false, toUInt16_succ]
  rcases c with ⟨⟨ca, cd, cm⟩, comp, jump⟩
  cases ca <;> cases cd <;> cases cm <;> rfl

/-- A computing instruction with a jump goes where `A` pointed before it. -/
theorem calculate_state_jump (x : Data) (c : Calculation)
    (h : c.jump.holds (x.result c) = true) :
    (x.state rom pc).calculate c
      = { (x.perform (.compute c)).state rom x.a.toNat with
          halted := State.isIdle rom c pc.toUInt16 x.a } := by
  have hout : c.jump.holds (c.comp.eval x.d x.a ((x.state rom pc).read x.a)) = true := h
  have ha : x.a.toNat.toUInt16 = x.a := UInt16.ofNat_toNat
  simp only [State.calculate, Data.state_a, Data.state_d, Data.state_pc, hout, if_true]
  rcases c with ⟨⟨ca, cd, cm⟩, comp, jump⟩
  cases ca <;> cases cd <;> cases cm <;> simp only [Data.state, ha] <;> rfl

/-- An operation that does not jump changes the data and moves on. -/
theorem step_perform (hrom : rom.size ≤ romCapacity) (hop : rom[pc]? = some op) (x : Data)
    (hjump : x.jumps op = false) :
    State.Steps 1 (x.state rom pc) ((x.perform op).state rom (pc + 1)) := by
  refine State.Steps.single (p := (pc.toUInt16, op)) ?_ rfl
  rw [step_state hrom hop]
  congr 1
  cases op with
  | load value =>
      show { x.state rom pc with a := value, pc := pc.toUInt16 + 1 } = _
      rw [toUInt16_succ]
      rfl
  | compute c => exact calculate_state x c hjump

/-- A jump that is taken goes where `A` pointed, and the machine tests
whether that is an idle loop. -/
theorem step_jump (hrom : rom.size ≤ romCapacity) {c : Calculation}
    (hop : rom[pc]? = some (.compute c)) (x : Data) (hjump : x.jumps (.compute c) = true) :
    (x.state rom pc).step = (some (pc.toUInt16, .compute c),
      { (x.perform (.compute c)).state rom x.a.toNat with
        halted := State.isIdle rom c pc.toUInt16 x.a }) := by
  rw [step_state hrom hop]
  exact congrArg _ (calculate_state_jump x c hjump)

/-- A jump that is taken and is no idle loop. -/
theorem steps_jump (hrom : rom.size ≤ romCapacity) {c : Calculation}
    (hop : rom[pc]? = some (.compute c)) (x : Data) (hjump : x.jumps (.compute c) = true)
    (hidle : State.isIdle rom c pc.toUInt16 x.a = false) :
    State.Steps 1 (x.state rom pc) ((x.perform (.compute c)).state rom x.a.toNat) := by
  refine State.Steps.single (p := (pc.toUInt16, .compute c)) ?_ rfl
  rw [step_jump hrom hop x hjump, hidle]
  rfl

/-- Behind the last operation the machine halts. -/
theorem run_end (hrom : rom.size ≤ romCapacity) (x : Data) (n : Nat) :
    (x.state rom rom.size).run (n + 1) = (0, { x.state rom rom.size with halted := true }) := by
  have hpc : rom.size.toUInt16.toNat = rom.size :=
    UInt16.toNat_ofNat_of_lt (Nat.lt_of_le_of_lt hrom (by decide))
  have hfetch : (x.state rom rom.size).fetch? = none := by
    simp only [State.fetch?, Data.state, Bool.false_eq_true, if_false, hpc]
    exact Array.getElem?_eq_none (Nat.le_refl _)
  refine State.run_succ_of_none ?_ n
  simp only [State.step, hfetch]

/-- A machine that comes to the end of its program has the same memory
whenever it is found there. -/
theorem ram_of_end {s : State} {k t : Nat} {x : Data} (hrom : s.rom.size ≤ romCapacity)
    (hsteps : State.Steps k s (x.state s.rom s.rom.size))
    (hend : (s.run t).2.pc.toNat = s.rom.size) : (s.run t).2.ram = x.ram := by
  rcases Nat.lt_or_ge t k with hbefore | hafter
  · -- At the end already, the machine does nothing more up to `k`.
    obtain ⟨j, rfl⟩ := Nat.exists_eq_add_of_lt hbefore
    have hrun := congrArg Prod.snd hsteps.run_eq
    rw [Nat.add_assoc, State.run_add] at hrun
    have hsame : ((s.run t).2.run (j + 1)).2.ram = (s.run t).2.ram := by
      cases hhalted : (s.run t).2.halted with
      | true => rw [State.run_of_halted hhalted]
      | false =>
          rw [State.eq_state hhalted, hend, State.run_rom, run_end hrom]
    exact hsame.symm.trans (congrArg State.ram hrun)
  · obtain ⟨j, rfl⟩ := Nat.exists_eq_add_of_le hafter
    rw [State.run_add, hsteps.run_eq]
    cases j with
    | zero => rfl
    | succ j => rw [run_end hrom]; rfl

end

end HackComputer.Machine
