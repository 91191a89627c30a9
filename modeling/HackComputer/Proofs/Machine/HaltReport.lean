import HackComputer.Proofs.Assembly.Image
import HackComputer.Proofs.Assembly.Linking
import HackComputer.Proofs.Machine.Budget
import HackComputer.Proofs.Watch.Observation

/-!
# `HackComputer.Proofs.Machine.HaltReport`: when a run is reported as halted

After a run only the flag of the machine tells a program that has come to its
end from one that was cut off by its limit. A program has come to its end when
the last operation was the jump of an idle loop, or when the program counter
has left the program. This file says how far the flag can be relied on.

The last operation is the last event of the run, so `Event.IsIdleJump` is said
of an event alone: what was performed, where, and where it went.

* `halted_iff_isIdleJump`: an operation halts the machine exactly if it is the
  jump of an idle loop. Nothing is left to be found out later.
* `halted_run_iff_of_live`: the flag after a run, from any state that goes on.
* `halted_run_iff`: the flag after a run from the start. A program counter
  outside the program shows only if the run still had a step to try.
* `unreported_at_limit`: without such a step the flag is missed.
-/

set_option autoImplicit false

namespace HackComputer.Assembly

open Isa

/-- Program memory that a machine can be given: a linked program, or an image
that was read. -/
inductive Loadable : Array Operation → Prop
  | linked {code : List Instruction} {e : Executable} (h : Executable.link code = .ok e) :
      Loadable e.rom
  | image {text : List Char} {rom : Array Operation} (h : Image.read text = .ok rom) :
      Loadable rom

/-- Both ways to fill program memory check that there is room. -/
theorem Loadable.size_le {rom : Array Operation} (h : Loadable rom) : rom.size ≤ romCapacity := by
  cases h with
  | linked hlink => exact (Loaded.of_link hlink).size_le
  | image hread =>
      cases hops : readLines Image.readLine _ with
      | error err => rw [Image.read_of_error hops] at hread; cases hread
      | ok ops =>
          rw [Image.read_of_readLines hops] at hread
          split at hread
          · cases hread
            assumption
          · cases hread

end HackComputer.Assembly

namespace HackComputer.Machine

open Isa Assembly

/-- The event is the jump of an idle loop: it is always taken, stores nothing,
and has gone to the operation right before it, which loads its own address. -/
def Event.IsIdleJump (rom : Array Operation) (event : Event) : Prop :=
  (∃ comp, event.op = .compute ⟨.none, comp, .always⟩) ∧
  event.address.toNat = event.after.pc.toNat + 1 ∧
  rom[event.after.pc.toNat]? = some (.load event.after.pc)

namespace State

section
variable {s t : State} {address : Word} {op : Operation}

/-- What a step that performs an operation has done. -/
theorem step_eq_some (h : s.step = (some (address, op), t)) :
    s.halted = false ∧ address = s.pc ∧ s.rom[s.pc.toNat]? = some op ∧ t = s.perform op := by
  unfold step at h
  split at h
  · cases h
  · rename_i op' hfetch
    cases h
    cases hlive : s.halted with
    | true => simp [fetch?, hlive] at hfetch
    | false => exact ⟨rfl, rfl, (fetch?_of_live hlive).symm.trans hfetch, rfl⟩

/-- What a step that performs nothing has done. -/
theorem step_eq_none (hlive : s.halted = false) (h : s.step = (none, t)) :
    s.rom.size ≤ s.pc.toNat ∧ t = { s with halted := true } := by
  unfold step at h
  split at h
  · rename_i hfetch
    cases h
    rw [fetch?_of_live hlive] at hfetch
    exact ⟨Array.getElem?_eq_none_iff.mp hfetch, rfl⟩
  · cases h

/-- **An operation halts the machine exactly if it is the jump of an idle
loop.** -/
theorem halted_iff_isIdleJump (hrom : s.rom.size ≤ romCapacity)
    (h : s.step = (some (address, op), t)) (time : Nat) :
    t.halted = true ↔ Event.IsIdleJump s.rom ⟨time, address, op, t⟩ := by
  obtain ⟨hlive, rfl, hop, rfl⟩ := step_eq_some h
  constructor
  · intro hhalted
    obtain ⟨hloop, hpc⟩ := idleLoop_of_halted_perform hlive hop hhalted
    obtain ⟨comp, hjump⟩ := hloop.jump
    rw [hpc, hjump] at hop
    cases hop
    have hafter : (s.perform (.compute ⟨.none, comp, .always⟩)).pc = s.a := by
      rw [perform, calculate_always]
    -- The load is inside the program, so its address is not the highest one.
    have hlt : s.a.toNat < s.rom.size := (Array.getElem?_eq_some_iff.mp hloop.load).1
    have hnext : (s.a + 1).toNat = s.a.toNat + 1 := by
      rw [UInt16.toNat_add]
      exact Nat.mod_eq_of_lt (Nat.lt_of_le_of_lt (Nat.le_trans hlt hrom) (by decide))
    refine ⟨⟨comp, rfl⟩, ?_, ?_⟩
    · rw [hafter, hpc, hnext]
    · rw [hafter]
      exact hloop.load
  · rintro ⟨⟨comp, hcomp⟩, haddress, hload⟩
    obtain rfl : op = .compute ⟨.none, comp, .always⟩ := hcomp
    simp only [perform, calculate_always] at haddress hload ⊢
    have hpc : s.a + 1 = s.pc := by
      rw [← UInt16.toNat_inj, UInt16.toNat_add, ← Nat.mod_eq_of_lt s.pc.toNat_lt, haddress]
      rfl
    simp [isIdle, hpc, hload]

end

/-- **The flag after a run**, from any state that goes on. The last event
decides it, or the attempt to perform an operation behind the program. -/
theorem halted_run_iff_of_live {s : State} (hrom : s.rom.size ≤ romCapacity)
    (hlive : s.halted = false) (time limit : Nat) :
    (s.run limit).2.halted = true ↔
      (∃ event ∈ (s.eventsFrom time limit).getLast?, event.IsIdleJump s.rom) ∨
      s.rom.size ≤ (s.run limit).2.pc.toNat ∧ (s.run limit).1 < limit := by
  induction limit generalizing time s with
  | zero => simp [eventsFrom, hlive]
  | succ limit ih =>
      rcases hstep : s.step with ⟨_ | ⟨address, op⟩, t⟩
      · obtain ⟨houtside, rfl⟩ := step_eq_none hlive hstep
        rw [run_succ_of_none hstep]
        exact iff_of_true rfl (.inr ⟨houtside, Nat.succ_pos limit⟩)
      · have hidle := halted_iff_isIdleJump hrom hstep time
        cases ht : t.halted with
        | true =>
            rw [run_succ_of_halt hstep ht, eventsFrom_succ_of_halt time limit hstep ht]
            exact iff_of_true ht (.inl ⟨_, rfl, hidle.mp ht⟩)
        | false =>
            have hsame : t.rom = s.rom := by
              rw [← step_rom s, hstep]
            have hrest := ih (hsame ▸ hrom) ht (time + 1)
            rw [hsame] at hrest
            rw [run_succ_of_live hstep ht, eventsFrom_succ_of_live time limit hstep ht, hrest,
              List.getLast?_cons, Nat.add_comm 1, Nat.add_lt_add_iff_right]
            -- This event is the last one only if no other follows, and then it is no idle jump.
            have hnot : ¬Event.IsIdleJump s.rom ⟨time, address, op, t⟩ := by
              rw [← hidle, ht]
              exact Bool.false_ne_true
            cases (t.eventsFrom (time + 1) limit).getLast? with
            | none => simp [hnot]
            | some event => simp

/-- **The flag after a run from the start** is set exactly if the last
operation was the jump of an idle loop, or the program counter is outside the
program and the run has not used up its limit. A machine that leaves its
program with the last step of its limit has not noticed it yet. -/
theorem halted_run_iff {rom : Array Operation} (h : Loadable rom) (limit : Nat) :
    ((start rom).run limit).2.halted = true ↔
      (∃ event ∈ ((start rom).eventsFrom 0 limit).getLast?, event.IsIdleJump rom) ∨
      rom.size ≤ ((start rom).run limit).2.pc.toNat ∧ ((start rom).run limit).1 < limit :=
  halted_run_iff_of_live h.size_le rfl 0 limit

/-- An idle loop and nothing else. -/
def idlingRom : Array Operation :=
  #[.load 0, .compute ⟨.none, .zero, .always⟩]

/-- The program halts, and its last event is the idle jump. -/
theorem halted_run_of_idlingRom :
    Loadable idlingRom ∧ ((start idlingRom).run 100).2.halted = true ∧
    ∃ event ∈ ((start idlingRom).eventsFrom 0 100).getLast?, event.IsIdleJump idlingRom := by
  have hread : Image.read "0000000000000000\n1110101010000111\n".toList = .ok idlingRom := rfl
  have hload : Loadable idlingRom := .image hread
  have hhalted : ((start idlingRom).run 100).2.halted = true := rfl
  rcases (halted_run_iff hload 100).mp hhalted with hidle | ⟨houtside, -⟩
  · exact ⟨hload, hhalted, hidle⟩
  · -- The jump has gone back to the load.
    exact absurd houtside (by decide)

/-- **A machine can stand outside its program and not be reported as
halted**: the limit was used up with the last operation. -/
theorem unreported_at_limit :
    Loadable leavingRom ∧ leavingRom.size ≤ ((start leavingRom).run 2).2.pc.toNat ∧
    ((start leavingRom).run 2).2.halted = false ∧ ((start leavingRom).run 3).2.halted = true := by
  have hread : Image.read "0000000000000111\n1110110000010000\n".toList = .ok leavingRom := rfl
  exact ⟨.image hread, by decide, rfl, rfl⟩

end State

end HackComputer.Machine
