import HackComputer.Proofs.Machine.Halting
import Mathlib.Data.ENat.Lattice
import Mathlib.Data.Nat.Count
import Mathlib.Data.Set.Card

/-!
# `HackComputer.Proofs.Machine.Budget`: what a limit on the steps buys

A run stops for one of three reasons: its limit is used up, the machine has
taken the jump of an idle loop, or there is no operation left. The last two
set the flag of a halted machine at different moments, one with the last
operation and the other at the next attempt, so it is not obvious that a run
can be cut anywhere.

Single steps do not know a limit. `State.stepped` is the machine after a
number of them, and `State.Performs` says which of them perform an operation.
A run is described by these two alone:

* `run_eq_stepped`: a run with a limit is as many single steps, and its count
  is the number of those that perform an operation.
* `Performs.of_le`: the steps that perform an operation come first.
* `count_run`: so a run performs all there is to perform, up to its limit.
* `halted_after`: nothing that a halted machine is asked to do revives it.
* `run_composes`: runs compose.
-/

set_option autoImplicit false

namespace HackComputer.Machine

open Isa

namespace State

/-- The machine after `n` single steps. -/
def stepped (s : State) : Nat → State
  | 0 => s
  | n + 1 => (s.stepped n).step.2

/-- The single step behind `k` others performs an operation. -/
def Performs (s : State) (k : Nat) : Prop :=
  (s.stepped k).step.1.isSome = true

/-- Whether a step performs an operation is found by doing it. -/
instance (s : State) : DecidablePred s.Performs :=
  fun k => inferInstanceAs (Decidable ((s.stepped k).step.1.isSome = true))

/-! ### Runs as single steps -/

/-- A run of at most one step is a step. -/
theorem run_one (s : State) : s.run 1 = (if s.step.1.isSome then 1 else 0, s.step.2) := by
  rcases hstep : s.step with ⟨_ | p, t⟩
  · exact run_succ_of_none hstep 0
  · cases ht : t.halted with
    | true => exact run_succ_of_halt hstep ht 0
    | false => exact run_succ_of_live hstep ht 0

/-- **A run is as many single steps as its limit allows**, and it counts
those that perform an operation. After a halt the single steps go on, but
neither the machine nor the count changes any more. -/
theorem run_eq_stepped (s : State) (limit : Nat) :
    s.run limit = (Nat.count s.Performs limit, s.stepped limit) := by
  induction limit with
  | zero => rw [run_zero, Nat.count_zero]; rfl
  | succ limit ih =>
      -- A run can be cut before its last step.
      rw [run_add, ih, run_one, Nat.count_succ]
      rfl

/-- Behind a step that performs nothing the machine has halted, and the next
step performs nothing either. -/
theorem Performs.of_succ {s : State} {k : Nat} (h : s.Performs (k + 1)) : s.Performs k := by
  rcases hstep : (s.stepped k).step with ⟨_ | p, t⟩
  · have hnone : t.step = (none, t) := step_of_halted (halted_of_step_none hstep)
    have hsome : t.step.1.isSome = true := by
      have hnext : s.stepped (k + 1) = t := congrArg Prod.snd hstep
      rw [← hnext]
      exact h
    rw [hnone] at hsome
    cases hsome
  · show (s.stepped k).step.1.isSome = true
    rw [hstep]
    rfl

/-- The steps that perform an operation come first. -/
theorem Performs.of_le {s : State} {j k : Nat} (h : s.Performs k) (hle : j ≤ k) :
    s.Performs j := by
  induction hle with
  | refl => exact h
  | step _ ih => exact ih h.of_succ

/-! ### Counting -/

/-- If the numbers with a property come first, those below a bound are all of
them, or as many as the bound. -/
theorem natCast_count_eq_min {p : Nat → Prop} [DecidablePred p]
    (hfirst : ∀ {j k}, p k → j ≤ k → p j) (n : Nat) :
    (Nat.count p n : ℕ∞) = min (n : ℕ∞) {k | p k}.encard := by
  have hbelow : ((Finset.range n).filter p : Set Nat) ⊆ {k | p k} := by
    intro k hk
    exact (Finset.mem_filter.mp hk).2
  have hcard : (Nat.count p n : ℕ∞) = ((Finset.range n).filter p : Set Nat).encard := by
    rw [Set.encard_coe_eq_coe_finsetCard, Nat.count_eq_card_filter_range]
  by_cases hall : p n
  · -- Everything below the bound has the property.
    have hcount : Nat.count p n = n :=
      Nat.count_iff_forall.mpr fun k hk => hfirst hall (Nat.le_of_lt hk)
    rw [min_eq_left, hcount]
    rw [← hcount, hcard]
    exact Set.encard_le_encard hbelow
  · -- Nothing from the bound on has it.
    have hset : ((Finset.range n).filter p : Set Nat) = {k | p k} := by
      refine Set.Subset.antisymm hbelow fun k hk => ?_
      have hlt : k < n := Nat.lt_of_not_le fun hle => hall (hfirst hk hle)
      exact Finset.mem_filter.mpr ⟨Finset.mem_range.mpr hlt, hk⟩
    rw [hcard, hset, min_eq_right]
    rw [← hset, ← hcard]
    exact_mod_cast Nat.count_le p

/-- **A run performs all there is to perform, up to its limit.** -/
theorem count_run (s : State) (limit : Nat) :
    ((s.run limit).1 : ℕ∞) = min (limit : ℕ∞) {k | s.Performs k}.encard := by
  rw [run_eq_stepped]
  exact natCast_count_eq_min Performs.of_le limit

/-! ### After a halt -/

/-- Filling memory leaves the flag alone. -/
theorem halted_fillFrom (first value : Word) (count : Nat) (s : State) :
    (fillFrom first value count s).halted = s.halted := by
  induction count generalizing first s with
  | zero => rfl
  | succ count ih => exact ih (first + 1) (s.write first value)

/-- Nothing that a halted machine is asked to do revives it. -/
theorem halted_call {s : State} (h : s.halted = true) (c : Call) : (s.call c).halted = true := by
  cases c with
  | exec => rw [call, step_of_halted h]; exact h
  | run limit => rw [call, run_of_halted h]; exact h
  | set address value => exact h
  | fill first bound value => rw [call, fill, halted_fillFrom]; exact h

/-- Nor does a sequence of requests. -/
theorem halted_after {s : State} (h : s.halted = true) (calls : List Call) :
    (s.after calls).halted = true := by
  induction calls generalizing s with
  | nil => exact h
  | cons c calls ih => exact ih (halted_call h c)

/-- **Runs compose.** A run may be cut anywhere: the two parts end where the
whole does, and their counts add up. A run is as many single steps, and it
performs all there is to perform up to its limit. Once the machine has halted,
whatever it was asked to do since then, no step and no run performs anything,
and all of the machine stays as it is. -/
theorem run_composes (s : State) :
    (∀ m n, s.run (m + n)
      = ((s.run m).1 + ((s.run m).2.run n).1, ((s.run m).2.run n).2)) ∧
    (∀ limit, (s.run limit).2 = s.stepped limit ∧
      ((s.run limit).1 : ℕ∞) = min (limit : ℕ∞) {k | s.Performs k}.encard) ∧
    (s.halted = true → ∀ calls : List Call,
      (s.after calls).step = (none, s.after calls) ∧
      ∀ limit, (s.after calls).run limit = (0, s.after calls)) := by
  refine ⟨fun m n => run_add m n s, fun limit => ⟨?_, count_run s limit⟩, ?_⟩
  · rw [run_eq_stepped]
  · intro hhalted calls
    have hafter := halted_after hhalted calls
    exact ⟨step_of_halted hafter, run_of_halted hafter⟩

/-- Two operations and nothing behind them. -/
def leavingRom : Array Operation :=
  #[.load 7, .compute ⟨⟨false, true, false⟩, .y .a, .never⟩]

/-- Two steps use up the program, and only the next attempt sets the flag. -/
theorem run_composes_of_leavingRom :
    ((start leavingRom).run 2).1 = 2 ∧ ((start leavingRom).run 2).2.halted = false ∧
    let s := ((start leavingRom).run 3).2
    let t := s.after [.set 0 5, .exec]
    s.halted = true ∧ t.step = (none, t) ∧ ∀ limit, s.run limit = (0, s) := by
  have hhalted : ((start leavingRom).run 3).2.halted = true := rfl
  have hstays := (run_composes ((start leavingRom).run 3).2).2.2 hhalted
  exact ⟨rfl, rfl, hhalted, (hstays [.set 0 5, .exec]).1, (hstays []).2⟩

end State

end HackComputer.Machine
