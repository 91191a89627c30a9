import HackComputer.Machine.State

/-!
# `HackComputer.Machine.Hook`: runs with something attached to them

A hook is asked before a run and after every step of it. It is told the
time, the address and the operation, and the machine itself goes through
its hands: the run goes on with the machine that the hook gives back.
What a hook keeps from one step to the next, and what it shows, is a
value of a type `σ` of its own.

* `State.runHooked`: a run with a hook.
* `State.runObserved`: a run with a hook that only looks on.
-/

set_option autoImplicit false

namespace HackComputer.Machine

open Isa

/-- What is attached to a run. -/
structure Hook (σ : Type) where
  /-- Before the first step. -/
  init : σ → State → σ × State
  /-- After a step: its time, its address and its operation, and the
  machine after it. -/
  exec : σ → Nat → Word → Operation → State → σ × State

namespace Hook

variable {σ : Type}

/-- What the hook keeps of a step. -/
def observe (hook : Hook σ) (seen : σ) (time : Nat) (address : Word) (op : Operation)
    (s : State) : σ :=
  (hook.exec seen time address op s).1

/-- A hook that looks at every step and gives the machine back as it
is. -/
def observer (observe : σ → Nat → Word → Operation → State → σ) : Hook σ where
  init seen s := (seen, s)
  exec seen time address op s := (observe seen time address op s, s)

end Hook

namespace State

variable {σ : Type}

/-- Runs for at most `limit` more steps, the first of which is at `time`.
The number of steps is kept apart from the time: `steps` have been done,
and a step at some time is the one with the next number. Yields what the
hook keeps, the number of steps and the machine afterwards. -/
def runHooked (hook : Hook σ) (steps time : Nat) (seen : σ) : Nat → State → σ × Nat × State
  | 0, s => (seen, steps, s)
  | limit + 1, s =>
      match s.step with
      | (none, s) => (seen, steps, s)
      | (some (address, op), s) =>
          let steps := time + 1
          let (seen, s) := hook.exec seen time address op s
          if s.halted then (seen, steps, s)
          else runHooked hook steps (time + 1) seen limit s

/-- Runs until the machine halts, but for at most `limit` steps, the
first of which is at `time`, and hands every step to an observer. Yields
what was observed, the time afterwards and the machine. -/
def runObserved (observe : σ → Nat → Word → Operation → State → σ) (time : Nat) (seen : σ)
    (limit : Nat) (s : State) : σ × Nat × State :=
  s.runHooked (.observer observe) time time seen limit

end State

end HackComputer.Machine
