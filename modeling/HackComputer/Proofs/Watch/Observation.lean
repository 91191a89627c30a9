import HackComputer.Proofs.Machine.Run
import HackComputer.Watch.Trace

/-!
# `HackComputer.Proofs.Watch.Observation`: a watched run is the run

There are two loops that run the machine. `State.run` only counts its
steps. `State.runHooked` keeps the number of steps apart from the time, and
after every step it puts the machine into the hands of a hook and goes on
with what comes back. A hook could change the machine, and so it is worth a
proof that one which gives it back as it is sees every step once and changes
nothing, not even the count.

`State.eventsFrom` lists what a hook is told. It says nothing about any hook,
and so the run with a passive hook falls into two parts that have nothing to
do with each other: the plain run, and the hook fed with the events.

* `runHooked_eq`: these two parts.
* `length_eventsFrom`, `getElem?_eventsFrom`: there is one event for every
  step of the plain run, with the operation that this step performs.
* `Watcher.run_transparent`: the same for a watcher, whatever it shows, and
  for any other observer.
-/

set_option autoImplicit false

namespace HackComputer.Machine

open Isa

/-- A hook that gives back every machine that it is given. -/
def Hook.IsPassive {σ : Type} (hook : Hook σ) : Prop :=
  ∀ seen time address op s, (hook.exec seen time address op s).2 = s

/-- An observer has no hand in the machine. -/
theorem Hook.isPassive_observer {σ : Type}
    (observe : σ → Nat → Word → Operation → State → σ) : (Hook.observer observe).IsPassive :=
  fun _ _ _ _ _ => rfl

/-- After a step, all that a passive hook changes is what it keeps. -/
theorem Hook.IsPassive.exec_eq {σ : Type} {hook : Hook σ} (h : hook.IsPassive) (seen : σ)
    (time : Nat) (address : Word) (op : Operation) (s : State) :
    hook.exec seen time address op s = (hook.observe seen time address op s, s) :=
  Prod.ext rfl (h seen time address op s)

/-- One performed operation, as an observer is told of it. -/
structure Event where
  time : Nat
  address : Word
  op : Operation
  /-- The machine afterwards. -/
  after : State

/-- An observer is told of an event. -/
def Event.feed {σ : Type} (observe : σ → Nat → Word → Operation → State → σ) (seen : σ)
    (event : Event) : σ :=
  observe seen event.time event.address event.op event.after

namespace State

/-- The events of a run of at most `limit` steps, the first of which is at
`time`. -/
def eventsFrom (time : Nat) : Nat → State → List Event
  | 0, _ => []
  | limit + 1, s =>
      match s.step with
      | (none, _) => []
      | (some (address, op), t) =>
          ⟨time, address, op, t⟩ :: if t.halted then [] else eventsFrom (time + 1) limit t

/-! ### The first step of a run with a hook -/

section
variable {s t : State} {address : Word} {op : Operation} (time limit : Nat)

/-- Where no operation is performed there is no event. -/
theorem eventsFrom_succ_of_none (h : s.step = (none, t)) :
    s.eventsFrom time (limit + 1) = [] := by
  simp only [eventsFrom, h]

/-- A step after which the machine has halted is the last event. -/
theorem eventsFrom_succ_of_halt (h : s.step = (some (address, op), t)) (ht : t.halted = true) :
    s.eventsFrom time (limit + 1) = [⟨time, address, op, t⟩] := by
  simp only [eventsFrom, h, ht, if_true]

/-- After any other step the events go on, one time later. -/
theorem eventsFrom_succ_of_live (h : s.step = (some (address, op), t)) (ht : t.halted = false) :
    s.eventsFrom time (limit + 1)
      = ⟨time, address, op, t⟩ :: t.eventsFrom (time + 1) limit := by
  simp only [eventsFrom, h, ht, Bool.false_eq_true, if_false]

end

/-! ### Whole runs -/

/-- **A run with a passive hook is the plain run, and the hook is fed with
its events.** -/
theorem runHooked_eq {σ : Type} {hook : Hook σ} (h : hook.IsPassive) (time : Nat) (seen : σ)
    (limit : Nat) (s : State) :
    s.runHooked hook time time seen limit
      = ((s.eventsFrom time limit).foldl (Event.feed hook.observe) seen,
          time + (s.run limit).1, (s.run limit).2) := by
  -- Whenever the loop begins a round, as many steps have been done as the time says:
  -- this is why one variable stands in both places.
  induction limit generalizing time seen s with
  | zero => rfl
  | succ limit ih =>
      rcases hstep : s.step with ⟨_ | ⟨address, op⟩, t⟩
      · rw [run_succ_of_none hstep, eventsFrom_succ_of_none time limit hstep]
        simp only [runHooked, hstep]
        rfl
      · cases ht : t.halted with
        | true =>
            rw [run_succ_of_halt hstep ht, eventsFrom_succ_of_halt time limit hstep ht]
            simp only [runHooked, hstep, h.exec_eq, ht, if_true]
            rfl
        | false =>
            rw [run_succ_of_live hstep ht, eventsFrom_succ_of_live time limit hstep ht]
            simp only [runHooked, hstep, h.exec_eq, ht, Bool.false_eq_true, if_false, ih,
              Nat.add_assoc]
            rfl

/-- Every step of the run is an event. -/
theorem length_eventsFrom (time limit : Nat) (s : State) :
    (s.eventsFrom time limit).length = (s.run limit).1 := by
  induction limit generalizing time s with
  | zero => rfl
  | succ limit ih =>
      rcases hstep : s.step with ⟨_ | ⟨address, op⟩, t⟩
      · rw [run_succ_of_none hstep, eventsFrom_succ_of_none time limit hstep]
        rfl
      · cases ht : t.halted with
        | true =>
            rw [run_succ_of_halt hstep ht, eventsFrom_succ_of_halt time limit hstep ht]
            rfl
        | false =>
            rw [run_succ_of_live hstep ht, eventsFrom_succ_of_live time limit hstep ht,
              List.length_cons, ih, Nat.add_comm]

/-- An event is the step that the machine performs at its time, from where
the run has come by then. -/
theorem getElem?_eventsFrom {time limit k : Nat} {s : State} {event : Event}
    (h : (s.eventsFrom time limit)[k]? = some event) :
    event.time = time + k ∧
    (s.run k).2.step = (some (event.address, event.op), event.after) := by
  induction limit generalizing time k s with
  | zero => simp [eventsFrom] at h
  | succ limit ih =>
      rcases hstep : s.step with ⟨_ | ⟨address, op⟩, t⟩
      · simp [eventsFrom_succ_of_none time limit hstep] at h
      · cases k with
        | zero =>
            -- The first event is the step itself, whether the run goes on or not.
            have hevent : (⟨time, address, op, t⟩ : Event) = event := by
              simpa [eventsFrom, hstep] using h
            rw [← hevent]
            exact ⟨rfl, hstep⟩
        | succ k =>
            cases ht : t.halted with
            | true => simp [eventsFrom_succ_of_halt time limit hstep ht] at h
            | false =>
                rw [eventsFrom_succ_of_live time limit hstep ht, List.getElem?_cons_succ] at h
                obtain ⟨htime, hafter⟩ := ih h
                rw [run_succ_of_live hstep ht]
                exact ⟨by omega, hafter⟩

end State

end HackComputer.Machine

namespace HackComputer.Watch.Watcher

open Isa Machine

/-- A watcher only looks on. -/
theorem isPassive_hook (w : Watcher) : w.hook.IsPassive :=
  fun _ _ _ _ _ => rfl

/-- **Watching a run does not change it.** For any machine, watcher and limit
the watched run ends in the state of the plain run and after as many steps.
What is shown is put together from one text for each of these steps: the
`k`-th is for time `k`, the operation that the machine performs then with its
address, and the machine right after it. Any other observer in place of the
watcher is told exactly the same. Before the run the watcher announces itself
and leaves the machine alone. -/
theorem run_transparent (w : Watcher) (limit : Nat) (s : State) :
    (∃ events : List Event,
      events.length = (s.run limit).1 ∧
      (∀ k event, events[k]? = some event → event.time = k ∧
        (s.run k).2.step = (some (event.address, event.op), event.after)) ∧
      w.run limit s = (String.join (events.map fun event =>
        w.afterStep event.time event.address event.op event.after), s.run limit) ∧
      ∀ {σ : Type} (observe : σ → Nat → Word → Operation → State → σ) (seen : σ),
        s.runObserved observe 0 seen limit
          = (events.foldl (Event.feed observe) seen, s.run limit)) ∧
    ∀ shown, w.hook.init shown s = (shown ++ w.announcement, s) := by
  have hpassive {σ : Type} {hook : Hook σ} (h : hook.IsPassive) (seen : σ) :
      s.runHooked hook 0 0 seen limit
        = ((s.eventsFrom 0 limit).foldl (Event.feed hook.observe) seen, s.run limit) := by
    rw [State.runHooked_eq h, Nat.zero_add]
  refine ⟨⟨s.eventsFrom 0 limit, State.length_eventsFrom 0 limit s, ?_, ?_, ?_⟩, fun _ => rfl⟩
  · intro k event hevent
    obtain ⟨htime, hstep⟩ := State.getElem?_eventsFrom hevent
    exact ⟨htime.trans (Nat.zero_add k), hstep⟩
  · rw [run, hpassive (isPassive_hook w), String.join, List.foldl_map]
    rfl
  · intro σ observe seen
    exact hpassive (Hook.isPassive_observer observe) seen

end HackComputer.Watch.Watcher
