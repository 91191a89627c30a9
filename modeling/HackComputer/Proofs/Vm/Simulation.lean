import HackComputer.Proofs.Vm.Blocks
import HackComputer.Proofs.Vm.Placement

/-!
# `HackComputer.Proofs.Vm.Simulation`: compiled programs do what commands say

The processor runs the code of a program, the stack machine runs its
commands. This file shows that the two go together, from any entry and
any content of data memory:

* whatever the stack machine reaches, the processor reaches
  (`run_forward`), and
* whatever the processor does, it is on its way to something that the
  stack machine reaches (`run_backward`).

`Outcome` says once what can happen at an entry, and `Placed.outcome`
that one of its cases always does; both directions are inductions over
it. Three cases keep them from being step for step the same:

* Labels and functions without local variables have no code. The stack
  machine takes a step there and the processor none. The entries left
  behind such a step become fewer, and that bounds the induction.
* A jump to the place where it stands is an idle loop. The processor
  halts there, and the stack machine goes round for ever without doing
  anything (`Idles`).
* A return takes its address from memory. If no entry starts there, the
  stack machine is stuck and the processor goes on somewhere else
  (`Lost`).
-/

set_option autoImplicit false

namespace HackComputer.Vm

open Isa Machine Assembly Code

namespace StackMachine

variable (m : StackMachine)

/-- The stack machine goes round for ever: it changes nothing and does
not leave its address. -/
def Idles (c : Config) : Prop :=
  ∀ n, ∃ c', m.run n c = some c' ∧ m.address c'.entry = m.address c.entry ∧ c'.ram = c.ram

/-- The next command is a return to a place where no entry starts. -/
def Lost (c : Config) : Prop :=
  (∃ context row text, m.origins[c.entry]? = some (.line context ⟨row, text, .ret⟩)) ∧
  m.entryAt? (c.ram.ret.reg .r15) = none

/-- The processor is where the stack machine is and has the same memory.
It has halted only at the end of the program or in an idle loop. -/
structure Agrees (c : Config) (s : State) : Prop where
  pc : s.pc.toNat = m.address c.entry
  ram : s.ram = c.ram
  halted : s.halted = true → c.entry = m.origins.length ∨ m.Idles c

/-- The processor has followed a lost return. -/
structure Strays (c : Config) (s : State) : Prop where
  lost : m.Lost c
  pc : s.pc = c.ram.ret.reg .r15
  ram : s.ram = c.ram.ret

/-! ### Runs of the stack machine -/

/-- A run may be interrupted and taken up again. -/
theorem run_add (k n : Nat) (c : Config) : m.run (k + n) c = (m.run k c).bind (m.run n) := by
  induction k generalizing c with
  | zero => rw [Nat.zero_add]; rfl
  | succ k ih =>
      rw [Nat.add_right_comm]
      show (m.step c).bind (m.run (k + n)) = ((m.step c).bind (m.run k)).bind (m.run n)
      rw [Option.bind_assoc]
      exact congrArg _ (funext ih)

/-- One step and then the others. -/
theorem run_succ {c c' : Config} (h : m.step c = some c') (n : Nat) :
    m.run (n + 1) c = m.run n c' := by
  show (m.step c).bind (m.run n) = _
  rw [h]
  rfl

/-- A step that is not the last one of a run. -/
theorem exists_step {c c' : Config} {n : Nat} (h : m.run (n + 1) c = some c') :
    ∃ c₁, m.step c = some c₁ ∧ m.run n c₁ = some c' :=
  Option.bind_eq_some_iff.mp h

/-- The entry at an address is an entry, and has that address. -/
theorem entryAt?_eq_some {address : Word} {i : Nat} (h : m.entryAt? address = some i) :
    i ≤ m.origins.length ∧ m.address i = address.toNat := by
  have hmem := List.mem_of_find?_eq_some h
  have hsome := List.find?_some h
  exact ⟨Nat.le_of_lt_succ (List.mem_range.mp hmem), by simpa using hsome⟩

/-- A step ends at an entry, or behind the last one. -/
theorem entry_le_of_step {c c' : Config} (h : m.step c = some c') :
    c'.entry ≤ m.origins.length := by
  obtain ⟨o, ho, hperform⟩ := Option.bind_eq_some_iff.mp h
  -- The next entry is that of the step, the following one, or one that a search has found.
  have hnext : c.entry + 1 ≤ m.origins.length := (List.getElem?_eq_some_iff.mp ho).1
  have hfound : ∀ {declares : Origin → Bool} {i : Nat},
      m.origins.findIdx? declares = some i → i ≤ m.origins.length := fun hi =>
    Nat.le_of_lt (List.findIdx?_eq_some_iff_getElem.mp hi).1
  cases o with
  | start entryPoint =>
      obtain ⟨i, hi, rfl⟩ := Option.map_eq_some_iff.mp hperform
      exact hfound hi
  | line context l =>
      obtain ⟨row, text, command⟩ := l
      cases command with
      | arithmetic | push | label | function =>
          cases hperform
          exact hnext
      | pop segment index =>
          obtain ⟨place, -, rfl⟩ := Option.map_eq_some_iff.mp hperform
          exact hnext
      | goto target =>
          obtain ⟨i, hi, rfl⟩ := Option.map_eq_some_iff.mp hperform
          exact hfound hi
      | ifGoto target =>
          by_cases hzero : c.ram.drop.top = 0
          · have hpast : some ⟨c.entry + 1, c.ram.drop⟩ = some c' :=
              (if_pos hzero).symm.trans hperform
            cases hpast
            exact hnext
          · have hjump : (Origin.labelPlace? m.origins context target).map (⟨·, c.ram.drop⟩)
                = some c' := (if_neg hzero).symm.trans hperform
            obtain ⟨i, hi, rfl⟩ := Option.map_eq_some_iff.mp hjump
            exact hfound hi
      | call name arguments =>
          obtain ⟨i, hi, rfl⟩ := Option.map_eq_some_iff.mp hperform
          exact hfound hi
      | ret =>
          obtain ⟨i, hi, rfl⟩ := Option.map_eq_some_iff.mp hperform
          exact (m.entryAt?_eq_some hi).1

/-- A run ends at an entry, or behind the last one. -/
theorem entry_le_of_run {c c' : Config} {n : Nat} (hentry : c.entry ≤ m.origins.length)
    (h : m.run n c = some c') : c'.entry ≤ m.origins.length := by
  induction n generalizing c with
  | zero =>
      cases h
      exact hentry
  | succ n ih =>
      obtain ⟨c₁, hstep, hrest⟩ := m.exists_step h
      exact ih (m.entry_le_of_step hstep) hrest

/-- Behind the last entry there is no step. -/
theorem step_of_finished {c : Config} (h : c.entry = m.origins.length) : m.step c = none := by
  rw [step, List.getElem?_eq_none (Nat.le_of_eq h.symm)]
  rfl

/-- A return goes to the entry at its return address. -/
theorem step_ret {c : Config} {context : Context} {row : Nat} {text : String}
    (h : m.origins[c.entry]? = some (.line context ⟨row, text, .ret⟩)) :
    m.step c = (m.entryAt? (c.ram.ret.reg .r15)).map (⟨·, c.ram.ret⟩) := by
  rw [step, h]
  rfl

/-- A lost return is no step. -/
theorem step_of_lost {c : Config} (h : m.Lost c) : m.step c = none := by
  obtain ⟨⟨context, row, text, ho⟩, hnone⟩ := h
  rw [m.step_ret ho, hnone]
  rfl

/-- Whatever is reached from an idle loop idles as well. -/
theorem Idles.run {c c' : Config} {n : Nat} (h : m.Idles c) (hrun : m.run n c = some c') :
    m.Idles c' ∧ m.address c'.entry = m.address c.entry ∧ c'.ram = c.ram := by
  have hsame : m.address c'.entry = m.address c.entry ∧ c'.ram = c.ram := by
    obtain ⟨c₁, hrun₁, haddress, hram⟩ := h n
    rw [hrun] at hrun₁
    cases hrun₁
    exact ⟨haddress, hram⟩
  refine ⟨?_, hsame⟩
  intro k
  obtain ⟨c₂, hrun₂, haddress, hram⟩ := h (n + k)
  rw [run_add, hrun] at hrun₂
  exact ⟨c₂, hrun₂, haddress.trans hsame.1.symm, hram.trans hsame.2.symm⟩

end StackMachine

/-! ### One entry -/

/-- What can happen at an entry to the stack machine and to the
processor. -/
inductive Outcome (m : StackMachine) (rom : Array Operation) (x : Data)
    (c : StackMachine.Config) : Prop
  /-- The program is at its end. -/
  | finished (hentry : c.entry = m.origins.length)
  /-- Both move on. -/
  | moved (c' : StackMachine.Config) (hstep : m.step c = some c')
      (hreaches : Reaches rom x (m.address c.entry) (m.address c'.entry) c'.ram)
  /-- The entry has no code. -/
  | passed (hstep : m.step c = some ⟨c.entry + 1, c.ram⟩) (hentry : c.entry < m.origins.length)
      (haddress : m.address (c.entry + 1) = m.address c.entry)
  /-- The entry is a jump to itself. -/
  | idle (c' : StackMachine.Config) (s : State) (hstep : m.step c = some c')
      (hidles : m.Idles c') (hrun : (x.state rom (m.address c.entry)).run 2 = (2, s))
      (hhalted : s.halted = true) (hpc : s.pc.toNat = m.address c'.entry) (hram : s.ram = c'.ram)
  /-- The return address is no entry's. -/
  | lost (hlost : m.Lost c)
      (hreaches : Reaches rom x (m.address c.entry) (c.ram.ret.reg .r15).toNat c.ram.ret)

/-- Code that takes no words is a label's or that of a function without
local variables. -/
theorem Origin.Compiles.silent {o : Origin} {supply supply' : LabelSupply} {lines : Lines}
    (h : o.Compiles supply lines supply') (hzero : romLength lines = 0) :
    ∃ context row text, (∃ name, o = .line context ⟨row, text, .label name⟩) ∨
      ∃ name, o = .line context ⟨row, text, .function name 0⟩ := by
  cases h with
  | arithmetic context row text op => cases op <;> cases hzero
  | push context row text segment index location hlocation =>
      rw [romLength_append] at hzero
      cases Nat.eq_zero_of_add_eq_zero_left hzero
  | pop context row text segment index location lines hlocation hlines =>
      rw [romLength_append] at hzero
      cases Nat.eq_zero_of_add_eq_zero_left hzero
  | label context row text name full hscope => exact ⟨context, row, text, .inl ⟨name, rfl⟩⟩
  | enter context row text name => exact ⟨context, row, text, .inr ⟨name, rfl⟩⟩
  | goto | ifGoto | function | call | ret | start => cases hzero

namespace Placed

variable {m : StackMachine} {code : Lines} {rom : Array Operation} {address : String → Word}

/-- The stack machine passes an entry without code. -/
theorem step_silent (hp : Placed m code rom address) {i : Nat} (hi : i < m.origins.length)
    (haddress : m.address (i + 1) = m.address i) (ram : Ram) :
    m.step ⟨i, ram⟩ = some ⟨i + 1, ram⟩ := by
  have ho := List.getElem?_eq_getElem hi
  obtain ⟨before, _, lines, _, hcompiles, -, hstart, hstop⟩ := hp.block i _ ho
  rw [hstart, hstop, romLength_append, Nat.add_eq_left] at haddress
  rw [StackMachine.step, ho]
  obtain ⟨context, row, text, ⟨name, hlabel⟩ | ⟨name, hfunction⟩⟩ := hcompiles.silent haddress
  · rw [hlabel]
    rfl
  · rw [hfunction]
    rfl

/-- Entries without code up to a jump back to the first of them are an
idle loop. -/
theorem idles_of_loop (hp : Placed m code rom address) {first last : Nat} {ram : Ram}
    (hle : first ≤ last) (hlast : last < m.origins.length)
    (haddress : m.address first = m.address last)
    (hback : m.step ⟨last, ram⟩ = some ⟨first, ram⟩) : m.Idles ⟨first, ram⟩ := by
  -- Between the two entries no address changes, wherever the loop is entered.
  have hgo : ∀ n i, first ≤ i → i ≤ last →
      ∃ j, m.run n ⟨i, ram⟩ = some ⟨j, ram⟩ ∧ first ≤ j ∧ j ≤ last := by
    intro n
    induction n with
    | zero => exact fun i hfirst hi => ⟨i, rfl, hfirst, hi⟩
    | succ n ih =>
        intro i hfirst hi
        rcases Nat.lt_or_eq_of_le hi with hlt | heq
        · have hlow := hp.address_le hfirst (by omega)
          have hmid := hp.address_le_succ (show i < m.origins.length by omega)
          have hhigh := hp.address_le (show i + 1 ≤ last from hlt) (by omega)
          have hstep := hp.step_silent (i := i) (by omega) (by omega) ram
          rw [m.run_succ hstep]
          exact ih (i + 1) (by omega) hlt
        · subst heq
          rw [m.run_succ hback]
          exact ih first (Nat.le_refl _) hle
  intro n
  obtain ⟨j, hrun, hfirst, hj⟩ := hgo n first (Nat.le_refl _) hle
  have hlow := hp.address_le hfirst (by omega)
  have hhigh := hp.address_le hj (by omega)
  exact ⟨⟨j, ram⟩, hrun, by show m.address j = m.address first; omega, rfl⟩

/-- A jump to a declared label. The one that goes right back to itself is
the idle loop. -/
theorem outcome_goto (hp : Placed m code rom address) {c : StackMachine.Config} {x : Data}
    (hx : x.ram = c.ram) {before : Lines} {full : String} {i : Nat}
    (hcode : before ++ [symbol full, jumpAlways] <+: code)
    (hstart : m.address c.entry = romLength before)
    (hstop : m.address (c.entry + 1) = romLength (before ++ [symbol full, jumpAlways]))
    (hentry : c.entry < m.origins.length) (hi : i < m.origins.length)
    (hfull : (address full).toNat = m.address i) (hstep : m.step c = some ⟨i, c.ram⟩) :
    Outcome m rom x c := by
  by_cases hhere : address full = (romLength before).toUInt16
  · have haddress : m.address i = m.address c.entry := by
      rw [← hfull, hhere, hstart, hp.loaded.toNat_romLength ((List.prefix_append _ _).trans hcode)]
    have hle : i ≤ c.entry := by
      -- The jump itself has two words, so nothing behind it is at its address.
      rcases Nat.lt_or_ge c.entry i with hlt | hge
      · have hbehind := hp.address_le (show c.entry + 1 ≤ i from hlt) (Nat.le_of_lt hi)
        rw [hstop, romLength_append, haddress, hstart] at hbehind
        exact absurd hbehind (Nat.not_le_of_lt (Nat.lt_add_of_pos_right (Nat.succ_pos 1)))
      · exact hge
    have hrun := run_goto_idle hp.loaded hcode hhere x
    rw [← hstart] at hrun
    refine .idle ⟨i, c.ram⟩ _ hstep (hp.idles_of_loop hle hentry haddress hstep) hrun rfl ?_ hx
    show (m.address c.entry).toUInt16.toNat = m.address i
    rw [hp.toNat_address (Nat.le_of_lt hentry), haddress]
  · have hreaches := reaches_goto hp.loaded hcode hhere x
    rw [hfull, ← hstart, hx] at hreaches
    exact .moved ⟨i, c.ram⟩ hstep hreaches

/-- A call goes to an entry, and no entry starts inside the code of the
call. -/
theorem function_far (hp : Placed m code rom address) {name : String} {i j : Nat}
    (hi : Origin.functionPlace? m.origins name = some i) (hj : j < m.origins.length) :
    (address (Frame.entry name)).toNat ≤ m.address j ∨
      m.address (j + 1) ≤ (address (Frame.entry name)).toNat := by
  obtain ⟨hlt, haddress⟩ := hp.function_toNat hi
  rw [haddress]
  rcases Nat.lt_or_ge j i with hbehind | hbefore
  · exact .inr (hp.address_le hbehind (Nat.le_of_lt hlt))
  · exact .inl (hp.address_le hbefore (Nat.le_of_lt hj))

/-- Some entry is found at the address of an entry. -/
theorem exists_entryAt? (hp : Placed m code rom address) {i : Nat} (hi : i ≤ m.origins.length) :
    ∃ j, m.entryAt? (m.address i).toUInt16 = some j := by
  refine Option.isSome_iff_exists.mp (List.find?_isSome.mpr ?_)
  refine ⟨i, List.mem_range.mpr (Nat.lt_succ_of_le hi), ?_⟩
  rw [hp.toNat_address hi]
  exact beq_self_eq_true _

/-- At a return the processor goes to the address that the frame holds,
whether an entry starts there or not. -/
theorem reaches_ret (hp : Placed m code rom address) {c : StackMachine.Config} {x : Data}
    (hx : x.ram = c.ram) {context : Context} {row : Nat} {text : String}
    (ho : m.origins[c.entry]? = some (.line context ⟨row, text, .ret⟩)) :
    Reaches rom x (m.address c.entry) (c.ram.ret.reg .r15).toNat c.ram.ret := by
  obtain ⟨before, supply, lines, supply', hcompiles, hcode, hstart, -⟩ := hp.block _ _ ho
  cases hcompiles
  rw [← hx, hstart]
  exact reaches_return hp.loaded hcode x

/-- A conditional jump to a declared label. It pops a word first, so it
never is an idle loop. -/
theorem outcome_ifGoto (hp : Placed m code rom address) {c : StackMachine.Config} {x : Data}
    (hx : x.ram = c.ram) {before : Lines} {full : String} {i : Nat}
    (hcode : before ++ (popD ++ [symbol full, jump .d ⟨true, false, true⟩]) <+: code)
    (hstart : m.address c.entry = romLength before)
    (hstop : m.address (c.entry + 1)
      = romLength (before ++ (popD ++ [symbol full, jump .d ⟨true, false, true⟩])))
    (hfull : (address full).toNat = m.address i)
    (hstep : m.step c = if c.ram.drop.top = 0 then some ⟨c.entry + 1, c.ram.drop⟩
      else some ⟨i, c.ram.drop⟩) :
    Outcome m rom x c := by
  have hreaches := reaches_ifGoto hp.loaded hcode x
  rw [hx, ← hstart, ← hstop, hfull] at hreaches
  by_cases hzero : c.ram.drop.top = 0
  · rw [if_pos hzero] at hreaches hstep
    exact .moved ⟨c.entry + 1, c.ram.drop⟩ hstep hreaches
  · rw [if_neg hzero] at hreaches hstep
    exact .moved ⟨i, c.ram.drop⟩ hstep hreaches

/-- A declared function is entered, by a call or at the start of the
machine. `enter` is what that does to memory, given the return address. -/
theorem outcome_enter (hp : Placed m code rom address) {c : StackMachine.Config} {x : Data}
    (hlt : c.entry < m.origins.length) {name label : String} (enter : Word → Ram)
    (htarget : (Origin.functionPlace? m.origins name).isSome)
    (hreturn : (address label).toNat = m.address (c.entry + 1))
    (hreaches : ((address (Frame.entry name)).toNat ≤ m.address c.entry ∨
        m.address (c.entry + 1) ≤ (address (Frame.entry name)).toNat) →
      Reaches rom x (m.address c.entry) (address (Frame.entry name)).toNat
        (enter (address label)))
    (hstep : m.step c = (Origin.functionPlace? m.origins name).map
      (⟨·, enter (m.address (c.entry + 1)).toUInt16⟩)) :
    Outcome m rom x c := by
  obtain ⟨i, hi⟩ := Option.isSome_iff_exists.mp htarget
  obtain ⟨-, hfull⟩ := hp.function_toNat hi
  have hthere := hreaches (hp.function_far hi hlt)
  rw [hfull, ← UInt16.ofNat_toNat (x := address label), hreturn] at hthere
  rw [hi] at hstep
  exact .moved ⟨i, _⟩ hstep hthere

/-- **What happens at an entry.** One case for each command; the case
says which piece of code stands there, and `Blocks` has run it. -/
theorem outcome (hp : Placed m code rom address) (hclosed : Origin.Closed m.origins)
    {c : StackMachine.Config} (hentry : c.entry ≤ m.origins.length) {x : Data}
    (hx : x.ram = c.ram) : Outcome m rom x c := by
  rcases Nat.eq_or_lt_of_le hentry with hend | hlt
  · exact .finished hend
  have ho := List.getElem?_eq_getElem hlt
  have hmem := List.getElem_mem hlt
  obtain ⟨before, supply, lines, supply', hcompiles, hcode, hstart, hstop⟩ := hp.block _ _ ho
  generalize m.origins[c.entry] = o at ho hmem hcompiles
  have hstep : m.step c = m.perform c o := by
    rw [StackMachine.step, ho]
    rfl
  -- Most commands end at the next entry.
  have hnext : ∀ ram, m.perform c o = some ⟨c.entry + 1, ram⟩ →
      Reaches rom x (romLength before) (romLength (before ++ lines)) ram → Outcome m rom x c := by
    intro ram hperform hreaches
    rw [← hstart, ← hstop] at hreaches
    exact .moved ⟨c.entry + 1, ram⟩ (hstep.trans hperform) hreaches
  cases hcompiles with
  | arithmetic context row text op =>
      refine hnext (op.act c.ram) rfl ?_
      rw [← hx]
      exact reaches_arithmetic hp.loaded op supply hcode x
  | push context row text segment index location hlocation =>
      refine hnext _ rfl ?_
      rw [hp.value_eq hlocation, ← hx]
      exact reaches_push hp.loaded hcode x
  | pop context row text segment index location lines hlocation hlines =>
      obtain ⟨place, hplace, hreaches⟩ := reaches_pop hp.loaded hlines hcode x
      rw [hx] at hplace hreaches
      refine hnext (c.ram.popTo place) ?_ hreaches
      show (m.cell? context.unit c.ram segment index).map _ = _
      rw [hp.cell_eq hlocation, hplace]
      rfl
  | label context row text name full hscope =>
      -- A label is a line of the assembly but not a word of the program.
      refine .passed hstep hlt ?_
      rw [hstop, hstart, romLength_append]
      rfl
  | goto context row text target full hscope =>
      obtain ⟨i, htarget⟩ := Option.isSome_iff_exists.mp (hclosed _ hmem)
      obtain ⟨hi, hfull⟩ := hp.label_toNat htarget hscope
      refine hp.outcome_goto hx hcode hstart hstop hlt hi hfull ?_
      rw [hstep]
      show (Origin.labelPlace? m.origins context target).map _ = _
      rw [htarget]
      rfl
  | ifGoto context row text target full hscope =>
      obtain ⟨i, htarget⟩ := Option.isSome_iff_exists.mp (hclosed _ hmem)
      obtain ⟨-, hfull⟩ := hp.label_toNat htarget hscope
      refine hp.outcome_ifGoto hx hcode hstart hstop hfull ?_
      rw [hstep]
      show (if c.ram.drop.top = 0 then _
        else (Origin.labelPlace? m.origins context target).map _) = _
      rw [htarget]
      rfl
  | enter context row text name =>
      refine .passed hstep hlt ?_
      rw [hstop, hstart, romLength_append]
      rfl
  | function context row text name locals hsome hsmall =>
      refine hnext (c.ram.zeroLocals locals) rfl ?_
      -- The label of the function stands in front of the loop.
      rw [← List.singleton_append] at hcode ⊢
      have hreaches := reaches_zeroLines hp.loaded (isPrefix_right hcode) hsome hsmall x
      rw [romLength_append before, List.append_assoc, hx] at hreaches
      exact hreaches
  | call context row text name arguments =>
      have hreturn := returnLabel_toNat hp.loaded hcode
      rw [← hstop] at hreturn
      refine hp.outcome_enter hlt (c.ram.call arguments) (hclosed _ hmem) hreturn ?_ hstep
      intro hfar
      rw [hstart, hstop] at hfar
      rw [hstart, ← hx]
      exact reaches_call hp.loaded hcode hfar x
  | ret context row text =>
      have hreaches := hp.reaches_ret hx ho
      cases hback : m.entryAt? (c.ram.ret.reg .r15) with
      | none => exact .lost ⟨⟨context, row, text, ho⟩, hback⟩ hreaches
      | some i =>
          obtain ⟨-, haddress⟩ := m.entryAt?_eq_some hback
          rw [← haddress] at hreaches
          refine .moved ⟨i, c.ram.ret⟩ ?_ hreaches
          rw [m.step_ret ho, hback]
          rfl
  | start entryPoint =>
      have hreturn := returnLabel_toNat hp.loaded (isPrefix_right hcode)
      rw [List.append_assoc, ← hstop] at hreturn
      refine hp.outcome_enter hlt ((c.ram.setReg .sp 256).call 0) (hclosed _ hmem) hreturn ?_ hstep
      intro hfar
      rw [hstart, hstop] at hfar
      rw [hstart, ← hx]
      exact reaches_bootstrap hp.loaded hcode hfar x

/-! ### Whole runs -/

/-- **What the stack machine reaches, the processor reaches.** It comes
there running, or it has halted before in an idle loop. The induction is
on the steps of the stack machine. -/
theorem run_forward (hp : Placed m code rom address) (hclosed : Origin.Closed m.origins) {n : Nat}
    {c c' : StackMachine.Config} (hentry : c.entry ≤ m.origins.length) {x : Data}
    (hx : x.ram = c.ram) (hrun : m.run n c = some c') :
    (∃ (t : Nat) (x' : Data), State.Steps t (x.state rom (m.address c.entry))
        (x'.state rom (m.address c'.entry)) ∧ x'.ram = c'.ram) ∨
      m.Idles c' ∧ ∃ t s, (x.state rom (m.address c.entry)).run t = (t, s) ∧
        s.pc.toNat = m.address c'.entry ∧ s.ram = c'.ram := by
  induction n generalizing c x with
  | zero =>
      cases hrun
      exact .inl ⟨0, x, State.Steps.refl rfl, hx⟩
  | succ n ih =>
      obtain ⟨c₁, hstep, hrest⟩ := m.exists_step hrun
      cases hp.outcome hclosed hentry hx with
      | finished hend =>
          rw [m.step_of_finished hend] at hstep
          cases hstep
      | moved c₂ hstep₂ hreaches =>
          cases hstep.symm.trans hstep₂
          obtain ⟨k, x₁, -, hsteps, hx₁⟩ := hreaches
          rcases ih (m.entry_le_of_step hstep) hx₁ hrest with
            ⟨t, x', hsteps', hx'⟩ | ⟨hidles, t, s, ht, hpc, hram⟩
          · exact .inl ⟨k + t, x', hsteps.trans hsteps', hx'⟩
          · refine .inr ⟨hidles, k + t, s, ?_, hpc, hram⟩
            rw [State.run_add, hsteps.run_eq, ht]
      | passed hstep₂ hlt haddress =>
          -- The processor stands at the next entry already.
          cases hstep.symm.trans hstep₂
          rw [← haddress]
          exact ih (m.entry_le_of_step hstep) hx hrest
      | idle c₂ s hstep₂ hidles hrun₂ hhalted hpc hram =>
          -- The processor has halted; the stack machine goes round for the other steps.
          cases hstep.symm.trans hstep₂
          obtain ⟨hidles', haddress, hsame⟩ := hidles.run m hrest
          exact .inr ⟨hidles', 2, s, hrun₂, hpc.trans haddress.symm, hram.trans hsame.symm⟩
      | lost hlost hreaches =>
          rw [m.step_of_lost hlost] at hstep
          cases hstep

/-- **What the processor does, the stack machine does.** At any time the
processor is on its way to a place that the stack machine reaches, unless
a return has led it to a place where no entry starts.

The induction is on the time that is left. Entries without code take no
time, so for one and the same time there is a second induction, on the
entries that are left. -/
theorem run_backward (hp : Placed m code rom address) (hclosed : Origin.Closed m.origins) (t : Nat)
    {c : StackMachine.Config} (hentry : c.entry ≤ m.origins.length) {x : Data}
    (hx : x.ram = c.ram) :
    ∃ n c', m.run n c = some c' ∧
      ((∃ k, m.Agrees c' ((x.state rom (m.address c.entry)).run (t + k)).2) ∨
        m.Lost c' ∧ ∃ (k : Nat) (x' : Data), State.Steps k (x.state rom (m.address c.entry))
          (x'.state rom (c'.ram.ret.reg .r15).toNat) ∧ x'.ram = c'.ram.ret) := by
  induction t using Nat.strongRecOn generalizing c x with
  | ind t ihtime =>
      induction hleft : m.origins.length - c.entry using Nat.strongRecOn generalizing c with
      | ind left ihleft =>
          have hpc : ((m.address c.entry).toUInt16).toNat = m.address c.entry :=
            hp.toNat_address hentry
          rcases Nat.eq_zero_or_pos t with rfl | hpos
          · refine ⟨0, c, rfl, .inl ⟨0, hpc, hx, ?_⟩⟩
            intro hhalted
            cases hhalted
          cases hp.outcome hclosed hentry hx with
          | finished hend =>
              obtain ⟨t, rfl⟩ := Nat.exists_eq_succ_of_ne_zero (Nat.ne_of_gt hpos)
              refine ⟨0, c, rfl, .inl ⟨0, ?_⟩⟩
              rw [hend, hp.address_length, Nat.succ_eq_add_one, Nat.add_zero,
                run_end hp.loaded.size_le]
              refine ⟨?_, hx, fun _ => .inl hend⟩
              rw [hend, hp.address_length] at hpc
              rw [hend, hp.address_length]
              exact hpc
          | moved c₁ hstep hreaches =>
              obtain ⟨k, x₁, hk, hsteps, hx₁⟩ := hreaches
              rcases Nat.lt_or_ge t k with hlt | hge
              · -- The code of this entry is still running.
                refine ⟨1, c₁, m.run_succ hstep 0, .inl ⟨k - t, ?_⟩⟩
                rw [Nat.add_sub_of_le (Nat.le_of_lt hlt), hsteps.run_eq]
                refine ⟨hp.toNat_address (m.entry_le_of_step hstep), hx₁, ?_⟩
                intro hhalted
                cases hhalted
              · -- It has run, in at least one step, so less time is left.
                obtain ⟨n, c', hrun, hend⟩ :=
                  ihtime (t - k) (by omega) (m.entry_le_of_step hstep) hx₁
                refine ⟨n + 1, c', (m.run_succ hstep n).trans hrun, ?_⟩
                rcases hend with ⟨j, hagrees⟩ | ⟨hlost, j, x', hsteps', hx'⟩
                · refine .inl ⟨j, ?_⟩
                  rw [show t + j = k + (t - k + j) by omega, State.run_add, hsteps.run_eq]
                  exact hagrees
                · exact .inr ⟨hlost, k + j, x', hsteps.trans hsteps', hx'⟩
          | passed hstep hlt haddress =>
              -- No time has passed, but one entry less is left.
              obtain ⟨n, c', hrun, hend⟩ := ihleft (m.origins.length - (c.entry + 1)) (by omega)
                (c := ⟨c.entry + 1, c.ram⟩) hlt hx rfl
              rw [haddress] at hend
              exact ⟨n + 1, c', (m.run_succ hstep n).trans hrun, hend⟩
          | idle c₁ s hstep hidles hrun hhalted hpc₁ hram =>
              -- The loop is two instructions, and whoever looks after one sees it at the second.
              refine ⟨1, c₁, m.run_succ hstep 0, .inl ⟨1, ?_⟩⟩
              rw [show t + 1 = 2 + (t - 1) by omega, State.run_add, hrun,
                State.run_of_halted hhalted]
              exact ⟨hpc₁, hram, fun _ => .inr hidles⟩
          | lost hlost hreaches =>
              obtain ⟨k, x₁, -, hsteps, hx₁⟩ := hreaches
              exact ⟨0, c, rfl, .inr ⟨hlost, k, x₁, hsteps, hx₁⟩⟩

/-- The stack machine is stuck only at the end of the program and at a
lost return, and the latter the processor follows. -/
theorem stuck (hp : Placed m code rom address) (hclosed : Origin.Closed m.origins) {n : Nat}
    {c c' : StackMachine.Config} (hentry : c.entry ≤ m.origins.length) {x : Data}
    (hx : x.ram = c.ram) (hrun : m.run n c = some c') (hnone : m.step c' = none) :
    c'.entry = m.origins.length ∨
      m.Lost c' ∧ ∃ (k : Nat) (x' : Data), State.Steps k (x.state rom (m.address c.entry))
        (x'.state rom (c'.ram.ret.reg .r15).toNat) ∧ x'.ram = c'.ram.ret := by
  rcases hp.run_forward hclosed hentry hx hrun with ⟨t, x', hsteps, hx'⟩ | ⟨hidles, -⟩
  · have hentry' : c'.entry ≤ m.origins.length := m.entry_le_of_run hentry hrun
    cases hp.outcome hclosed hentry' hx' with
    | finished hend => exact .inl hend
    | moved c₁ hstep | passed hstep | idle c₁ s hstep =>
        rw [hnone] at hstep
        cases hstep
    | lost hlost hreaches =>
        obtain ⟨k, x₁, -, hsteps', hx₁⟩ := hreaches
        exact .inr ⟨hlost, t + k, x₁, hsteps.trans hsteps', hx₁⟩
  · obtain ⟨c₁, hrun₁, -⟩ := hidles 1
    obtain ⟨c₂, hstep, -⟩ := m.exists_step hrun₁
    rw [hnone] at hstep
    cases hstep

end Placed

/-- **The processor and the stack machine agree on every compiled
program**, from any entry and with any memory.

Every state that the stack machine reaches, the processor reaches; the
processor has halted there only at the end of the program or in an idle
loop. The stack machine is stuck only at the end of the program and at a
return to a place where no entry starts, and that return the processor
follows. And at any time the processor is on its way to a state that the
stack machine reaches, or has followed such a return. -/
theorem Program.processor_agrees_with_stackMachine {entryPoint? : Option String}
    {units : List SourceUnit} {p : Program} {e : Executable}
    (hassemble : assemble entryPoint? units = .ok p) (hlink : Executable.link p.code = .ok e)
    (hclosed : Origin.Closed (origins entryPoint? units)) (c : StackMachine.Config)
    (hentry : c.entry ≤ p.blocks.length) (s : State) (hrom : s.rom = e.rom)
    (hlive : s.halted = false)
    (hpc : s.pc.toNat = (p.stackMachine entryPoint? units e).address c.entry)
    (hram : s.ram = c.ram) :
    let m := p.stackMachine entryPoint? units e
    m.address p.blocks.length = e.rom.size ∧
    (∀ n c', m.run n c = some c' → ∃ t s', s.run t = (t, s') ∧ m.Agrees c' s') ∧
    (∀ n c', m.run n c = some c' → m.step c' = none →
      c'.entry = p.blocks.length ∨ ∃ t s', s.run t = (t, s') ∧ m.Strays c' s') ∧
    ∀ t, ∃ n c', m.run n c = some c' ∧
      ((∃ k, m.Agrees c' (s.run (t + k)).2) ∨ ∃ k s', s.run k = (k, s') ∧ m.Strays c' s') := by
  intro m
  have hp : Placed m p.code e.rom e.symbol := placed hassemble hlink
  obtain ⟨supply, hemits⟩ := assemble_emits hassemble
  have hlength : p.blocks.length = m.origins.length := hemits.length_eq
  rw [hlength] at hentry ⊢
  -- The lemmas speak of a running processor by its data and its place.
  have hs : s = (Data.mk s.ram s.a s.d).state e.rom (m.address c.entry) := by
    rw [← hrom, ← hpc]
    exact State.eq_state hlive
  have hx : (Data.mk s.ram s.a s.d).ram = c.ram := hram
  have hstrays : ∀ {c' : StackMachine.Config}, (m.Lost c' ∧ ∃ (k : Nat) (x' : Data),
      State.Steps k s (x'.state e.rom (c'.ram.ret.reg .r15).toNat) ∧ x'.ram = c'.ram.ret) →
      ∃ k s', s.run k = (k, s') ∧ m.Strays c' s' := by
    rintro c' ⟨hlost, k, x', hsteps, hx'⟩
    exact ⟨k, _, hsteps.run_eq, hlost, UInt16.ofNat_toNat, hx'⟩
  rw [hs] at hstrays ⊢
  refine ⟨hp.address_length, ?_, ?_, ?_⟩
  · intro n c' hrun
    rcases hp.run_forward hclosed hentry hx hrun with
      ⟨t, x', hsteps, hx'⟩ | ⟨hidles, t, s', ht, hpc', hram'⟩
    · refine ⟨t, _, hsteps.run_eq, hp.toNat_address (m.entry_le_of_run hentry hrun), hx', ?_⟩
      intro hhalted
      cases hhalted
    · exact ⟨t, s', ht, hpc', hram', fun _ => .inr hidles⟩
  · intro n c' hrun hnone
    exact (hp.stuck hclosed hentry hx hrun hnone).imp_right hstrays
  · intro t
    obtain ⟨n, c', hrun, hend⟩ := hp.run_backward hclosed t hentry hx
    exact ⟨n, c', hrun, hend.imp_right hstrays⟩

/-- A program that calls a function, which has a local variable and ends
in an idle loop. -/
def idlingUnit : SourceUnit :=
  ⟨"Sys", [⟨1, "function Sys.init 1", .function "Sys.init" 1⟩, ⟨2, "label END", .label "END"⟩,
    ⟨3, "goto END", .goto "END"⟩]⟩

/-- The two machines agree on the idling program, from power-on. -/
theorem Program.processor_agrees_on_idlingUnit :
    let p := compiled (some "Sys.init") [idlingUnit]
    let m := p.stackMachine (some "Sys.init") [idlingUnit] p.linked
    let s := State.start p.linked.rom
    assemble (some "Sys.init") [idlingUnit] = .ok p ∧ Executable.link p.code = .ok p.linked ∧
    (∀ n c', m.run n ⟨0, s.ram⟩ = some c' → ∃ t s', s.run t = (t, s') ∧ m.Agrees c' s') ∧
    ∀ t, ∃ n c', m.run n ⟨0, s.ram⟩ = some c' ∧
      ((∃ k, m.Agrees c' (s.run (t + k)).2) ∨ ∃ k s', s.run k = (k, s') ∧ m.Strays c' s') := by
  intro p m s
  have hlinkable : isLinkable (some "Sys.init") [idlingUnit] = true := by decide
  have hclosed : Origin.Closed (origins (some "Sys.init") [idlingUnit]) := by decide
  obtain ⟨hassemble, hlink⟩ := link_compiled hlinkable
  obtain ⟨-, hforward, -, hbackward⟩ := processor_agrees_with_stackMachine hassemble hlink hclosed
    ⟨0, s.ram⟩ (Nat.zero_le _) s rfl rfl rfl rfl
  exact ⟨hassemble, hlink, hforward, hbackward⟩

/-- A function with six local variables and nothing else. -/
def sixLocals : SourceUnit :=
  ⟨"Main", [⟨1, "function Main.f 6", .function "Main.f" 6⟩]⟩

/-- Starting a function does not always push as many zeros as it has
local variables. With the stack at `10` the fourth of six zeros lands on
the count, and the program ends with the stack at `14`. -/
theorem Program.locals_on_scratch_register_stop_early :
    ∃ (p : Program) (e : Executable) (s : State), assemble none [sixLocals] = .ok p ∧
      Executable.link p.code = .ok e ∧ s.rom = e.rom ∧ s.halted = false ∧ s.pc = 0 ∧
      s.ram.reg .sp = 10 ∧
      (∃ t, (s.run t).2.pc.toNat = e.rom.size) ∧
      ∀ t, (s.run t).2.pc.toNat = e.rom.size → (s.run t).2.ram.reg .sp ≠ s.ram.reg .sp + 6 := by
  have hlinkable : isLinkable none [sixLocals] = true := by decide
  have hclosed : Origin.Closed (origins none [sixLocals]) := by decide
  obtain ⟨hassemble, hlink⟩ := link_compiled hlinkable
  generalize compiled none [sixLocals] = p at hassemble hlink
  generalize p.linked = e at hlink
  have hp := placed hassemble hlink
  -- Any memory with this stack pointer will do, and one that is not spelled out is not computed.
  obtain ⟨ram, hsp⟩ : ∃ ram : Ram, ram.reg .sp = 10 :=
    ⟨(State.start e.rom).ram.setReg .sp 10, by rw [Ram.reg_setReg, if_pos rfl]⟩
  have hend : (p.stackMachine none [sixLocals] e).address 1 = e.rom.size := hp.address_length
  have hrun : (p.stackMachine none [sixLocals] e).run 1 ⟨0, ram⟩
      = some ⟨1, ram.zeroLocals 6⟩ := rfl
  have hstop : (ram.zeroLocals 6).reg .sp = 14 :=
    Ram.reg_sp_pushZeros_of_lt 3 (by rw [hsp]; rfl) (by rw [hsp]; decide) (by decide)
  rcases hp.run_forward hclosed (Nat.zero_le _) (x := ⟨ram, 0, 0⟩) rfl hrun with
    ⟨t, x', hsteps, hx'⟩ | ⟨hidles, -⟩
  · have hall : State.Steps t ((⟨ram, 0, 0⟩ : Data).state e.rom 0)
        (x'.state e.rom e.rom.size) := by
      rw [← hend]
      exact hsteps
    refine ⟨p, e, (⟨ram, 0, 0⟩ : Data).state e.rom 0, hassemble, hlink, rfl, rfl, rfl, hsp,
      ⟨t, ?_⟩, ?_⟩
    · rw [hall.run_eq, ← hend]
      exact hp.toNat_address (Nat.le_refl 1)
    · intro t' ht'
      rw [ram_of_end hp.loaded.size_le hall ht', hx', hstop]
      show (14 : Word) ≠ ram.reg .sp + 6
      rw [hsp]
      decide
  · obtain ⟨c, hrun₁, -⟩ := hidles 1
    cases hrun₁

end HackComputer.Vm
