import HackComputer.Proofs.Vm.Fragments

/-!
# `HackComputer.Proofs.Vm.Blocks`: the code of a command, run in place

Each kind of block is run where it stands in a loaded program, entered at
its first word. `Reaches` says where the machine comes out and with which
memory, whatever was in the registers when it came in.

A block that ends in an unconditional jump has to keep clear of the
machine's test for an idle loop. For a jump to a name that is a matter of
where the name stands, so `reaches_goto` and `reaches_call` take it as a
hypothesis; `run_goto_idle` is the case where it fails. A return cannot
be an idle loop, because the line before its jump is no load.
-/

set_option autoImplicit false

namespace HackComputer.Vm

open Isa Machine Assembly Code

/-- In at least one step the machine comes from one place to another and
has this memory there. -/
def Reaches (rom : Array Operation) (x : Data) (start stop : Nat) (ram : Ram) : Prop :=
  ∃ (n : Nat) (x' : Data), 0 < n ∧ State.Steps n (x.state rom start) (x'.state rom stop) ∧
    x'.ram = ram

/-- Steps before a run that reaches its place. -/
theorem Reaches.after {rom : Array Operation} {x x' : Data} {start middle stop n : Nat} {ram : Ram}
    (h : State.Steps n (x.state rom start) (x'.state rom middle))
    (h' : Reaches rom x' middle stop ram) : Reaches rom x start stop ram := by
  obtain ⟨k, x'', hk, hsteps, hram⟩ := h'
  exact ⟨n + k, x'', Nat.add_pos_right n hk, h.trans hsteps, hram⟩

section
variable {code : Lines} {rom : Array Operation} {address : String → Word} {before : Lines}

/-- A block without jumps. -/
theorem reaches_straight (h : Loaded code rom address) {lines : Lines}
    (hcode : before ++ lines <+: code)
    (hlines : lines.all Instruction.isStraight = true) (hpos : 0 < romLength lines) (x : Data) :
    Reaches rom x (romLength before) (romLength (before ++ lines))
      (x.followAll address lines).ram :=
  ⟨_, _, hpos, h.steps_straight lines hcode hlines x, rfl⟩

/-- A jump that is taken and is no idle loop. -/
theorem reaches_jump (h : Loaded code rom address) {comp : Computation} {condition : Jump}
    (hcode : before ++ [jump comp condition] <+: code) (x : Data)
    (htake : condition.holds (comp.eval x.d x.a (x.ram.load x.a)) = true)
    (hidle : State.isIdle rom ⟨.none, comp, condition⟩ (romLength before).toUInt16 x.a = false) :
    Reaches rom x (romLength before) x.a.toNat x.ram :=
  ⟨1, _, Nat.one_pos, h.steps_jump_taken hcode x htake hidle, rfl⟩

/-! ### Comparisons -/

/-- The code of a comparison up to its jump. -/
def compareHead (label : String) : Lines :=
  popD ++ [setA (.decY .a), setD (.subYD .m), setM .minusOne, symbol label]

/-- The code of a comparison that fails, behind its jump. -/
def compareTail (label : String) : Lines :=
  [register .sp, setA (.decY .m), setM .zero, .label label]

/-- A comparison is cut at its jump. -/
theorem compare_eq (condition : Jump) (label : String) :
    compare condition label
      = compareHead label ++ ([jump .d condition] ++ compareTail label) := rfl

/-- Up to the jump a comparison has marked its cell, and its difference
is in `D`. -/
theorem followAll_compareHead (x : Data) (label : String) :
    x.followAll address (compareHead label)
      = ⟨x.ram.drop.store (x.ram.drop.reg .sp - 1) 0xFFFF, address label,
          x.ram.drop.load (x.ram.drop.reg .sp - 1) - x.ram.drop.top⟩ := by
  rw [compareHead, Data.followAll_append, followAll_popD]
  rfl

/-- Clearing the cell under the stack pointer after marking it. Only if
the mark went onto the stack pointer, this is not the marked cell. -/
theorem store_mark_clear (ram : Ram) :
    (ram.store (ram.reg .sp - 1) 0xFFFF).store
        ((ram.store (ram.reg .sp - 1) 0xFFFF).reg .sp - 1) 0
      = if cell (ram.reg .sp - 1) = cell Register.sp.address then
          (ram.store (ram.reg .sp - 1) 0xFFFF).store 0xFFFE 0
        else ram.store (ram.reg .sp - 1) 0 := by
  have hread : (ram.store (ram.reg .sp - 1) 0xFFFF).reg .sp
      = if cell (ram.reg .sp - 1) = cell Register.sp.address then 0xFFFF else ram.reg .sp :=
    Ram.load_store ram _ _ _
  rw [hread]
  split
  · rfl
  · rw [Ram.store_store_self]

/-- A comparison comes out behind its block either way: through the jump
to its label, or past the jump and over the label. -/
theorem reaches_compare (h : Loaded code rom address) {condition : Jump} {label : String}
    (hcode : before ++ compare condition label <+: code) (hcondition : condition ≠ .always)
    (x : Data) :
    Reaches rom x (romLength before) (romLength (before ++ compare condition label))
      (x.ram.compare condition.holds) := by
  rw [compare_eq] at hcode ⊢
  have hhead := h.steps_straight (compareHead label) (isPrefix_left hcode) rfl x
  rw [followAll_compareHead] at hhead
  have hrest := isPrefix_right hcode
  have htail := isPrefix_right hrest
  refine Reaches.after hhead ?_
  rw [← List.append_assoc, ← List.append_assoc]
  by_cases htest : condition.holds
      (x.ram.drop.load (x.ram.drop.reg .sp - 1) - x.ram.drop.top) = true
  · rw [Ram.compare, if_pos htest]
    -- The label is the last line of the block and takes no word.
    have hlabel := h.label_toNat (before ++ compareHead label ++ [jump .d condition]
      ++ [register .sp, setA (.decY .m), setM .zero]) label (by
        rw [List.append_assoc]; exact htail)
    have hstop : romLength (before ++ compareHead label ++ [jump .d condition]
        ++ compareTail label) = (address label).toNat := by
      rw [hlabel, romLength_append, romLength_append _ [_, _, _]]
      rfl
    rw [hstop]
    exact reaches_jump h (isPrefix_left hrest) _ htest (isIdle_of_ne_always hcondition)
  · -- Past the jump the cell is found again through the stack pointer, and cleared.
    rw [Ram.compare, if_neg htest, ← store_mark_clear]
    have hmissed := h.steps_jump_missed (isPrefix_left hrest)
      ⟨x.ram.drop.store (x.ram.drop.reg .sp - 1) 0xFFFF, address label,
        x.ram.drop.load (x.ram.drop.reg .sp - 1) - x.ram.drop.top⟩ (Bool.eq_false_iff.mpr htest)
    exact Reaches.after hmissed (reaches_straight h htail rfl (Nat.succ_pos 2) _)

/-- The jumps of the three comparisons test the sign of the difference. -/
theorem holds_equal (w : Word) :
    (⟨false, true, false⟩ : Jump).holds w = decide (w.signed = 0) := by
  rw [Bool.eq_iff_iff]
  simp [Jump.holds, signed_eq_zero_iff]

/-- The jump of `gt` is taken for positive numbers. -/
theorem holds_greater (w : Word) :
    (⟨false, false, true⟩ : Jump).holds w = decide (0 < w.signed) := by
  simp [Jump.holds]

/-- The jump of `lt` is taken for negative numbers. -/
theorem holds_less (w : Word) :
    (⟨true, false, false⟩ : Jump).holds w = decide (w.signed < 0) := by
  simp [Jump.holds]

/-- A command with two operands. -/
theorem reaches_binary (h : Loaded code rom address) (comp : Computation) (f : Word → Word → Word)
    (hf : ∀ upper lower a, comp.eval upper a lower = f lower upper)
    (hcode : before ++ binary comp <+: code) (x : Data) :
    Reaches rom x (romLength before) (romLength (before ++ binary comp))
      (Ram.binary f x.ram) := by
  rw [← followAll_binary address x comp f hf]
  exact reaches_straight h hcode rfl (Nat.succ_pos 4) x

/-- A command with one operand. -/
theorem reaches_unary (h : Loaded code rom address) (comp : Computation) (f : Word → Word)
    (hf : ∀ d top a, comp.eval d a top = f top) (hcode : before ++ unary comp <+: code) (x : Data) :
    Reaches rom x (romLength before) (romLength (before ++ unary comp)) (Ram.unary f x.ram) := by
  rw [← followAll_unary address x comp f hf]
  exact reaches_straight h hcode rfl (Nat.succ_pos 2) x

/-- An arithmetic command. -/
theorem reaches_arithmetic (h : Loaded code rom address) (op : Arithmetic)
    (supply : LabelSupply) (hcode : before ++ (arithmetic op supply).1 <+: code) (x : Data) :
    Reaches rom x (romLength before) (romLength (before ++ (arithmetic op supply).1))
      (op.act x.ram) := by
  cases op with
  -- The processor computes with the upper operand first.
  | add =>
      refine reaches_binary h (.addDY .m) (· + ·) ?_ hcode x
      exact fun upper lower _ => UInt16.add_comm upper lower
  | sub => exact reaches_binary h (.subYD .m) (· - ·) (fun _ _ _ => rfl) hcode x
  | and =>
      refine reaches_binary h (.andDY .m) (· &&& ·) ?_ hcode x
      exact fun upper lower _ => UInt16.and_comm upper lower
  | or =>
      refine reaches_binary h (.orDY .m) (· ||| ·) ?_ hcode x
      exact fun upper lower _ => UInt16.or_comm upper lower
  | neg => exact reaches_unary h (.negY .m) (- ·) (fun _ top _ => UInt16.zero_sub top) hcode x
  | not => exact reaches_unary h (.notY .m) (~~~ ·) (fun _ _ _ => rfl) hcode x
  | eq =>
      rw [Arithmetic.act, ← funext holds_equal]
      exact reaches_compare h hcode (by decide) x
  | gt =>
      rw [Arithmetic.act, ← funext holds_greater]
      exact reaches_compare h hcode (by decide) x
  | lt =>
      rw [Arithmetic.act, ← funext holds_less]
      exact reaches_compare h hcode (by decide) x

/-! ### Memory -/

/-- A push. -/
theorem reaches_push (h : Loaded code rom address) {location : Location}
    (hcode : before ++ (fetch location ++ pushD) <+: code) (x : Data) :
    Reaches rom x (romLength before) (romLength (before ++ (fetch location ++ pushD)))
      (x.ram.push (locationValue address x.ram location)) := by
  have hstraight : (fetch location ++ pushD).all Instruction.isStraight = true := by
    cases location <;> rfl
  have hpos : 0 < romLength (fetch location ++ pushD) := by
    rw [romLength_append]
    exact Nat.add_pos_right _ (Nat.succ_pos 4)
  have hram : (x.followAll address (fetch location ++ pushD)).ram
      = x.ram.push (locationValue address x.ram location) := by
    obtain ⟨hsame, hvalue⟩ := followAll_fetch address x location
    rw [Data.followAll_append, followAll_pushD, hsame, hvalue]
  rw [← hram]
  exact reaches_straight h hcode hstraight hpos x

/-- A pop. -/
theorem reaches_pop (h : Loaded code rom address) {location : Location} {lines : Lines}
    (hlines : addressOf location = .ok lines) (hcode : before ++ (lines ++ popToD) <+: code)
    (x : Data) :
    ∃ place, locationCell? address x.ram location = some place ∧
      Reaches rom x (romLength before) (romLength (before ++ (lines ++ popToD)))
        (x.ram.popTo place) := by
  have hstraight : (lines ++ popToD).all Instruction.isStraight = true := by
    cases location with
    | immediate value => cases hlines
    | indirect base offset => cases hlines; rfl
    | direct place => cases hlines; rfl
    | symbol name => cases hlines; rfl
  have hpos : 0 < romLength (lines ++ popToD) := by
    rw [romLength_append]
    exact Nat.add_pos_right _ (Nat.succ_pos 7)
  obtain ⟨hsame, hplace⟩ := followAll_addressOf address x hlines
  refine ⟨(x.followAll address lines).d, hplace.symm, ?_⟩
  have hram : (x.followAll address (lines ++ popToD)).ram
      = x.ram.popTo (x.followAll address lines).d := by
    rw [Data.followAll_append, followAll_popToD, hsame]
  rw [← hram]
  exact reaches_straight h hcode hstraight hpos x

/-! ### Jumps to names -/

/-- A jump from `pc` is no idle loop unless it goes right before
itself. -/
theorem isIdle_of_ne {c : Calculation} {pc target : Word} (hne : target + 1 ≠ pc) :
    State.isIdle rom c pc target = false := by
  simp [State.isIdle, hne]

/-- A jump to a name that does not stand right here. -/
theorem reaches_goto (h : Loaded code rom address) {name : String}
    (hcode : before ++ [symbol name, jumpAlways] <+: code)
    (hfar : address name ≠ (romLength before).toUInt16) (x : Data) :
    Reaches rom x (romLength before) (address name).toNat x.ram := by
  rw [← List.singleton_append] at hcode
  have hload := h.steps_straight [symbol name] (isPrefix_left hcode) rfl x
  refine Reaches.after hload ?_
  refine reaches_jump h (isPrefix_right hcode) _ (holds_always _) (isIdle_of_ne ?_)
  rw [romLength_append]
  show address name + 1 ≠ (romLength before + 1).toUInt16
  rw [← toUInt16_succ, Ne, UInt16.add_left_inj]
  exact hfar

/-- A jump to a name that stands right here is an idle loop: the machine
halts at once. -/
theorem run_goto_idle (h : Loaded code rom address) {name : String}
    (hcode : before ++ [symbol name, jumpAlways] <+: code)
    (hhere : address name = (romLength before).toUInt16) (x : Data) :
    (x.state rom (romLength before)).run 2
      = (2, { (⟨x.ram, address name, x.d⟩ : Data).state rom (romLength before) with
          halted := true }) := by
  rw [← List.singleton_append] at hcode
  have hload : State.Steps 1 (x.state rom (romLength before))
      ((⟨x.ram, address name, x.d⟩ : Data).state rom (romLength (before ++ [symbol name]))) :=
    h.steps_straight [symbol name] (isPrefix_left hcode) rfl x
  have hplace : (address name).toNat = romLength before := by
    rw [hhere, h.toNat_romLength ((List.prefix_append _ _).trans hcode)]
  have hnext : (romLength (before ++ [symbol name])).toUInt16 = address name + 1 := by
    rw [hhere, toUInt16_succ, romLength_append]
    rfl
  have hself : rom[(address name).toNat]? = some (.load (address name)) := by
    rw [hplace]
    exact h.getElem?_eq (isPrefix_left hcode) rfl
  -- The jump goes to the instruction before it, and that one loads its own address.
  have hidle : State.isIdle rom ⟨.none, .zero, .always⟩
      (romLength (before ++ [symbol name])).toUInt16 (address name) = true := by
    rw [State.isIdle, hnext, hself]
    simp
  have hjump := step_jump h.size_le (h.getElem?_eq (isPrefix_right hcode) rfl)
    ⟨x.ram, address name, x.d⟩ (holds_always _)
  rw [hidle, hplace] at hjump
  have hhalt := State.run_succ_of_halt hjump rfl 0
  rw [show 2 = 1 + 1 from rfl, State.run_add, hload.run_eq]
  exact congrArg (fun r : Nat × State => (1 + r.1, r.2)) hhalt

/-- A jump on a word that is not zero. -/
theorem holds_nonzero (w : Word) :
    (⟨true, false, true⟩ : Jump).holds w = decide (w ≠ 0) := by
  rw [Bool.eq_iff_iff]
  have hzero := signed_eq_zero_iff w
  simp only [Jump.holds, Bool.true_and, Bool.false_and, Bool.or_false, Bool.or_eq_true,
    decide_eq_true_eq]
  constructor
  · intro hsign heq
    have := hzero.mpr heq
    omega
  · intro hne
    have : w.signed ≠ 0 := fun heq => hne (hzero.mp heq)
    omega

/-- The code of a conditional jump up to the jump. -/
def ifGotoHead (name : String) : Lines :=
  popD ++ [symbol name]

/-- A conditional jump pops its word and goes on either way. -/
theorem reaches_ifGoto (h : Loaded code rom address) {name : String}
    (hcode : before ++ (popD ++ [symbol name, jump .d ⟨true, false, true⟩]) <+: code) (x : Data) :
    Reaches rom x (romLength before)
      (if x.ram.drop.top = 0 then
        romLength (before ++ (popD ++ [symbol name, jump .d ⟨true, false, true⟩]))
      else (address name).toNat) x.ram.drop := by
  have hsplit : popD ++ [symbol name, jump .d ⟨true, false, true⟩]
      = ifGotoHead name ++ [jump .d ⟨true, false, true⟩] := rfl
  rw [hsplit] at hcode ⊢
  have hhead := h.steps_straight (ifGotoHead name) (isPrefix_left hcode) rfl x
  have hdata : x.followAll address (ifGotoHead name)
      = ⟨x.ram.drop, address name, x.ram.drop.top⟩ := by
    rw [ifGotoHead, Data.followAll_append, followAll_popD]
    rfl
  rw [hdata] at hhead
  refine Reaches.after hhead ?_
  by_cases hzero : x.ram.drop.top = 0
  · rw [if_pos hzero, ← List.append_assoc]
    have hmiss : (⟨true, false, true⟩ : Jump).holds x.ram.drop.top = false := by
      rw [holds_nonzero, hzero]
      rfl
    exact ⟨1, _, Nat.one_pos, h.steps_jump_missed (isPrefix_right hcode) _ hmiss, rfl⟩
  · rw [if_neg hzero]
    have htake : (⟨true, false, true⟩ : Jump).holds x.ram.drop.top = true := by
      rw [holds_nonzero, decide_eq_true hzero]
    exact reaches_jump h (isPrefix_right hcode) _ htake (isIdle_of_ne_always (by decide))

/-! ### The start of a function -/

/-- The code before the loop that pushes zeros. -/
def zeroHead (locals : Word) : Lines :=
  [literal locals, setD (.y .a), register .r13, setM .d]

/-- The loop that pushes zeros, up to its jump. -/
def zeroBody (loop : String) : Lines :=
  [.label loop] ++ (fetch (.immediate 0) ++ pushD
    ++ [register .r13, setMD (.decY .m), symbol loop])

/-- The code that zeroes locals is what comes before its loop, one round of the
loop, and the jump back. -/
theorem zeroLines_eq (locals : Word) (loop : String) :
    Frame.zeroLines locals loop
      = zeroHead locals ++ (zeroBody loop ++ [jump .d ⟨false, false, true⟩]) := rfl

/-- What `R13` holds after a push: the word itself if the push landed on
it. -/
theorem reg_r13_push (ram : Ram) (value : Word) :
    (ram.push value).reg .r13
      = if cell (ram.reg .sp) = cell Register.r13.address then value else ram.reg .r13 := by
  rw [Ram.push, Ram.reg_setReg, if_neg (by decide)]
  exact Ram.load_store ram _ _ _

/-- A count that is overwritten after a push might as well not have been
there before it. -/
theorem setReg_r13_push (ram : Ram) (count value next : Word) :
    ((ram.setReg .r13 count).push value).setReg .r13 next
      = (ram.push value).setReg .r13 next := by
  have hsp : (ram.setReg .r13 count).reg .sp = ram.reg .sp := by simp
  have htop : ((ram.setReg .r13 count).store (ram.reg .sp) value).reg .sp
      = (ram.store (ram.reg .sp) value).reg .sp := by
    show ((ram.setReg .r13 count).store (ram.reg .sp) value).load _
      = (ram.store (ram.reg .sp) value).load _
    rw [Ram.load_store, Ram.load_store]
    split
    · rfl
    · exact hsp
  simp only [Ram.push, hsp, htop]
  apply Ram.ext_load
  intro a
  simp only [Ram.setReg, Ram.load_store]
  by_cases h13 : cell Register.r13.address = cell a
  · simp [h13]
  · simp [h13]

/-- Small numbers are read as they are written. -/
theorem signed_toUInt16 {n : Nat} (h : n < 32768) : Word.signed n.toUInt16 = n :=
  Int16.toInt_ofNat_of_lt h

/-- What the count of the loop becomes once around: one lower, or below
zero if the zero landed on it. -/
def nextCount (ram : Ram) (count : Nat) : Word :=
  if cell (ram.reg .sp) = cell Register.r13.address then 0xFFFF else count.toUInt16

/-- Once around the loop, with `count` zeros left after this one. -/
theorem followAll_zeroBody (ram : Ram) (count : Nat) (x : Data) (loop : String)
    (hx : x.ram = ram.setReg .r13 (count + 1).toUInt16) :
    x.followAll address (zeroBody loop)
      = ⟨(ram.push 0).setReg .r13 (nextCount ram count), address loop,
          nextCount ram count⟩ := by
  show (⟨(x.ram.push 0).setReg .r13 ((x.ram.push 0).reg .r13 - 1), address loop,
    (x.ram.push 0).reg .r13 - 1⟩ : Data) = _
  have hsp : x.ram.reg .sp = ram.reg .sp := by
    rw [hx, Ram.reg_setReg, if_neg (by decide)]
  have hr13 : x.ram.reg .r13 = (count + 1).toUInt16 := by
    rw [hx, Ram.reg_setReg, if_pos rfl]
  have hcount : (x.ram.push 0).reg .r13 - 1 = nextCount ram count := by
    rw [reg_r13_push, hsp, hr13, nextCount]
    split
    · rfl
    · rw [← toUInt16_succ, UInt16.add_sub_cancel]
  rw [hcount, hx, setReg_r13_push]

/-- The loop pushes the zeros that are left. The induction is on their
number, and the memory from before the count was set carries it: the loop
finds of the count what it wrote there itself, unless a zero landed on
it. -/
theorem reaches_zeroLoop (h : Loaded code rom address) {loop : String}
    (hcode : before ++ (zeroBody loop ++ [jump .d ⟨false, false, true⟩]) <+: code)
    (count : Nat) (hcount : count + 1 < 32768) (ram : Ram) (x : Data)
    (hx : x.ram = ram.setReg .r13 (count + 1).toUInt16) :
    Reaches rom x (romLength before)
      (romLength (before ++ (zeroBody loop ++ [jump .d ⟨false, false, true⟩])))
      (ram.pushZeros (count + 1)) := by
  have hloop : (address loop).toNat = romLength before := by
    have hbody := isPrefix_left hcode
    rw [zeroBody] at hbody
    exact h.label_toNat before loop (isPrefix_left hbody)
  induction count generalizing ram x with
  | zero =>
      -- The count is zero now, or below if the last zero landed on it. The loop ends either way.
      have hround := h.steps_straight (zeroBody loop) (isPrefix_left hcode) rfl x
      rw [followAll_zeroBody ram 0 x loop hx] at hround
      have hmiss : (⟨false, false, true⟩ : Jump).holds (nextCount ram 0) = false := by
        rw [nextCount]
        split <;> decide
      refine Reaches.after hround ?_
      rw [← List.append_assoc]
      refine ⟨1, _, Nat.one_pos, h.steps_jump_missed (isPrefix_right hcode) _ hmiss, ?_⟩
      show (ram.push 0).setReg .r13 (nextCount ram 0) = ram.pushZeros 1
      rw [Ram.pushZeros, nextCount]
      split <;> rfl
  | succ count ih =>
      have hround := h.steps_straight (zeroBody loop) (isPrefix_left hcode) rfl x
      rw [followAll_zeroBody ram (count + 1) x loop hx] at hround
      refine Reaches.after hround ?_
      rw [Ram.pushZeros]
      by_cases hhit : cell (ram.reg .sp) = cell Register.r13.address
      · -- The zero overwrote the count, and one less than zero ends the loop.
        have hnext : nextCount ram (count + 1) = 0xFFFF := if_pos hhit
        rw [hnext, if_pos hhit, ← List.append_assoc]
        have hmiss : (⟨false, false, true⟩ : Jump).holds 0xFFFF = false := by decide
        exact ⟨1, _, Nat.one_pos, h.steps_jump_missed (isPrefix_right hcode) _ hmiss, rfl⟩
      · have hnext : nextCount ram (count + 1) = (count + 1).toUInt16 := if_neg hhit
        have htake : (⟨false, false, true⟩ : Jump).holds (count + 1).toUInt16 = true := by
          rw [holds_greater, signed_toUInt16 (by omega)]
          exact decide_eq_true (by omega)
        rw [hnext, if_neg hhit]
        obtain ⟨n, y, hn, hback, hy⟩ := reaches_jump h (isPrefix_right hcode)
          ⟨(ram.push 0).setReg .r13 (count + 1).toUInt16, address loop, (count + 1).toUInt16⟩
          htake (isIdle_of_ne_always (by decide))
        rw [hloop] at hback
        exact Reaches.after hback (ih (by omega) (ram.push 0) y hy)

/-- A function with local variables pushes its zeros. -/
theorem reaches_zeroLines (h : Loaded code rom address) {locals : Word} {loop : String}
    (hcode : before ++ Frame.zeroLines locals loop <+: code) (hsome : locals ≠ 0)
    (hsmall : locals ≤ maxImmediate) (x : Data) :
    Reaches rom x (romLength before) (romLength (before ++ Frame.zeroLines locals loop))
      (x.ram.zeroLocals locals) := by
  have hpos : locals.toNat ≠ 0 := fun hzero => hsome (UInt16.toNat_inj.mp hzero)
  have hlt : locals.toNat < 32768 :=
    Nat.lt_of_le_of_lt (UInt16.le_iff_toNat_le.mp hsmall) (by decide)
  obtain ⟨count, hcount⟩ := Nat.exists_eq_succ_of_ne_zero hpos
  rw [zeroLines_eq] at hcode ⊢
  have hhead := h.steps_straight (zeroHead locals) (isPrefix_left hcode) rfl x
  refine Reaches.after hhead ?_
  rw [Ram.zeroLocals, if_neg hsome, hcount, ← List.append_assoc]
  refine reaches_zeroLoop h (isPrefix_right hcode) count (by omega) x.ram _ ?_
  show x.ram.setReg .r13 locals = _
  rw [← Nat.succ_eq_add_one, ← hcount]
  exact congrArg _ UInt16.ofNat_toNat.symm

/-! ### Calls and returns -/

/-- The code of a call up to its jump. -/
def callHead (arguments : Word) (returnLabel : String) : Lines :=
  Frame.layout.flatMap (Frame.save returnLabel)
    ++ [register .sp, setD (.y .m), literal arguments, setD (.subDY .a), literal Frame.size,
      setD (.subDY .a), register .arg, setM .d, register .sp, setD (.y .m), register .lcl, setM .d]

/-- A call saves the frame, jumps, and ends with the place to come back to. -/
theorem callLines_eq (function : String) (arguments : Word) (returnLabel : String) :
    Frame.callLines function arguments returnLabel
      = callHead arguments returnLabel
        ++ ([symbol (Frame.entry function), jumpAlways] ++ [.label returnLabel]) := rfl

/-- Up to its jump a call saves the frame and moves the bases. -/
theorem followAll_callHead (x : Data) (arguments : Word) (returnLabel : String) :
    (x.followAll address (callHead arguments returnLabel)).ram
      = x.ram.call arguments (address returnLabel) := by
  have hsaves : (x.followAll address (Frame.layout.flatMap (Frame.save returnLabel))).ram
      = ((((x.ram.push (address returnLabel)).save .lcl).save .arg).save .this).save .that := by
    simp only [Frame.layout, List.flatMap_cons, List.flatMap_nil, List.append_nil,
      Data.followAll_append, followAll_save]
  rw [callHead, Data.followAll_append, Ram.call, ← hsaves]
  rfl

/-- The label that a call returns to stands right behind the call. -/
theorem returnLabel_toNat (h : Loaded code rom address) {function : String} {arguments : Word}
    {returnLabel : String}
    (hcode : before ++ Frame.callLines function arguments returnLabel <+: code) :
    (address returnLabel).toNat
      = romLength (before ++ Frame.callLines function arguments returnLabel) := by
  rw [callLines_eq] at hcode ⊢
  have hlabel := isPrefix_right (isPrefix_right hcode)
  rw [h.label_toNat _ returnLabel hlabel, ← List.append_assoc, ← List.append_assoc,
    romLength_append _ [.label returnLabel]]
  rfl

/-- A call of a function outside of the call's own code. -/
theorem reaches_call (h : Loaded code rom address) {function : String} {arguments : Word}
    {returnLabel : String}
    (hcode : before ++ Frame.callLines function arguments returnLabel <+: code)
    (hfar : (address (Frame.entry function)).toNat ≤ romLength before ∨
      romLength (before ++ Frame.callLines function arguments returnLabel)
        ≤ (address (Frame.entry function)).toNat) (x : Data) :
    Reaches rom x (romLength before) (address (Frame.entry function)).toNat
      (x.ram.call arguments (address returnLabel)) := by
  rw [callLines_eq] at hcode hfar
  have hhead := h.steps_straight (callHead arguments returnLabel) (isPrefix_left hcode) rfl x
  refine Reaches.after hhead ?_
  rw [← followAll_callHead]
  refine reaches_goto h (isPrefix_left (isPrefix_right hcode)) ?_ _
  -- Were the function the call's own jump, its address would be inside the call.
  intro hself
  have hplace := h.toNat_romLength (isPrefix_left hcode)
  have hhead : romLength (callHead arguments returnLabel) = 47 := rfl
  have hjump : romLength ([symbol (Frame.entry function), jumpAlways] ++ [.label returnLabel])
      = 2 := rfl
  rw [hself, hplace, ← List.append_assoc, romLength_append _ (_ ++ _), romLength_append before,
    hhead, hjump] at hfar
  omega

/-- The code of a return up to the load of the return address. -/
def returnHead : Lines :=
  [register .lcl, setD (.y .m), register .r14, setM .d]
    ++ Frame.restore Frame.size .r15
    ++ [register .arg, setD (.y .m), literal 0, setD (.addDY .a)] ++ popToD
    ++ [register .arg, setD (.incY .m), register .sp, setM .d]
    ++ Frame.restoreSaved

/-- A return restores the frame of the caller, loads the return address and
jumps to it. -/
theorem returnLines_eq :
    Frame.returnLines
      = (returnHead ++ [register .r15]) ++ ([setA (.y .m)] ++ [jumpAlways]) := rfl

/-- The four registers are restored from the top of the frame down. -/
theorem restoreSaved_eq :
    Frame.restoreSaved = Frame.restore 1 .that ++ Frame.restore 2 .this ++ Frame.restore 3 .arg
      ++ Frame.restore 4 .lcl := rfl

/-- A return unwinds the frame. -/
theorem followAll_returnHead (x : Data) :
    (x.followAll address returnHead).ram = x.ram.ret := by
  have hsize : Frame.size = 5 := rfl
  have hresult : ∀ y : Data, y.followAll address
      [register .arg, setD (.y .m), literal 0, setD (.addDY .a)]
        = ⟨y.ram, 0, y.ram.reg .arg⟩ := by
    intro y
    show (⟨y.ram, 0, y.ram.reg .arg + 0⟩ : Data) = _
    rw [UInt16.add_zero]
  have hstack : ∀ y : Data, (y.followAll address
      [register .arg, setD (.incY .m), register .sp, setM .d]).ram
        = y.ram.setReg .sp (y.ram.reg .arg + 1) := fun _ => rfl
  have hframe : (x.followAll address [register .lcl, setD (.y .m), register .r14, setM .d]).ram
      = x.ram.setReg .r14 (x.ram.reg .lcl) := rfl
  -- Each restore reads the frame through R14, which no earlier one has moved.
  rw [returnHead, restoreSaved_eq]
  simp only [Data.followAll_append, followAll_restore, hstack, followAll_popToD, hresult, hframe,
    hsize]
  rfl

/-- A jump behind a computation is no idle loop: an idle loop is a load
and a jump. -/
theorem isIdle_after_compute (h : Loaded code rom address) {c c' : Calculation} {target : Word}
    (hcode : before ++ [.compute c] <+: code) :
    State.isIdle rom c' (romLength (before ++ [.compute c])).toUInt16 target = false := by
  -- Only a target right before the jump counts, and there stands the computation.
  by_cases hback : target + 1 = (romLength (before ++ [.compute c])).toUInt16
  · rw [romLength_append] at hback
    have htarget : target = (romLength before).toUInt16 := by
      rw [← UInt16.add_left_inj 1, hback, toUInt16_succ]
      rfl
    have hop : rom[target.toNat]? = some (.compute c) := by
      rw [htarget, h.toNat_romLength ((List.prefix_append _ _).trans hcode)]
      exact h.getElem?_eq hcode rfl
    simp [State.isIdle, hop]
  · exact isIdle_of_ne hback

/-- A return goes to the address that it finds in the frame. -/
theorem reaches_return (h : Loaded code rom address)
    (hcode : before ++ Frame.returnLines <+: code) (x : Data) :
    Reaches rom x (romLength before) (x.ram.ret.reg .r15).toNat x.ram.ret := by
  rw [returnLines_eq] at hcode
  have hhead := h.steps_straight (returnHead ++ [register .r15]) (isPrefix_left hcode) rfl x
  have hload := h.steps_straight [setA (.y .m)] (isPrefix_left (isPrefix_right hcode)) rfl
    (x.followAll address (returnHead ++ [register .r15]))
  have hlast : ∀ y : Data, (y.followAll address [register .r15]).followAll address
      [setA (.y .m)] = ⟨y.ram, y.ram.reg .r15, y.d⟩ := fun _ => rfl
  rw [Data.followAll_append, hlast, followAll_returnHead, ← Data.followAll_append] at hload
  refine Reaches.after (hhead.trans hload) ?_
  exact reaches_jump h (isPrefix_right (isPrefix_right hcode)) _ (holds_always _)
    (isIdle_after_compute h (isPrefix_left (isPrefix_right hcode)))

/-- The start of the machine sets up the stack and calls. -/
theorem reaches_bootstrap (h : Loaded code rom address) {function : String}
    {returnLabel : String}
    (hcode : before ++ ([literal stackBase, setD (.y .a), register .sp, setM .d]
      ++ Frame.callLines function 0 returnLabel) <+: code)
    (hfar : (address (Frame.entry function)).toNat ≤ romLength before ∨
      romLength (before ++ ([literal stackBase, setD (.y .a), register .sp, setM .d]
      ++ Frame.callLines function 0 returnLabel)) ≤ (address (Frame.entry function)).toNat)
    (x : Data) :
    Reaches rom x (romLength before) (address (Frame.entry function)).toNat
      ((x.ram.setReg .sp 256).call 0 (address returnLabel)) := by
  rw [← List.append_assoc] at hfar
  have hhead := h.steps_straight [literal stackBase, setD (.y .a), register .sp, setM .d]
    (isPrefix_left hcode) rfl x
  refine Reaches.after hhead (reaches_call h (isPrefix_right hcode) ?_ _)
  rw [romLength_append before]
  omega

end

end HackComputer.Vm
