import HackComputer.Vm.Program

/-!
# `HackComputer.Proofs.Vm.Origin`: where the blocks of a program come from

Assembling walks through the units, keeps the current function, threads
one label supply through all commands and collects the blocks. The walk
and the threading are two matters, and the proofs take them apart:

* `origins` is the walk alone. It lists what every block is compiled
  from, each command with the context that it stands in.
* `Emits` is the threading alone. It relates a list of origins to the
  blocks that they become and to the supply before and after.
* `assemble_emits` puts them together: a program that assembles is what
  its origins emit from the fresh supply.

Every statement about whole programs is an induction on `Emits`, or goes
through `Emits.getElem?`, which picks the block of one origin. What the
code of a single origin looks like is said once, by `Origin.Compiles`.
-/

set_option autoImplicit false

namespace HackComputer.Vm

open Isa Assembly Code

/-- A sequence of two parts succeeds only if both do. -/
theorem bind_eq_ok {ε α β : Type} {part : Except ε α} {rest : α → Except ε β} {r : β}
    (h : (part >>= rest) = .ok r) : ∃ a, part = .ok a ∧ rest a = .ok r := by
  cases part with
  | error fault => cases h
  | ok a => exact ⟨a, rfl, h⟩

/-- A mapped part succeeds only if the part does. -/
theorem map_eq_ok {ε α β : Type} {part : Except ε α} {f : α → β} {r : β}
    (h : part.map f = .ok r) : ∃ a, part = .ok a ∧ f a = r := by
  cases part with
  | error fault => cases h
  | ok a => exact ⟨a, rfl, Except.ok.inj h⟩

/-- What a block is compiled from: the start of the machine, or one line
in its context. -/
inductive Origin where
  | start (entryPoint : String)
  | line (context : Context) (line : Line)
  deriving DecidableEq, Repr

namespace Origin

/-- The code of an origin, and the label supply after it. -/
def compile (supply : LabelSupply) : Origin → Except Fault (Lines × LabelSupply)
  | start entryPoint => Frame.bootstrap entryPoint supply
  | line context l => l.command.compile context supply

/-- The block of an origin with this code. -/
def block (code : Lines) : Origin → Block
  | start _ => ⟨none, 0, Program.bootstrapText, code⟩
  | line context l => ⟨some context.unit, l.row, l.text, code⟩

/-- The block of an origin has the code that it is given. -/
@[simp] theorem code_block (code : Lines) (o : Origin) : (o.block code).code = code := by
  cases o <;> rfl

/-- What the code of an origin looks like, with the checks that it has
passed and the labels that it has taken. -/
inductive Compiles (supply : LabelSupply) : Origin → Lines → LabelSupply → Prop
  | arithmetic (context : Context) (row : Nat) (text : String) (op : Arithmetic) :
      Compiles supply (.line context ⟨row, text, .arithmetic op⟩)
        (Code.arithmetic op supply).1 (Code.arithmetic op supply).2
  | push (context : Context) (row : Nat) (text : String) (segment : Segment) (index : Word)
      (location : Location) (hlocation : segment.resolve context.unit index = .ok location) :
      Compiles supply (.line context ⟨row, text, .push segment index⟩)
        (fetch location ++ pushD) supply
  | pop (context : Context) (row : Nat) (text : String) (segment : Segment) (index : Word)
      (location : Location) (lines : Lines)
      (hlocation : segment.resolve context.unit index = .ok location)
      (hlines : addressOf location = .ok lines) :
      Compiles supply (.line context ⟨row, text, .pop segment index⟩) (lines ++ popToD) supply
  | label (context : Context) (row : Nat) (text name full : String)
      (hscope : context.scope name = .ok full) :
      Compiles supply (.line context ⟨row, text, .label name⟩) [.label full] supply
  | goto (context : Context) (row : Nat) (text target full : String)
      (hscope : context.scope target = .ok full) :
      Compiles supply (.line context ⟨row, text, .goto target⟩) [symbol full, jumpAlways] supply
  | ifGoto (context : Context) (row : Nat) (text target full : String)
      (hscope : context.scope target = .ok full) :
      Compiles supply (.line context ⟨row, text, .ifGoto target⟩)
        (popD ++ [symbol full, jump .d ⟨true, false, true⟩]) supply
  | enter (context : Context) (row : Nat) (text name : String) :
      Compiles supply (.line context ⟨row, text, .function name 0⟩)
        [.label (Frame.entry name)] supply
  | function (context : Context) (row : Nat) (text name : String) (locals : Word)
      (hsome : locals ≠ 0) (hsmall : locals ≤ maxImmediate) :
      Compiles supply (.line context ⟨row, text, .function name locals⟩)
        (.label (Frame.entry name) :: Frame.zeroLines locals (supply.fresh .zeroLocals).1)
        (supply.fresh .zeroLocals).2
  | call (context : Context) (row : Nat) (text name : String) (arguments : Word) :
      Compiles supply (.line context ⟨row, text, .call name arguments⟩)
        (Frame.callLines name arguments (supply.fresh .returnPoint).1)
        (supply.fresh .returnPoint).2
  | ret (context : Context) (row : Nat) (text : String) :
      Compiles supply (.line context ⟨row, text, .ret⟩) Frame.returnLines supply
  | start (entryPoint : String) :
      Compiles supply (.start entryPoint)
        ([literal stackBase, setD (.y .a), register .sp, setM .d]
          ++ Frame.callLines entryPoint 0 (supply.fresh .returnPoint).1)
        (supply.fresh .returnPoint).2

/-- A call that compiles. -/
theorem call_eq_ok {name : String} {arguments : Word} {supply supply' : LabelSupply}
    {lines : Lines} (h : Frame.call name arguments supply = .ok (lines, supply')) :
    lines = Frame.callLines name arguments (supply.fresh .returnPoint).1 ∧
    supply' = (supply.fresh .returnPoint).2 := by
  obtain ⟨_, -, hcounted⟩ := bind_eq_ok h
  obtain ⟨_, -, hlines⟩ := bind_eq_ok hcounted
  cases hlines
  exact ⟨rfl, rfl⟩

/-- A count that has passed its check fits into an instruction. -/
theorem le_of_checkCount {what : Counted} {count : Word} {u : Unit}
    (h : Frame.checkCount what count = .ok u) : count ≤ maxImmediate := by
  rw [Frame.checkCount] at h
  split at h
  · assumption
  · cases h

/-- Compiling yields what `Compiles` says. -/
theorem compiles_of_compile {supply supply' : LabelSupply} {o : Origin} {lines : Lines}
    (h : o.compile supply = .ok (lines, supply')) : o.Compiles supply lines supply' := by
  cases o with
  | start entryPoint =>
      obtain ⟨⟨callCode, supply₁⟩, hcall, hlines⟩ := bind_eq_ok h
      obtain ⟨rfl, rfl⟩ := call_eq_ok hcall
      cases hlines
      exact .start entryPoint
  | line context l =>
      obtain ⟨row, text, command⟩ := l
      cases command with
      | arithmetic op =>
          have hpair : Code.arithmetic op supply = (lines, supply') := Except.ok.inj h
          have hcompiles : Compiles supply (.line context ⟨row, text, .arithmetic op⟩)
              (Code.arithmetic op supply).1 (Code.arithmetic op supply).2 :=
            .arithmetic context row text op
          rw [hpair] at hcompiles
          exact hcompiles
      | push segment index =>
          obtain ⟨code, hpush, hpair⟩ := map_eq_ok h
          obtain ⟨location, hlocation, hcode⟩ := bind_eq_ok hpush
          cases hcode
          cases hpair
          exact .push context row text segment index location hlocation
      | pop segment index =>
          obtain ⟨code, hpop, hpair⟩ := map_eq_ok h
          obtain ⟨location, hlocation, hstore⟩ := bind_eq_ok hpop
          obtain ⟨place, hplace, hcode⟩ := bind_eq_ok hstore
          cases hcode
          cases hpair
          exact .pop context row text segment index location place hlocation hplace
      | label name =>
          obtain ⟨full, hscope, hlines⟩ := bind_eq_ok h
          cases hlines
          exact .label context row text name full hscope
      | goto target =>
          obtain ⟨full, hscope, hlines⟩ := bind_eq_ok h
          cases hlines
          exact .goto context row text target full hscope
      | ifGoto target =>
          obtain ⟨full, hscope, hlines⟩ := bind_eq_ok h
          cases hlines
          exact .ifGoto context row text target full hscope
      | function name locals =>
          obtain ⟨_, -, hcounted⟩ := bind_eq_ok h
          obtain ⟨_, hcount, hlines⟩ := bind_eq_ok hcounted
          by_cases hzero : locals = 0
          · subst hzero
            cases hlines
            exact .enter context row text name
          · rw [if_neg hzero] at hlines
            cases hlines
            exact .function context row text name locals hzero (le_of_checkCount hcount)
      | call name arguments =>
          obtain ⟨rfl, rfl⟩ := call_eq_ok h
          exact .call context row text name arguments
      | ret =>
          cases h
          exact .ret context row text

end Origin

namespace Program

/-- The lines of a unit in their contexts, behind lines that have started
the function `current`. -/
def lineOrigins (unit : String) : Option String → List Line → List Origin
  | _, [] => []
  | current, line :: lines =>
      .line ⟨unit, functionAt current line.command⟩ line
        :: lineOrigins unit (functionAt current line.command) lines

/-- What the blocks of a program are compiled from, in order. -/
def origins (entryPoint? : Option String) (units : List SourceUnit) : List Origin :=
  (entryPoint?.map Origin.start).toList
    ++ units.flatMap fun unit => lineOrigins unit.name none unit.lines

/-- From the first supply the origins become the blocks, in order, and
leave the second supply. -/
inductive Emits : LabelSupply → List Origin → List Block → LabelSupply → Prop
  | nil (supply : LabelSupply) : Emits supply [] [] supply
  | cons {supply supply' supply'' : LabelSupply} {origin : Origin} {origins : List Origin}
      {code : Lines} {blocks : List Block} :
      origin.compile supply = .ok (code, supply') → Emits supply' origins blocks supply'' →
      Emits supply (origin :: origins) (origin.block code :: blocks) supply''

namespace Emits

/-- One origin. -/
theorem single {supply supply' : LabelSupply} (origin : Origin) {code : Lines}
    (h : origin.compile supply = .ok (code, supply')) :
    Emits supply [origin] [origin.block code] supply' :=
  .cons h (.nil supply')

/-- Origins one after the other. -/
theorem append {supply supply' supply'' : LabelSupply} {os os' : List Origin}
    {bs bs' : List Block} (h : Emits supply os bs supply') (h' : Emits supply' os' bs' supply'') :
    Emits supply (os ++ os') (bs ++ bs') supply'' := by
  induction h with
  | nil supply => exact h'
  | cons hcode _ ih => exact .cons hcode (ih h')

/-- Every origin has its block. -/
theorem length_eq {supply supply' : LabelSupply} {os : List Origin} {bs : List Block}
    (h : Emits supply os bs supply') : bs.length = os.length := by
  induction h with
  | nil supply => rfl
  | cons hcode _ ih => rw [List.length_cons, List.length_cons, ih]

/-- The block of one origin, compiled with the supply that is left when
it is reached. -/
theorem getElem? {supply supply' : LabelSupply} {os : List Origin} {bs : List Block}
    (h : Emits supply os bs supply') {i : Nat} {o : Origin} (ho : os[i]? = some o) :
    ∃ before code after, o.Compiles before code after ∧ bs[i]? = some (o.block code) := by
  induction h generalizing i with
  | nil supply => simp at ho
  | cons hcode hrest ih =>
      cases i with
      | zero =>
          rw [List.getElem?_cons_zero, Option.some.injEq] at ho
          subst ho
          exact ⟨_, _, _, Origin.compiles_of_compile hcode, rfl⟩
      | succ i =>
          rw [List.getElem?_cons_succ] at ho
          simpa using ih ho

end Emits

/-! ### Assembling emits the origins -/

/-- One line is one origin. -/
theorem addLine_emits {unit : String} {current current' : Option String}
    {progress progress' : Progress} {line : Line}
    (h : addLine unit (current, progress) line = .ok (current', progress')) :
    current' = functionAt current line.command ∧
    ∃ b, progress'.blocks.toList = progress.blocks.toList ++ [b] ∧
      Emits progress.supply [.line ⟨unit, current'⟩ line] [b] progress'.supply := by
  unfold addLine at h
  simp only at h
  split at h
  · rename_i code supply hcode
    cases h
    refine ⟨rfl, _, Array.toList_push, ?_⟩
    exact Emits.single (.line ⟨unit, functionAt current line.command⟩ line) hcode
  · cases h

/-- The lines of a unit are its origins. -/
theorem foldlM_addLine_emits {unit : String} {lines : List Line} {current current' : Option String}
    {progress progress' : Progress}
    (h : lines.foldlM (addLine unit) (current, progress) = .ok (current', progress')) :
    ∃ bs, progress'.blocks.toList = progress.blocks.toList ++ bs ∧
      Emits progress.supply (lineOrigins unit current lines) bs progress'.supply := by
  induction lines generalizing current progress with
  | nil =>
      cases h
      exact ⟨[], by simp, .nil _⟩
  | cons line lines ih =>
      rw [List.foldlM_cons] at h
      cases hline : addLine unit (current, progress) line with
      | error err => rw [hline] at h; cases h
      | ok state =>
          obtain ⟨current₁, progress₁⟩ := state
          rw [hline] at h
          obtain ⟨hcurrent, b, hb, hemit⟩ := addLine_emits hline
          obtain ⟨bs, hbs, hemits⟩ := ih h
          refine ⟨b :: bs, by rw [hbs, hb]; simp, ?_⟩
          rw [hcurrent] at hemit hemits
          exact hemit.append hemits

/-- A unit is its lines, behind no function. -/
theorem addUnit_emits {unit : SourceUnit} {progress progress' : Progress}
    (h : addUnit progress unit = .ok progress') :
    ∃ bs, progress'.blocks.toList = progress.blocks.toList ++ bs ∧
      Emits progress.supply (lineOrigins unit.name none unit.lines) bs progress'.supply := by
  unfold addUnit at h
  cases hlines : unit.lines.foldlM (addLine unit.name) (none, progress) with
  | error err => rw [hlines] at h; cases h
  | ok state =>
      obtain ⟨current, progress₁⟩ := state
      rw [hlines] at h
      cases h
      exact foldlM_addLine_emits hlines

/-- Units one after the other. -/
theorem foldlM_addUnit_emits {units : List SourceUnit} {progress progress' : Progress}
    (h : units.foldlM addUnit progress = .ok progress') :
    ∃ bs, progress'.blocks.toList = progress.blocks.toList ++ bs ∧
      Emits progress.supply (units.flatMap fun unit => lineOrigins unit.name none unit.lines) bs
        progress'.supply := by
  induction units generalizing progress with
  | nil =>
      cases h
      exact ⟨[], by simp, .nil _⟩
  | cons unit units ih =>
      rw [List.foldlM_cons] at h
      cases hunit : addUnit progress unit with
      | error err => rw [hunit] at h; cases h
      | ok progress₁ =>
          rw [hunit] at h
          obtain ⟨bs₁, hbs₁, hemits₁⟩ := addUnit_emits hunit
          obtain ⟨bs, hbs, hemits⟩ := ih h
          refine ⟨bs₁ ++ bs, by rw [hbs, hbs₁, List.append_assoc], ?_⟩
          rw [List.flatMap_cons]
          exact hemits₁.append hemits

/-- The start of the machine is one origin. -/
theorem addBootstrap_emits {entryPoint : String} {progress progress' : Progress}
    (h : addBootstrap entryPoint progress = .ok progress') :
    ∃ b, progress'.blocks.toList = progress.blocks.toList ++ [b] ∧
      Emits progress.supply [.start entryPoint] [b] progress'.supply := by
  unfold addBootstrap at h
  split at h
  · rename_i code supply hcode
    cases h
    exact ⟨_, Array.toList_push, Emits.single (.start entryPoint) hcode⟩
  · cases h

/-- **A program that assembles is what its origins emit** from the fresh
supply. -/
theorem assemble_emits {entryPoint? : Option String} {units : List SourceUnit} {p : Program}
    (h : assemble entryPoint? units = .ok p) :
    ∃ supply, Emits {} (origins entryPoint? units) p.blocks supply := by
  unfold assemble at h
  cases entryPoint? with
  | none =>
      cases hunits : units.foldlM addUnit {} with
      | error err => simp only [bind, Except.bind, hunits] at h; cases h
      | ok progress =>
          simp only [bind, Except.bind, hunits, pure, Except.pure] at h
          cases h
          obtain ⟨bs, hbs, hemits⟩ := foldlM_addUnit_emits hunits
          refine ⟨progress.supply, ?_⟩
          rw [hbs]
          exact hemits
  | some entryPoint =>
      cases hstart : addBootstrap entryPoint {} with
      | error err => simp only [bind, Except.bind, hstart] at h; cases h
      | ok start =>
          obtain ⟨b, hb, hemit⟩ := addBootstrap_emits hstart
          cases hunits : units.foldlM addUnit start with
          | error err => simp only [bind, Except.bind, hstart, hunits] at h; cases h
          | ok progress =>
              simp only [bind, Except.bind, hstart, hunits, pure, Except.pure] at h
              cases h
              obtain ⟨bs, hbs, hemits⟩ := foldlM_addUnit_emits hunits
              refine ⟨progress.supply, ?_⟩
              rw [hbs, hb]
              exact hemit.append hemits

/-- The program of the units, and an empty one if they do not assemble. -/
def compiled (entryPoint? : Option String) (units : List SourceUnit) : Program :=
  (assemble entryPoint? units).toOption.getD ⟨[]⟩

end Program

end HackComputer.Vm
