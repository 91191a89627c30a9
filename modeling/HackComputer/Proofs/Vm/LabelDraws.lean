import HackComputer.Proofs.Vm.LabelNames
import Mathlib.Data.List.Nodup

/-!
# `HackComputer.Proofs.Vm.LabelDraws`: labels taken by calls that may fail

Compiling hands the label supply back only if it succeeds, so that a fault
cannot take a label by the very type of the result. That hides a question
about the order of things. A command is checked and takes its label in some
order, and a label that was taken before a check would be lost when the check
fails. `Drawing` has the supply as a state that no fault takes back, and
`Command.drawing` goes through the checks and the labels one by one. In one
place a label is taken first: the prologue of a function pushes zeros, and
pushing is checked like any other push. `drawing_run` says that all the same
no fault ever takes a label.

A session is a sequence of calls on one supply, some of which fail. Its calls
may come in any context and with any names, also such that no source can
spell.

* `after_eq`: what one call does to the supply.
* `labelNames_lines`: the labels in the code of one call, the one that its
  command spells out and the one that it has taken.
* `session_draws`: every label that is taken in a session is taken once, and
  its definition stands in the code of the call that took it. It is the only
  definition of that name exactly if no command spells the name out.
* `function_spells_drawn_label`: a command that does.
-/

set_option autoImplicit false

namespace HackComputer.Vm

open Isa Assembly Code

/-- Compiling with the supply as a state: a label that was taken stays taken,
whatever fails afterwards. -/
abbrev Drawing : Type → Type := ExceptT Fault (StateM LabelSupply)

/-- Takes a label. -/
def draw (kind : LabelKind) : Drawing String :=
  ExceptT.lift (modifyGet fun supply => supply.fresh kind)

/-- A part of compiling that has nothing to do with the supply. -/
def checked {α : Type} (part : Except Fault α) : Drawing α :=
  ExceptT.mk (pure part)

/-- An arithmetic command. -/
def Arithmetic.drawing : Arithmetic → Drawing Lines
  | .add => return binary (.addDY .m)
  | .sub => return binary (.subYD .m)
  | .and => return binary (.andDY .m)
  | .or => return binary (.orDY .m)
  | .neg => return unary (.negY .m)
  | .not => return unary (.notY .m)
  | .eq => do return compare ⟨false, true, false⟩ (← draw .equal)
  | .gt => do return compare ⟨false, false, true⟩ (← draw .greater)
  | .lt => do return compare ⟨true, false, false⟩ (← draw .less)

namespace Frame

/-- A call. -/
def drawingCall (function : String) (arguments : Word) : Drawing Lines := do
  checked (checkName function)
  checked (checkCount .arguments arguments)
  let returnLabel ← draw .returnPoint
  return callLines function arguments returnLabel

/-- The start of a function. The push of a zero is checked when the label is
taken already. -/
def drawingFunction (name : String) (locals : Word) : Drawing Lines := do
  checked (checkName name)
  checked (checkCount .locals locals)
  if locals = 0 then return [.label (entry name)]
  let loop ← draw .zeroLocals
  let pushZero ← checked (push name .constant 0)
  return .label (entry name)
    :: ([literal locals, setD (.y .a), register .r13, setM .d, .label loop] ++ pushZero
      ++ [register .r13, setMD (.decY .m), symbol loop, jump .d ⟨false, false, true⟩])

/-- The start of the machine. -/
def drawingBootstrap (entryPoint : String) : Drawing Lines := do
  let lines ← drawingCall entryPoint 0
  return [literal stackBase, setD (.y .a), register .sp, setM .d] ++ lines

end Frame

/-- A command in its context. -/
def Command.drawing (context : Context) : Command → Drawing Lines
  | .arithmetic op => op.drawing
  | .push segment index => checked (Code.push context.unit segment index)
  | .pop segment index => checked (Code.pop context.unit segment index)
  | .label name => do return [.label (← checked (context.scope name))]
  | .goto target => do return [symbol (← checked (context.scope target)), jumpAlways]
  | .ifGoto target => do
      let full ← checked (context.scope target)
      return popD ++ [symbol full, jump .d ⟨true, false, true⟩]
  | .function name locals => Frame.drawingFunction name locals
  | .call name arguments => Frame.drawingCall name arguments
  | .ret => return Frame.returnLines

/-- A command or the start of the machine. -/
def Origin.drawing : Origin → Drawing Lines
  | start entryPoint => Frame.drawingBootstrap entryPoint
  | line context l => l.command.drawing context

/-! ### One call -/

/-- What compiling says about the supply: it is handed back or left as it
was. -/
def outcome (supply : LabelSupply) (compiled : Except Fault (Lines × LabelSupply)) :
    Except Fault Lines × LabelSupply :=
  match compiled with
  | .ok (lines, supply') => (.ok lines, supply')
  | .error fault => (.error fault, supply)

/-- What has nothing to do with the supply leaves it as it was. -/
theorem checked_run (part : Except Fault Lines) (supply : LabelSupply) :
    (checked part).run.run supply = outcome supply (part.map (·, supply)) := by
  cases part <;> rfl

/-- Code that is made of what was checked. -/
theorem checked_bind_run {α : Type} (part : Except Fault α) (code : α → Lines)
    (supply : LabelSupply) :
    (checked part >>= fun a => pure (code a)).run.run supply
      = outcome supply (part >>= fun a => pure (code a, supply)) := by
  cases part <;> rfl

/-- A call that draws its label is the call that is handed one. -/
theorem drawingCall_run (function : String) (arguments : Word) (supply : LabelSupply) :
    (Frame.drawingCall function arguments).run.run supply
      = outcome supply (Frame.call function arguments supply) := by
  unfold Frame.drawingCall Frame.call
  cases Frame.checkName function with
  | error fault => rfl
  | ok _ => cases Frame.checkCount .arguments arguments <;> rfl

/-- A function that draws its label is the function that is handed one. Without
locals neither takes any. -/
theorem drawingFunction_run (name : String) (locals : Word) (supply : LabelSupply) :
    (Frame.drawingFunction name locals).run.run supply
      = outcome supply (Frame.function name locals supply) := by
  unfold Frame.drawingFunction Frame.function
  cases Frame.checkName name with
  | error fault => rfl
  | ok _ =>
      cases Frame.checkCount .locals locals with
      | error fault => rfl
      | ok _ =>
          by_cases hzero : locals = 0
          · subst hzero
            rfl
          · -- A zero can be pushed in every unit, so the last check never fails.
            rw [if_neg hzero, if_neg hzero]
            rfl

/-- The start of the machine is a call with some code before it. -/
theorem drawingBootstrap_run (entryPoint : String) (supply : LabelSupply) :
    (Frame.drawingBootstrap entryPoint).run.run supply
      = outcome supply (Frame.bootstrap entryPoint supply) := by
  have hcall := drawingCall_run entryPoint 0 supply
  unfold Frame.drawingBootstrap Frame.bootstrap
  simp only [ExceptT.run_bind, StateT.run_bind, hcall]
  cases Frame.call entryPoint 0 supply <;> rfl

/-- **No fault takes a label.** With the supply as a state, compiling ends
with the code and the supply that are handed back, or with the fault and the
supply as it was. -/
theorem drawing_run (o : Origin) (supply : LabelSupply) :
    o.drawing.run.run supply = outcome supply (o.compile supply) := by
  cases o with
  | start entryPoint => exact drawingBootstrap_run entryPoint supply
  | line context l =>
      obtain ⟨row, text, command⟩ := l
      cases command with
      | arithmetic op => cases op <;> rfl
      | push segment index => exact checked_run (Code.push context.unit segment index) supply
      | pop segment index => exact checked_run (Code.pop context.unit segment index) supply
      | label name => exact checked_bind_run (context.scope name) _ supply
      | goto target => exact checked_bind_run (context.scope target) _ supply
      | ifGoto target => exact checked_bind_run (context.scope target) _ supply
      | function name locals => exact drawingFunction_run name locals supply
      | call name arguments => exact drawingCall_run name arguments supply
      | ret => rfl

/-! ### Sessions -/

/-- One call of a session. -/
structure Exchange where
  origin : Origin
  /-- The supply before the call. -/
  before : LabelSupply
  answer : Except Fault Lines
  /-- The supply after the call. -/
  after : LabelSupply

/-- Calls one after the other, each with the supply that the call before it
has left. -/
def session : LabelSupply → List Origin → List Exchange
  | _, [] => []
  | supply, o :: os =>
      ⟨o, supply, (o.drawing.run.run supply).1, (o.drawing.run.run supply).2⟩
        :: session (o.drawing.run.run supply).2 os

namespace Exchange

/-- What was compiled, if the call succeeded. -/
def done? (x : Exchange) : Option Origin :=
  match x.answer with
  | .ok _ => some x.origin
  | .error _ => none

/-- The code. A call that failed has none. -/
def lines (x : Exchange) : Lines :=
  match x.answer with
  | .ok lines => lines
  | .error _ => []

/-- The kind and the number of the label that the call has taken. -/
def drawn? (x : Exchange) : Option (LabelKind × Nat) :=
  x.done?.bind fun o => o.draws?.map fun kind => (kind, x.before.count kind + 1)

/-- The label that the call has taken. -/
def made? (x : Exchange) : Option String :=
  x.drawn?.map fun drawn => generatedLabel drawn.1 drawn.2

/-- The label that the command of the call spells out. -/
def spelled? (x : Exchange) : Option String :=
  x.done?.bind fun o => o.spells?.map LabelSource.name

end Exchange

/-- The supply with one label counted, of the kind that is given. -/
def LabelSupply.counting (supply : LabelSupply) : Option LabelKind → LabelSupply
  | none => supply
  | some .returnPoint => { supply with returns := supply.returns + 1 }
  | some _ => { supply with inner := supply.inner + 1 }

/-- The supply after an origin has counted the label that the origin takes. -/
theorem supplyAfter_eq_counting (o : Origin) (supply : LabelSupply) :
    o.supplyAfter supply = supply.counting o.draws? := by
  unfold Origin.supplyAfter
  cases o.draws? with
  | none => rfl
  | some kind => cases kind <;> rfl

/-- Every call of a session is a call. -/
theorem outcome_of_mem_session {supply : LabelSupply} {os : List Origin} {x : Exchange}
    (h : x ∈ session supply os) :
    (x.answer, x.after) = outcome x.before (x.origin.compile x.before) := by
  induction os generalizing supply with
  | nil => cases h
  | cons o os ih =>
      rcases List.mem_cons.mp h with rfl | hlater
      · exact drawing_run o supply
      · exact ih hlater

/-- A call that fails leaves the supply as it was, and one that succeeds counts
the label that its command takes. -/
theorem after_eq {supply : LabelSupply} {os : List Origin} {x : Exchange}
    (h : x ∈ session supply os) :
    (∀ fault, x.origin.compile x.before = .error fault →
      x.answer = .error fault ∧ x.after = x.before) ∧
    (∀ lines supply', x.origin.compile x.before = .ok (lines, supply') →
      x.answer = .ok lines ∧ x.after = supply' ∧
      supply' = x.before.counting x.origin.draws?) := by
  have hcall := outcome_of_mem_session h
  constructor
  · intro fault hcompile
    rw [hcompile] at hcall
    exact Prod.mk.inj hcall
  · intro lines supply' hcompile
    rw [hcompile] at hcall
    obtain ⟨hanswer, hafter⟩ := Prod.mk.inj hcall
    rw [← supplyAfter_eq_counting]
    exact ⟨hanswer, hafter, (Origin.compiles_of_compile hcompile).labels.2⟩

/-- The labels in the code of a call: the one that its command spells out and
the one that the call has taken. -/
theorem labelNames_lines {supply : LabelSupply} {os : List Origin} {x : Exchange}
    (h : x ∈ session supply os) :
    labelNames x.lines = x.spelled?.toList ++ x.made?.toList := by
  have hcall := outcome_of_mem_session h
  obtain ⟨o, before, answer, after⟩ := x
  cases hcompile : o.compile before with
  | error fault =>
      rw [hcompile] at hcall
      cases hcall
      rfl
  | ok result =>
      rw [hcompile] at hcall
      cases hcall
      show labelNames result.1 = (o.spells?.map LabelSource.name).toList
        ++ ((o.draws?.map fun kind => (kind, before.count kind + 1)).map
          fun drawn => generatedLabel drawn.1 drawn.2).toList
      rw [(Origin.compiles_of_compile hcompile).labels.1, Origin.labelSources, List.map_append]
      cases o.spells? <;> cases o.draws? <;> rfl

/-- The labels that are taken in a session, and those that its successful calls
take one after the other from the same supply. -/
theorem filterMap_drawn_session (supply : LabelSupply) (os : List Origin) :
    (session supply os).filterMap Exchange.drawn?
      = (labelSources supply ((session supply os).filterMap Exchange.done?)).filterMap
          LabelSource.drawn? := by
  induction os generalizing supply with
  | nil => rfl
  | cons o os ih =>
      rw [session, drawing_run]
      cases hcompile : o.compile supply with
      | error fault => exact ih supply
      | ok result =>
          obtain ⟨lines, supply'⟩ := result
          obtain ⟨-, rfl⟩ := (Origin.compiles_of_compile hcompile).labels
          show List.filterMap Exchange.drawn?
              (⟨o, supply, .ok lines, o.supplyAfter supply⟩ :: session (o.supplyAfter supply) os)
            = (labelSources supply (o :: (session (o.supplyAfter supply) os).filterMap
                Exchange.done?)).filterMap LabelSource.drawn?
          rw [labelSources, List.filterMap_append, filterMap_drawn_labelSources, ← ih,
            List.filterMap_cons]
          have hhere : Exchange.drawn? ⟨o, supply, .ok lines, o.supplyAfter supply⟩
              = o.draws?.map fun kind => (kind, supply.count kind + 1) := rfl
          rw [hhere]
          cases o.draws? <;> rfl

/-- Made-up labels of one name are of one kind and have one number. -/
theorem generatedLabel_injective :
    Function.Injective fun drawn : LabelKind × Nat => generatedLabel drawn.1 drawn.2 := by
  intro drawn drawn' h
  have hmarked := LabelSource.marked_eq_of_name_eq (s := .generated drawn.1 drawn.2)
    (t := .generated drawn'.1 drawn'.2) trivial trivial h
  obtain ⟨hkind, hn⟩ := LabelSource.generated_inj hmarked
  exact Prod.ext hkind hn

/-- No label is taken twice. -/
theorem nodup_made (supply : LabelSupply) (os : List Origin) :
    ((session supply os).filterMap Exchange.made?).Nodup := by
  have hmap : (session supply os).filterMap Exchange.made?
      = ((session supply os).filterMap Exchange.drawn?).map
          fun drawn => generatedLabel drawn.1 drawn.2 :=
    List.map_filterMap.symm
  rw [hmap, filterMap_drawn_session]
  exact (nodup_drawn supply _).map generatedLabel_injective

/-- Every label of a session is spelled out or taken. -/
theorem count_labelNames_session (name : String) {calls : List Exchange}
    (h : ∀ x ∈ calls, labelNames x.lines = x.spelled?.toList ++ x.made?.toList) :
    (labelNames (calls.flatMap Exchange.lines)).count name
      = (calls.filterMap Exchange.spelled?).count name
        + (calls.filterMap Exchange.made?).count name := by
  induction calls with
  | nil => rfl
  | cons x calls ih =>
      have hrest := ih fun y hy => h y (List.mem_cons_of_mem x hy)
      have hcons : ∀ f : Exchange → Option String,
          ((x :: calls).filterMap f).count name
            = (f x).toList.count name + (calls.filterMap f).count name := by
        intro f
        rw [List.filterMap_cons]
        cases f x with
        | none => simp
        | some y => simp [List.count_cons, Nat.add_comm]
      rw [List.flatMap_cons, labelNames_append, List.count_append, h x List.mem_cons_self, hrest,
        hcons, hcons, List.count_append]
      omega

/-- **What labels a session takes.** Whatever the supply is at the beginning
and whichever commands are compiled in whichever contexts, a call that fails
leaves the supply as it was, and one that succeeds counts one label if its
command takes one: a return label for a call and for the start of the machine,
an inner label for a comparison and for a function with local variables. No
label is taken twice in the session. The code of a call defines the label that
the call has taken, besides the one that its command spells out, if it spells
out one. No other definition of the taken label stands in all the code of the
session exactly if no successful call spells out a label of that name. -/
theorem session_draws (supply : LabelSupply) (os : List Origin) :
    (∀ x ∈ session supply os,
      (∀ fault, x.origin.compile x.before = .error fault →
        x.answer = .error fault ∧ x.after = x.before) ∧
      (∀ lines supply', x.origin.compile x.before = .ok (lines, supply') →
        x.answer = .ok lines ∧ x.after = supply' ∧
        supply' = x.before.counting x.origin.draws?) ∧
      labelNames x.lines = x.spelled?.toList ++ x.made?.toList) ∧
    ((session supply os).filterMap Exchange.made?).Nodup ∧
    ∀ x ∈ session supply os, ∀ name, x.made? = some name →
      ((labelNames ((session supply os).flatMap Exchange.lines)).count name = 1
        ↔ ∀ y ∈ session supply os, y.spelled? ≠ some name) := by
  refine ⟨fun x hx => ⟨(after_eq hx).1, (after_eq hx).2, labelNames_lines hx⟩,
    nodup_made supply os, ?_⟩
  intro x hx name hname
  have hmem : name ∈ (session supply os).filterMap Exchange.made? :=
    List.mem_filterMap.mpr ⟨x, hx, hname⟩
  have honce := List.count_eq_one_of_mem (nodup_made supply os) hmem
  have hcount := count_labelNames_session name fun y (hy : y ∈ session supply os) =>
    labelNames_lines hy
  have hspelled : ((session supply os).filterMap Exchange.spelled?).count name = 0
      ↔ ∀ y ∈ session supply os, y.spelled? ≠ some name := by
    simp only [List.count_eq_zero, List.mem_filterMap, not_exists, not_and, ne_eq]
  rw [← hspelled, hcount, honce]
  omega

/-- A comparison takes the label `$EQ.1`, and the function behind it has an
entry of that name: the name is defined twice. -/
theorem function_spells_drawn_label :
    let calls := session {} [.line ⟨"Main", none⟩ ⟨1, "eq", .arithmetic .eq⟩,
      .line ⟨"Main", some "EQ.1"⟩ ⟨2, "function EQ.1 0", .function "EQ.1" 0⟩]
    calls.map Exchange.made? = [some "$EQ.1", none] ∧
    calls.map Exchange.spelled? = [none, some "$EQ.1"] ∧
    (labelNames (calls.flatMap Exchange.lines)).count "$EQ.1" = 2 :=
  ⟨rfl, rfl, rfl⟩

end HackComputer.Vm
