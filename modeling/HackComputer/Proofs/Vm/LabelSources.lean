import HackComputer.Proofs.Assembly.Linking
import HackComputer.Proofs.Vm.Origin

/-!
# `HackComputer.Proofs.Vm.LabelSources`: where the labels of a program come from

The labels of a compiled program come from four places and share one
space of names:

    entry of function f           $f
    made up, number n of kind K   $K.n
    label l inside function f     f.l
    label l before any function   unit$top.l

`LabelSource` keeps where a label comes from, so that names need not be
taken apart to find out. An origin has at most two sources: the label
that its command spells out, and one that it takes from the supply.

* `labelNames_code`: the labels of a program are the names of its
  sources, in order.
* `nodup_drawn`: no made-up label comes twice.
* `Program.exists_labelSource`: every line with a label has its source,
  that of the command whose block holds the line.
-/

set_option autoImplicit false

namespace HackComputer.Vm

open Isa Assembly Code

/-! ### Where labels come from -/

/-- Where a label comes from. -/
inductive LabelSource where
  /-- The first line of a function. -/
  | entry (function : String)
  /-- Taken from the supply. -/
  | generated (kind : LabelKind) (n : Nat)
  /-- Declared inside a function. -/
  | inside (function label : String)
  /-- Declared before any function of the unit. -/
  | outside (unit label : String)
  deriving DecidableEq, Repr

namespace LabelSource

/-- The name of the label. -/
def name : LabelSource → String
  | entry function => Frame.entry function
  | generated kind n => generatedLabel kind n
  | inside function label => function ++ "." ++ label
  | outside unit label => unit ++ "$top." ++ label

/-- The function of an entry label. -/
def function? : LabelSource → Option String
  | entry function => some function
  | _ => none

/-- What was taken from the supply. -/
def drawn? : LabelSource → Option (LabelKind × Nat)
  | generated kind n => some (kind, n)
  | _ => none

/-- The label if it was declared by a command. -/
def declared? : LabelSource → Option LabelSource
  | inside function label => some (inside function label)
  | outside unit label => some (outside unit label)
  | _ => none

end LabelSource

/-- How many labels of a kind's count have been handed out. -/
def LabelSupply.count (supply : LabelSupply) : LabelKind → Nat
  | .returnPoint => supply.returns
  | _ => supply.inner

/-- The source of a label that a context declares. -/
def Context.labelSource (context : Context) (label : String) : LabelSource :=
  match context.function with
  | some function => .inside function label
  | none => .outside context.unit label

namespace Origin

/-- The kind of label that an origin takes from the supply, if it takes
one. -/
def draws? : Origin → Option LabelKind
  | start _ => some .returnPoint
  | line _ ⟨_, _, command⟩ =>
      match command with
      | .arithmetic .eq => some .equal
      | .arithmetic .gt => some .greater
      | .arithmetic .lt => some .less
      | .function _ locals => if locals = 0 then none else some .zeroLocals
      | .call _ _ => some .returnPoint
      | _ => none

/-- The label that an origin spells out, if it does. -/
def spells? : Origin → Option LabelSource
  | line _ ⟨_, _, .function name _⟩ => some (.entry name)
  | line context ⟨_, _, .label name⟩ => some (context.labelSource name)
  | _ => none

/-- The sources of an origin's labels, in order. -/
def labelSources (supply : LabelSupply) (o : Origin) : List LabelSource :=
  o.spells?.toList ++ (o.draws?.map fun kind => .generated kind (supply.count kind + 1)).toList

/-- The supply after an origin. -/
def supplyAfter (supply : LabelSupply) (o : Origin) : LabelSupply :=
  (o.draws?.map fun kind => (supply.fresh kind).2).getD supply

/-- The function that an origin declares. -/
def function? (o : Origin) : Option String :=
  o.spells?.bind LabelSource.function?

/-- The label that an origin declares by a command. -/
def declared? (o : Origin) : Option LabelSource :=
  o.spells?.bind LabelSource.declared?

end Origin

/-- The sources of the labels of origins, in order. -/
def labelSources (supply : LabelSupply) : List Origin → List LabelSource
  | [] => []
  | o :: os => o.labelSources supply ++ labelSources (o.supplyAfter supply) os

/-! ### The labels of a program -/

/-- The labels of an origin's code are those of its sources. -/
theorem Origin.Compiles.labels {o : Origin} {supply supply' : LabelSupply} {lines : Lines}
    (h : o.Compiles supply lines supply') :
    labelNames lines = (o.labelSources supply).map LabelSource.name ∧
    supply' = o.supplyAfter supply := by
  cases h with
  | arithmetic context row text op => cases op <;> exact ⟨rfl, rfl⟩
  | push context row text segment index location hlocation =>
      exact ⟨by cases location <;> rfl, rfl⟩
  | pop context row text segment index location lines hlocation hlines =>
      refine ⟨?_, rfl⟩
      cases location with
      | immediate value => cases hlines
      | indirect base offset => cases hlines; rfl
      | direct place => cases hlines; rfl
      | symbol name => cases hlines; rfl
  | label context row text name full hscope =>
      refine ⟨?_, rfl⟩
      show [full] = [(context.labelSource name).name]
      unfold Context.scope at hscope
      split at hscope
      · cases hscope
      · rw [Context.labelSource]
        cases hfunction : context.function with
        | some function =>
            rw [hfunction] at hscope
            cases hscope
            rfl
        | none =>
            rw [hfunction] at hscope
            cases hscope
            rfl
  | goto context row text target full hscope => exact ⟨rfl, rfl⟩
  | ifGoto context row text target full hscope => exact ⟨rfl, rfl⟩
  | enter context row text name => exact ⟨rfl, rfl⟩
  | function context row text name locals hsome hsmall =>
      -- Only with local variables there is a loop, and a label for it.
      have hdraws : (Origin.line context ⟨row, text, .function name locals⟩).draws?
          = some .zeroLocals := if_neg hsome
      rw [Origin.labelSources, Origin.supplyAfter, hdraws]
      exact ⟨rfl, rfl⟩
  | call context row text name arguments => exact ⟨rfl, rfl⟩
  | ret context row text => exact ⟨rfl, rfl⟩
  | start entryPoint => exact ⟨rfl, rfl⟩

/-- The labels of emitted code are those of the sources. -/
theorem labelNames_of_emits {supply supply' : LabelSupply} {os : List Origin} {bs : List Block}
    (h : Program.Emits supply os bs supply') :
    labelNames (bs.flatMap Block.code) = (labelSources supply os).map LabelSource.name := by
  induction h with
  | nil supply => rfl
  | cons hcode _ ih =>
      obtain ⟨hlabels, rfl⟩ := (Origin.compiles_of_compile hcode).labels
      rw [List.flatMap_cons, labelNames_append, Origin.code_block, hlabels, ih, labelSources,
        List.map_append]

/-- **The labels of a program are those of its sources**, in order. -/
theorem labelNames_code {entryPoint? : Option String} {units : List SourceUnit} {p : Program}
    (h : Program.assemble entryPoint? units = .ok p) :
    labelNames p.code
      = (labelSources {} (Program.origins entryPoint? units)).map LabelSource.name := by
  obtain ⟨supply, hemits⟩ := Program.assemble_emits h
  exact labelNames_of_emits hemits

/-! ### What the sources have in common -/

/-- What is asked of spelled-out labels alone can be asked of the
origins. -/
theorem filterMap_labelSources {β : Type} {f : LabelSource → Option β}
    (hf : ∀ kind n, f (.generated kind n) = none) (supply : LabelSupply) (os : List Origin) :
    (labelSources supply os).filterMap f = os.filterMap fun o => o.spells?.bind f := by
  induction os generalizing supply with
  | nil => rfl
  | cons o os ih =>
      have hhere : (o.labelSources supply).filterMap f = (o.spells?.bind f).toList := by
        have hdrawn : (o.draws?.map fun kind =>
            LabelSource.generated kind (supply.count kind + 1)).toList.filterMap f = [] := by
          cases o.draws? with
          | none => rfl
          | some kind => simp [hf]
        rw [Origin.labelSources, List.filterMap_append, hdrawn, List.append_nil]
        cases o.spells? with
        | none => rfl
        | some s => cases hs : f s <;> simp [hs]
      rw [labelSources, List.filterMap_append, ih, hhere, List.filterMap_cons]
      cases o.spells?.bind f <;> rfl

/-- Handing out a label counts it. -/
theorem count_fresh_self (supply : LabelSupply) (kind : LabelKind) :
    (supply.fresh kind).2.count kind = supply.count kind + 1 := by
  cases kind <;> rfl

/-- Handing out a label takes no count back. -/
theorem count_le_fresh (supply : LabelSupply) (kind kind' : LabelKind) :
    supply.count kind' ≤ (supply.fresh kind).2.count kind' := by
  cases kind <;> cases kind' <;>
    simp [LabelSupply.fresh, LabelSupply.count]

/-- What an origin takes from the supply is counted after it. -/
theorem count_le_supplyAfter (supply : LabelSupply) (o : Origin) (kind : LabelKind) :
    supply.count kind ≤ (o.supplyAfter supply).count kind := by
  unfold Origin.supplyAfter
  cases o.draws? with
  | none => exact Nat.le_refl _
  | some kind' => exact count_le_fresh supply kind' kind

/-- A spelled-out label is not taken from the supply. -/
theorem drawn?_of_spells {o : Origin} {s : LabelSource} (h : o.spells? = some s) :
    s.drawn? = none := by
  unfold Origin.spells? at h
  split at h
  · cases h
    rfl
  · cases h
    unfold Context.labelSource
    split <;> rfl
  · cases h

/-- What an origin takes from the supply. -/
theorem filterMap_drawn_labelSources (supply : LabelSupply) (o : Origin) :
    (o.labelSources supply).filterMap LabelSource.drawn?
      = (o.draws?.map fun kind => (kind, supply.count kind + 1)).toList := by
  have hspells : o.spells?.toList.filterMap LabelSource.drawn? = [] := by
    cases hs : o.spells? with
    | none => rfl
    | some s => simp [drawn?_of_spells hs]
  rw [Origin.labelSources, List.filterMap_append, hspells]
  cases o.draws? <;> rfl

/-- Made-up labels have numbers that the supply has not handed out
before. -/
theorem count_lt_of_drawn {supply : LabelSupply} {os : List Origin} {kind : LabelKind} {n : Nat}
    (h : (kind, n) ∈ (labelSources supply os).filterMap LabelSource.drawn?) :
    supply.count kind < n := by
  induction os generalizing supply with
  | nil => cases h
  | cons o os ih =>
      rw [labelSources, List.filterMap_append, List.mem_append, filterMap_drawn_labelSources] at h
      rcases h with hhere | hlater
      · rw [Option.mem_toList, Option.map_eq_some_iff] at hhere
        obtain ⟨kind', -, hpair⟩ := hhere
        cases hpair
        exact Nat.lt_succ_self _
      · exact Nat.lt_of_le_of_lt (count_le_supplyAfter supply o kind) (ih hlater)

/-- No made-up label comes twice. -/
theorem nodup_drawn (supply : LabelSupply) (os : List Origin) :
    ((labelSources supply os).filterMap LabelSource.drawn?).Nodup := by
  induction os generalizing supply with
  | nil => exact List.nodup_nil
  | cons o os ih =>
      rw [labelSources, List.filterMap_append, filterMap_drawn_labelSources]
      cases hdraws : o.draws? with
      | none => exact ih _
      | some kind =>
          refine List.nodup_cons.mpr ⟨?_, ih _⟩
          -- Later labels have numbers above the count, and the count includes this one.
          intro hlater
          have hlt := count_lt_of_drawn hlater
          rw [Origin.supplyAfter, hdraws] at hlt
          exact Nat.lt_irrefl _ (Nat.lt_of_lt_of_eq hlt (count_fresh_self supply kind).symm)

/-! ### The source of a line -/

namespace Program

/-- The source of the label in line `i`: the line belongs to the block of
one origin, and the labels of the block stand in the order of the
origin's sources. -/
def labelSourceAt? : LabelSupply → List Origin → List Block → Nat → Option LabelSource
  | supply, o :: os, b :: bs, i =>
      if i < b.code.length then (o.labelSources supply)[labelIndex b.code i]?
      else labelSourceAt? (o.supplyAfter supply) os bs (i - b.code.length)
  | _, _, _, _ => none

/-- The source of a line has the number of its label among all sources. -/
theorem labelSourceAt?_eq {supply supply' : LabelSupply} {os : List Origin} {bs : List Block}
    (h : Emits supply os bs supply') {i : Nat} {name : String}
    (hi : (bs.flatMap Block.code)[i]? = some (.label name)) :
    labelSourceAt? supply os bs i
      = (labelSources supply os)[labelIndex (bs.flatMap Block.code) i]? := by
  induction h generalizing i with
  | nil supply => cases hi
  | @cons supply supply' supply'' o os code bs hcode _ ih =>
      obtain ⟨hlabels, rfl⟩ := (Origin.compiles_of_compile hcode).labels
      have hlength : (o.labelSources supply).length = (labelNames code).length := by
        rw [hlabels, List.length_map]
      rw [List.flatMap_cons, Origin.code_block] at hi ⊢
      rw [labelSourceAt?, Origin.code_block, labelSources]
      -- The line is in this block or in a later one, behind the labels of this one.
      by_cases hhere : i < code.length
      · rw [List.getElem?_append_left hhere] at hi
        obtain ⟨hindex, -⟩ := List.getElem?_eq_some_iff.mp (getElem?_labelNames hi)
        rw [if_pos hhere, labelIndex_append_left (Nat.le_of_lt hhere),
          List.getElem?_append_left (hlength ▸ hindex)]
      · have hbehind : code.length ≤ i := Nat.le_of_not_lt hhere
        rw [List.getElem?_append_right hbehind] at hi
        rw [if_neg hhere, ih hi, labelIndex_append_right hbehind, ← hlength,
          List.getElem?_append_right (Nat.le_add_right _ _), Nat.add_sub_cancel_left]

/-- Every label has a source, and its name from there. -/
theorem exists_labelSource {entryPoint? : Option String} {units : List SourceUnit} {p : Program}
    (h : assemble entryPoint? units = .ok p) {i : Nat} {name : String}
    (hi : p.code[i]? = some (.label name)) :
    ∃ s, (labelSources {} (origins entryPoint? units))[labelIndex p.code i]? = some s ∧
      labelSourceAt? {} (origins entryPoint? units) p.blocks i = some s ∧ s.name = name := by
  obtain ⟨supply, hemits⟩ := assemble_emits h
  have hname := getElem?_labelNames hi
  rw [labelNames_code h, List.getElem?_map, Option.map_eq_some_iff] at hname
  obtain ⟨s, hs, rfl⟩ := hname
  exact ⟨s, hs, (labelSourceAt?_eq hemits hi).trans hs, rfl⟩

end Program

end HackComputer.Vm
