import HackComputer.Proofs.Text.Lines
import HackComputer.Proofs.Vm.LabelSources
import HackComputer.Proofs.Vm.SourceNames

/-!
# `HackComputer.Proofs.Vm.LabelNames`: when two labels of a program have one name

Two sources give one name exactly when they clash (`name_eq_name_iff`),
and the proof of that is about the mark `$`. Names that were read do not
hold it, so of every label the part behind the last `$` and the part
before it can be read off its name. What the parts leave open are dots:
functions and their labels are joined by a dot, and both may hold more.

* `label_eq_iff_clashes`: two labels at different places of a program
  have the same name exactly when their sources clash. Sources clash only
  within one of the four forms, and across them only as the function `K.n`
  and the made-up label `K.n`.
* `nodup_labelNames_iff`: in a program that declares nothing twice the
  labels are distinct, and it links as far as labels go, exactly if no
  function is called like a made-up label and no two labels in functions
  run together to the same name. Dots in names make the second possible:
  `A` with label `b.c`, and `A.b` with label `c`
  (`labels_of_functions_run_together`).
-/

set_option autoImplicit false

namespace HackComputer.Vm

open Isa Assembly Code

namespace LabelSource

/-- The two sources give one name, if they are not the same label: one
function declared twice, a function that is called like a made-up label,
two labels in functions that run together to one name, and one label
declared twice before the functions of a unit. -/
def Clashes : LabelSource → LabelSource → Prop
  | entry f, entry g => f = g
  | entry f, generated kind n | generated kind n, entry f =>
      f = kind.text ++ "." ++ Text.decimal n
  | inside f l, inside g m => f ++ "." ++ l = g ++ "." ++ m
  | outside u l, outside v m => u = v ∧ l = m
  | _, _ => False

end LabelSource

/-! ### Reading a name -/

/-- A list is cut at the last place of a mark in one way only. -/
theorem append_cons_inj_last {α : Type} {mark : α} {xs ys xs' ys' : List α}
    (h : xs ++ mark :: ys = xs' ++ mark :: ys') (hys : mark ∉ ys) (hys' : mark ∉ ys') :
    xs = xs' ∧ ys = ys' := by
  induction xs generalizing xs' with
  | nil =>
      cases xs' with
      | nil => exact ⟨rfl, (List.cons.inj h).2⟩
      | cons x xs' =>
          rw [List.nil_append, List.cons_append, List.cons.injEq] at h
          exact absurd (h.2 ▸ List.mem_append_right _ List.mem_cons_self) hys
  | cons x xs ih =>
      cases xs' with
      | nil =>
          rw [List.nil_append, List.cons_append, List.cons.injEq] at h
          exact absurd (h.2 ▸ List.mem_append_right _ List.mem_cons_self) hys'
      | cons x' xs' =>
          rw [List.cons_append, List.cons_append, List.cons.injEq] at h
          obtain ⟨hxs, hrest⟩ := ih h.2
          exact ⟨by rw [h.1, hxs], hrest⟩

/-- A list is cut at the first place of a mark in one way only. -/
theorem append_cons_inj_first {α : Type} {mark : α} {xs ys xs' ys' : List α}
    (h : xs ++ mark :: ys = xs' ++ mark :: ys') (hxs : mark ∉ xs) (hxs' : mark ∉ xs') :
    xs = xs' ∧ ys = ys' := by
  have hreverse := congrArg List.reverse h
  simp only [List.reverse_append, List.reverse_cons, List.append_assoc, List.singleton_append]
    at hreverse
  obtain ⟨hys, hxs⟩ := append_cons_inj_last hreverse (by simpa using hxs) (by simpa using hxs')
  exact ⟨List.reverse_inj.mp hxs, List.reverse_inj.mp hys⟩

namespace LabelSource

/-- The names in the source hold no `$`, and a unit has a name. -/
def Clean : LabelSource → Prop
  | entry function => isSourceName function
  | generated _ _ => True
  | inside function label => isSourceName function ∧ isSourceName label
  | outside unit label => unit ≠ "" ∧ isSourceName label

/-- What stands before and behind the last `$` of the name. -/
def marked? : LabelSource → Option (List Char × List Char)
  | entry function => some ([], function.toList)
  | generated kind n => some ([], kind.text.toList ++ '.' :: Nat.toDigits 10 n)
  | inside _ _ => none
  | outside unit label => some (unit.toList, 't' :: 'o' :: 'p' :: '.' :: label.toList)

/-- The words for made-up labels hold neither a dot nor a `$`. -/
theorem kind_text_clean (kind : LabelKind) :
    '.' ∉ kind.text.toList ∧ '$' ∉ kind.text.toList := by
  cases kind <;> decide

/-- A name with a `$` is put together from its two parts. -/
theorem toList_name {s : LabelSource} {xs ys : List Char} (h : s.marked? = some (xs, ys)) :
    s.name.toList = xs ++ '$' :: ys := by
  cases s with
  | entry function => cases h; simp [name, Frame.entry]
  | generated kind n => cases h; simp [name, generatedLabel, Text.decimal]
  | inside function label => cases h
  | outside unit label => cases h; simp [name]

/-- The part behind the last `$` holds no other. -/
theorem dollar_not_mem_of_marked {s : LabelSource} (hs : s.Clean) {xs ys : List Char}
    (h : s.marked? = some (xs, ys)) : '$' ∉ ys := by
  cases s with
  | entry function => cases h; exact hs
  | generated kind n =>
      cases h
      have hkind := (kind_text_clean kind).2
      have hnumber : '$' ∉ Nat.toDigits 10 n := Text.not_mem_toDigits (by decide) n
      simp [hkind, hnumber]
  | inside function label => cases h
  | outside unit label =>
      cases h
      have hlabel : '$' ∉ label.toList := hs.2
      simp [hlabel]

/-- Names of labels in functions hold no `$`. -/
theorem dollar_not_mem_of_unmarked {s : LabelSource} (hs : s.Clean) (h : s.marked? = none) :
    '$' ∉ s.name.toList := by
  cases s with
  | entry function => cases h
  | generated kind n => cases h
  | inside function label =>
      have hfunction : '$' ∉ function.toList := hs.1
      have hlabel : '$' ∉ label.toList := hs.2
      simp [name, hfunction, hlabel]
  | outside unit label => cases h

/-- The parts can be read off the name. -/
theorem marked_eq_of_name_eq {s t : LabelSource} (hs : s.Clean) (ht : t.Clean)
    (h : s.name = t.name) : s.marked? = t.marked? := by
  cases hms : s.marked? with
  | none =>
      cases hmt : t.marked? with
      | none => rfl
      | some parts =>
          have hfree := dollar_not_mem_of_unmarked hs hms
          rw [h, toList_name hmt] at hfree
          exact absurd (List.mem_append_right _ List.mem_cons_self) hfree
  | some parts =>
      cases hmt : t.marked? with
      | none =>
          have hfree := dollar_not_mem_of_unmarked ht hmt
          rw [← h, toList_name hms] at hfree
          exact absurd (List.mem_append_right _ List.mem_cons_self) hfree
      | some parts' =>
          have hnames : parts.1 ++ '$' :: parts.2 = parts'.1 ++ '$' :: parts'.2 := by
            rw [← toList_name hms, ← toList_name hmt, h]
          obtain ⟨hbefore, hbehind⟩ := append_cons_inj_last hnames
            (dollar_not_mem_of_marked hs hms) (dollar_not_mem_of_marked ht hmt)
          rw [Option.some.injEq]
          exact Prod.ext hbefore hbehind

/-- Made-up labels of one name are one label. -/
theorem generated_inj {kind kind' : LabelKind} {n n' : Nat}
    (h : (generated kind n).marked? = (generated kind' n').marked?) : kind = kind' ∧ n = n' := by
  have htail : kind.text.toList ++ '.' :: Nat.toDigits 10 n
      = kind'.text.toList ++ '.' :: Nat.toDigits 10 n' :=
    congrArg Prod.snd (Option.some.inj h)
  obtain ⟨hkind, hn⟩ := append_cons_inj_first htail (kind_text_clean kind).1
    (kind_text_clean kind').1
  constructor
  · revert hkind
    cases kind <;> cases kind' <;> decide
  · exact Text.toDigits_inj hn

/-- A label before any function has its unit before the `$`. -/
theorem marked_outside_ne {unit label : String} (h : (outside unit label).Clean)
    {ys : List Char} : (outside unit label).marked? ≠ some ([], ys) := by
  intro hmarked
  have hunit : unit.toList = [] := congrArg Prod.fst (Option.some.inj hmarked)
  exact h.1 (String.toList_eq_nil_iff.mp hunit)

/-- The characters of a function name that reads like a made-up label. -/
theorem toList_generatedText (kind : LabelKind) (n : Nat) :
    (kind.text ++ "." ++ Text.decimal n).toList
      = kind.text.toList ++ '.' :: Nat.toDigits 10 n := by
  simp [Text.decimal]

/-- Sources that clash give one name. -/
theorem name_eq_of_clashes {s t : LabelSource} (h : s.Clashes t) : s.name = t.name := by
  unfold Clashes at h
  split at h
  · exact congrArg Frame.entry h
  · subst h
    simp [name, Frame.entry, generatedLabel, String.append_assoc]
  · subst h
    simp [name, Frame.entry, generatedLabel, String.append_assoc]
  · exact h
  · obtain ⟨rfl, rfl⟩ := h
    rfl
  · exact h.elim

/-- Sources that give one name clash, unless they are one made-up label. -/
theorem clashes_of_name_eq {s t : LabelSource} (hs : s.Clean) (ht : t.Clean)
    (h : s.name = t.name) :
    s.Clashes t ∨ ∃ kind n, s = .generated kind n ∧ t = .generated kind n := by
  have hmarked := marked_eq_of_name_eq hs ht h
  -- Equal names have equal parts, and the parts tell the forms apart, but for the
  -- functions and the made-up labels, which both begin with the `$`.
  cases s with
  | entry f =>
      cases t with
      | entry g =>
          have hbehind := congrArg Prod.snd (Option.some.inj hmarked)
          exact .inl (String.toList_inj.mp hbehind)
      | generated kind n =>
          have hbehind := congrArg Prod.snd (Option.some.inj hmarked)
          exact .inl (String.toList_inj.mp (hbehind.trans (toList_generatedText kind n).symm))
      | inside g m => cases hmarked
      | outside v m => exact absurd hmarked.symm (marked_outside_ne ht)
  | generated kind n =>
      cases t with
      | entry g =>
          have hbehind := congrArg Prod.snd (Option.some.inj hmarked)
          exact .inl (String.toList_inj.mp (hbehind.symm.trans (toList_generatedText kind n).symm))
      | generated kind' n' =>
          obtain ⟨rfl, rfl⟩ := generated_inj hmarked
          exact .inr ⟨kind, n, rfl, rfl⟩
      | inside g m => cases hmarked
      | outside v m => exact absurd hmarked.symm (marked_outside_ne ht)
  | inside f l =>
      cases t with
      | inside g m => exact .inl h
      | entry g => cases hmarked
      | generated kind n => cases hmarked
      | outside v m => cases hmarked
  | outside u l =>
      cases t with
      | entry g => exact absurd hmarked (marked_outside_ne hs)
      | generated kind n => exact absurd hmarked (marked_outside_ne hs)
      | inside g m => cases hmarked
      | outside v m =>
          have hbefore := congrArg Prod.fst (Option.some.inj hmarked)
          have hbehind := congrArg Prod.snd (Option.some.inj hmarked)
          simp only [List.cons.injEq, true_and] at hbehind
          exact .inl ⟨String.toList_inj.mp hbefore, String.toList_inj.mp hbehind⟩

/-- **Two sources give one name exactly when they clash**, or are one
made-up label. -/
theorem name_eq_name_iff {s t : LabelSource} (hs : s.Clean) (ht : t.Clean) :
    s.name = t.name ↔ s.Clashes t ∨ ∃ kind n, s = .generated kind n ∧ t = .generated kind n := by
  refine ⟨clashes_of_name_eq hs ht, ?_⟩
  rintro (hclash | ⟨kind, n, rfl, rfl⟩)
  · exact name_eq_of_clashes hclash
  · rfl

end LabelSource

/-! ### The sources of a program that was read -/

/-- A source is spelled out by an origin, or made up. -/
theorem mem_labelSources {supply : LabelSupply} {os : List Origin} {s : LabelSource}
    (h : s ∈ labelSources supply os) :
    (∃ o ∈ os, o.spells? = some s) ∨ ∃ kind n, s = .generated kind n := by
  induction os generalizing supply with
  | nil => cases h
  | cons o os ih =>
      rw [labelSources, Origin.labelSources, List.mem_append, List.mem_append, Option.mem_toList,
        Option.mem_toList, Option.map_eq_some_iff] at h
      rcases h with (hspelled | ⟨kind, -, hmade⟩) | hlater
      · exact .inl ⟨o, List.mem_cons_self, hspelled⟩
      · exact .inr ⟨kind, _, hmade.symm⟩
      · rcases ih hlater with ⟨o', ho', hspelled⟩ | hmade
        · exact .inl ⟨o', List.mem_cons_of_mem o ho', hspelled⟩
        · exact .inr hmade

/-- The origin has clean names: those of its command, the function that it
stands in, and a unit with a name. -/
def Origin.Clean : Origin → Prop
  | start _ => True
  | line context l =>
      context.unit ≠ "" ∧ (∀ f, context.function = some f → isSourceName f) ∧ l.command.Clean

/-- The origins of clean lines are clean: the function that a line stands
in was named by a line before it. -/
theorem clean_of_mem_lineOrigins {unit : String} (hunit : unit ≠ "") {lines : List Line}
    (hlines : ∀ l ∈ lines, l.command.Clean) {current : Option String}
    (hcurrent : ∀ f, current = some f → isSourceName f) :
    ∀ o ∈ Program.lineOrigins unit current lines, o.Clean := by
  induction lines generalizing current with
  | nil =>
      intro o ho
      cases ho
  | cons l lines ih =>
      have hfirst : l.command.Clean := hlines l List.mem_cons_self
      -- The line names the function itself, or stands in the current one.
      have hnext : ∀ f, Program.functionAt current l.command = some f → isSourceName f := by
        intro f hf
        unfold Program.functionAt at hf
        split at hf
        · rename_i name locals hcommand
          cases hf
          exact hfirst f (by rw [hcommand]; exact List.mem_singleton_self f)
        · exact hcurrent f hf
      intro o ho
      rcases List.mem_cons.mp ho with rfl | ho
      · exact ⟨hunit, hnext, hfirst⟩
      · exact ih (fun l' hl' => hlines l' (List.mem_cons_of_mem l hl')) hnext o ho

/-- What a clean origin spells out is clean. -/
theorem clean_of_spells {o : Origin} (ho : o.Clean) {s : LabelSource} (h : o.spells? = some s) :
    s.Clean := by
  unfold Origin.spells? at h
  split at h
  · cases h
    exact ho.2.2 _ List.mem_cons_self
  · cases h
    unfold Context.labelSource
    split
    · rename_i function hfunction
      exact ⟨ho.2.1 function hfunction, ho.2.2 _ List.mem_cons_self⟩
    · exact ⟨ho.1, ho.2.2 _ List.mem_cons_self⟩
  · cases h

/-- The units were read from sources, under names that are not empty. -/
def SourceUnit.Read (units : List SourceUnit) : Prop :=
  ∀ unit ∈ units, unit.name ≠ "" ∧ ∃ source, SourceUnit.parse unit.name source = .ok unit

/-- One unit that was read. -/
theorem SourceUnit.read_singleton {unit : SourceUnit} (source : List Char) (hname : unit.name ≠ "")
    (h : SourceUnit.parse unit.name source = .ok unit) : SourceUnit.Read [unit] := by
  intro unit' hunit'
  rw [List.mem_singleton] at hunit'
  subst hunit'
  exact ⟨hname, source, h⟩

/-- **All sources of a program that was read are clean.** -/
theorem clean_of_mem_labelSources {units : List SourceUnit} (hread : SourceUnit.Read units)
    (entryPoint? : Option String) :
    ∀ s ∈ labelSources {} (Program.origins entryPoint? units), s.Clean := by
  intro s hs
  rcases mem_labelSources hs with ⟨o, ho, hspelled⟩ | ⟨kind, n, rfl⟩
  · refine clean_of_spells ?_ hspelled
    rcases List.mem_append.mp ho with hstart | hline
    · rw [Option.mem_toList, Option.map_eq_some_iff] at hstart
      obtain ⟨entryPoint, -, rfl⟩ := hstart
      trivial
    · obtain ⟨unit, hunit, ho⟩ := List.mem_flatMap.mp hline
      obtain ⟨hname, source, hparse⟩ := hread unit hunit
      exact clean_of_mem_lineOrigins hname (SourceUnit.clean_of_parse hparse)
        (fun f hf => by cases hf) o ho
  · trivial

/-! ### Labels of one name -/

/-- Lists without repetitions have one place for every element. -/
theorem eq_of_nodup_filterMap {α β : Type} {f : α → Option β} {xs : List α}
    (h : (xs.filterMap f).Nodup) {i j : Nat} {x y : α} {c : β} (hi : xs[i]? = some x)
    (hj : xs[j]? = some y) (hx : f x = some c) (hy : f y = some c) : i = j := by
  have hapart : ∀ {i j : Nat} {x y : α}, xs[i]? = some x → xs[j]? = some y → f x = some c →
      f y = some c → ¬ i < j := by
    intro i j x y hi hj hx hy hij
    obtain ⟨hi', rfl⟩ := List.getElem?_eq_some_iff.mp hi
    obtain ⟨hj', rfl⟩ := List.getElem?_eq_some_iff.mp hj
    have hpair := List.pairwise_iff_getElem.mp (List.pairwise_filterMap.mp h) i j hi' hj' hij
    exact hpair c hx c hy rfl
  have hnot := hapart hi hj hx hy
  have hnot' := hapart hj hi hy hx
  omega

namespace Program

/-- **Two labels of a program have one name exactly when their sources
clash**: both start a function of the same name, or one starts a function
that is called like the other, made-up one, or both are declared in
functions and run together to the same name, or both are declared under
one name before the functions of units of one name. -/
theorem label_eq_iff_clashes {entryPoint? : Option String} {units : List SourceUnit} {p : Program}
    (hread : SourceUnit.Read units) (h : assemble entryPoint? units = .ok p) {i j : Nat}
    {a b : String} (hne : i ≠ j) (hi : p.code[i]? = some (.label a))
    (hj : p.code[j]? = some (.label b)) :
    ∃ s t, labelSourceAt? {} (origins entryPoint? units) p.blocks i = some s ∧
      labelSourceAt? {} (origins entryPoint? units) p.blocks j = some t ∧
      s.name = a ∧ t.name = b ∧ (a = b ↔ s.Clashes t) := by
  obtain ⟨s, hs, hsource, rfl⟩ := exists_labelSource h hi
  obtain ⟨t, ht, htarget, rfl⟩ := exists_labelSource h hj
  -- Different lines have different numbers in the list of sources.
  have hindex : labelIndex p.code i ≠ labelIndex p.code j := by
    rcases Nat.lt_or_gt_of_ne hne with hlt | hlt
    · exact Nat.ne_of_lt (labelIndex_lt hi hlt)
    · exact Nat.ne_of_gt (labelIndex_lt hj hlt)
  have hclean := clean_of_mem_labelSources hread entryPoint?
  refine ⟨s, t, hsource, htarget, rfl, rfl, ?_⟩
  rw [LabelSource.name_eq_name_iff (hclean s (List.mem_of_getElem? hs))
    (hclean t (List.mem_of_getElem? ht))]
  refine ⟨?_, .inl⟩
  rintro (hclash | ⟨kind, n, rfl, rfl⟩)
  · exact hclash
  · -- One made-up label in two places: the supply hands out every number once.
    exact absurd (eq_of_nodup_filterMap (nodup_drawn _ _) hs ht rfl rfl) hindex

/-- A function that is called like the label that its own comparison makes
up. -/
def namesakeUnit : SourceUnit :=
  ⟨"A", [⟨1, "label x", .label "x"⟩, ⟨2, "function EQ.1 0", .function "EQ.1" 0⟩,
    ⟨3, "eq", .arithmetic .eq⟩]⟩

/-- The function and the made-up label clash: they are two labels `$EQ.1`. -/
theorem label_eq_in_namesakeUnit :
    let p := compiled none [namesakeUnit]
    SourceUnit.Read [namesakeUnit] ∧ assemble none [namesakeUnit] = .ok p ∧
    p.code[1]? = some (.label "$EQ.1") ∧ p.code[13]? = some (.label "$EQ.1") ∧
    ∃ s t, labelSourceAt? {} (origins none [namesakeUnit]) p.blocks 1 = some s ∧
      labelSourceAt? {} (origins none [namesakeUnit]) p.blocks 13 = some t ∧ s.Clashes t := by
  intro p
  have hread : SourceUnit.Read [namesakeUnit] :=
    SourceUnit.read_singleton "label x\nfunction EQ.1 0\neq\n".toList (by decide) rfl
  have hassemble : assemble none [namesakeUnit] = .ok p := rfl
  have hfunction : p.code[1]? = some (.label "$EQ.1") := rfl
  have hmade : p.code[13]? = some (.label "$EQ.1") := rfl
  obtain ⟨s, t, hs, ht, -, -, hiff⟩ :=
    label_eq_iff_clashes hread hassemble (show 1 ≠ 13 by decide) hfunction hmade
  exact ⟨hread, hassemble, hfunction, hmade, s, t, hs, ht, hiff.mp rfl⟩

end Program

/-! ### Distinct labels -/

/-- The names of the sources do not get in each other's way: no function
is called like a made-up label, and no two labels in functions run
together to the same name. -/
structure LabelSource.Apart (sources : List LabelSource) : Prop where
  functions : ∀ f kind n, .entry f ∈ sources → .generated kind n ∈ sources →
    f ≠ kind.text ++ "." ++ Text.decimal n
  labels : ∀ f l g m, .inside f l ∈ sources → .inside g m ∈ sources →
    f ++ "." ++ l = g ++ "." ++ m → f = g ∧ l = m

/-- Sources with distinct names are apart. -/
theorem LabelSource.apart_of_nodup {sources : List LabelSource}
    (h : (sources.map LabelSource.name).Nodup) : Apart sources := by
  have hinj : ∀ {s t : LabelSource}, s ∈ sources → t ∈ sources → s.name = t.name → s = t := by
    intro s t hs ht hname
    obtain ⟨i, hi⟩ := List.getElem?_of_mem hs
    obtain ⟨j, hj⟩ := List.getElem?_of_mem ht
    rw [← List.filterMap_eq_map] at h
    have hij : i = j := eq_of_nodup_filterMap h hi hj (congrArg some hname) rfl
    subst hij
    exact Option.some.inj (hi.symm.trans hj)
  constructor
  · intro f kind n hf hmade hname
    cases hinj hf hmade (name_eq_of_clashes hname)
  · intro f l g m hl hm hname
    cases hinj hl hm hname
    exact ⟨rfl, rfl⟩

/-- Sources that are apart and declare nothing twice have distinct names. -/
theorem LabelSource.nodup_of_apart {sources : List LabelSource}
    (hclean : ∀ s ∈ sources, s.Clean) (hdrawn : (sources.filterMap drawn?).Nodup)
    (hfunctions : (sources.filterMap function?).Nodup)
    (hlabels : (sources.filterMap declared?).Nodup) (hapart : Apart sources) :
    (sources.map LabelSource.name).Nodup := by
  rw [List.Nodup, List.pairwise_map, List.pairwise_iff_getElem]
  intro i j hi hj hij hname
  have hs := List.getElem?_eq_getElem hi
  have ht := List.getElem?_eq_getElem hj
  generalize sources[i] = s at hs hname
  generalize sources[j] = t at ht hname
  have hsmem := List.mem_of_getElem? hs
  have htmem := List.mem_of_getElem? ht
  -- Whatever the sources are, one of them would be declared in two places.
  have htwice : i = j := by
    rcases clashes_of_name_eq (hclean s hsmem) (hclean t htmem) hname with
      hclash | ⟨kind, n, rfl, rfl⟩
    · unfold Clashes at hclash
      split at hclash
      · exact eq_of_nodup_filterMap hfunctions hs ht (congrArg some hclash) rfl
      · exact absurd hclash (hapart.functions _ _ _ hsmem htmem)
      · exact absurd hclash (hapart.functions _ _ _ htmem hsmem)
      · obtain ⟨rfl, rfl⟩ := hapart.labels _ _ _ _ hsmem htmem hclash
        exact eq_of_nodup_filterMap hlabels hs ht rfl rfl
      · obtain ⟨rfl, rfl⟩ := hclash
        exact eq_of_nodup_filterMap hlabels hs ht rfl rfl
      · exact hclash.elim
    · exact eq_of_nodup_filterMap hdrawn hs ht rfl rfl
  exact Nat.ne_of_lt hij htwice

namespace Program

/-- **When a program without double declarations has distinct labels.**
The units are read under names that are not empty. No two commands
declare one function, and no two declare one label inside a function or
before the functions of a unit. Then the labels are distinct, and linking
reports no redefined label, exactly if the sources are apart. -/
theorem nodup_labelNames_iff {entryPoint? : Option String} {units : List SourceUnit} {p : Program}
    (hread : SourceUnit.Read units)
    (hfunctions : ((origins entryPoint? units).filterMap Origin.function?).Nodup)
    (hlabels : ((origins entryPoint? units).filterMap Origin.declared?).Nodup)
    (h : assemble entryPoint? units = .ok p) :
    ((labelNames p.code).Nodup
      ↔ LabelSource.Apart (labelSources {} (origins entryPoint? units))) ∧
    ((∃ name, Executable.link p.code = .error (.redefinedLabel name))
      ↔ ¬ LabelSource.Apart (labelSources {} (origins entryPoint? units))) := by
  have hnodup : (labelNames p.code).Nodup
      ↔ LabelSource.Apart (labelSources {} (origins entryPoint? units)) := by
    rw [labelNames_code h]
    refine ⟨LabelSource.apart_of_nodup, LabelSource.nodup_of_apart
      (clean_of_mem_labelSources hread entryPoint?) (nodup_drawn _ _) ?_ ?_⟩
    · rw [filterMap_labelSources (fun _ _ => rfl)]
      exact hfunctions
    · rw [filterMap_labelSources (fun _ _ => rfl)]
      exact hlabels
  exact ⟨hnodup, by rw [Executable.link_eq_redefinedLabel_iff, hnodup]⟩

/-- Functions and labels with dots, none of them in another's way. -/
def dottedUnit : SourceUnit :=
  ⟨"A", [⟨1, "label b", .label "b"⟩, ⟨2, "function A 1", .function "A" 1⟩,
    ⟨3, "label b.c", .label "b.c"⟩, ⟨4, "function A.b 0", .function "A.b" 0⟩,
    ⟨5, "label d", .label "d"⟩, ⟨6, "gt", .arithmetic .gt⟩]⟩

/-- The labels of these functions are apart, as their names show. -/
theorem apart_of_dottedUnit :
    let p := compiled none [dottedUnit]
    SourceUnit.Read [dottedUnit] ∧ assemble none [dottedUnit] = .ok p ∧
    ((origins none [dottedUnit]).filterMap Origin.function?).Nodup ∧
    ((origins none [dottedUnit]).filterMap Origin.declared?).Nodup ∧
    labelNames p.code = ["A$top.b", "$A", "$FUNCTION_INIT.1", "A.b.c", "$A.b", "A.b.d", "$GT.2"] ∧
    LabelSource.Apart (labelSources {} (origins none [dottedUnit])) := by
  intro p
  have hread : SourceUnit.Read [dottedUnit] := SourceUnit.read_singleton
    "label b\nfunction A 1\nlabel b.c\nfunction A.b 0\nlabel d\ngt\n".toList (by decide) rfl
  have hassemble : assemble none [dottedUnit] = .ok p := rfl
  have hfunctions : ((origins none [dottedUnit]).filterMap Origin.function?).Nodup := by decide
  have hlabels : ((origins none [dottedUnit]).filterMap Origin.declared?).Nodup := by decide
  have hnames : labelNames p.code
      = ["A$top.b", "$A", "$FUNCTION_INIT.1", "A.b.c", "$A.b", "A.b.d", "$GT.2"] := rfl
  have hapart := (nodup_labelNames_iff hread hfunctions hlabels hassemble).1.mp
    (by rw [hnames]; decide)
  exact ⟨hread, hassemble, hfunctions, hlabels, hnames, hapart⟩

/-- Two functions whose labels run together. -/
def runTogetherUnit : SourceUnit :=
  ⟨"A", [⟨1, "function A 0", .function "A" 0⟩, ⟨2, "label b.c", .label "b.c"⟩,
    ⟨3, "function A.b 0", .function "A.b" 0⟩, ⟨4, "label c", .label "c"⟩]⟩

/-- A program that declares nothing twice need not link: the label `b.c`
of the function `A` and the label `c` of the function `A.b` are both
called `A.b.c`. -/
theorem labels_of_functions_run_together :
    let p := compiled none [runTogetherUnit]
    SourceUnit.Read [runTogetherUnit] ∧ ([runTogetherUnit].map SourceUnit.name).Nodup ∧
    ((origins none [runTogetherUnit]).filterMap Origin.function?).Nodup ∧
    ((origins none [runTogetherUnit]).filterMap Origin.declared?).Nodup ∧
    assemble none [runTogetherUnit] = .ok p ∧ ¬ (labelNames p.code).Nodup ∧
    ∃ name, Executable.link p.code = .error (.redefinedLabel name) := by
  intro p
  have hread : SourceUnit.Read [runTogetherUnit] := SourceUnit.read_singleton
    "function A 0\nlabel b.c\nfunction A.b 0\nlabel c\n".toList (by decide) rfl
  have hnames : labelNames p.code = ["$A", "A.b.c", "$A.b", "A.b.c"] := rfl
  have htwice : ¬ (labelNames p.code).Nodup := by
    rw [hnames]
    decide
  exact ⟨hread, by decide, by decide, by decide, rfl, htwice,
    Executable.link_eq_redefinedLabel_iff.mpr htwice⟩

end Program

end HackComputer.Vm
