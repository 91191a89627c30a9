import HackComputer.Cli.Compiler
import HackComputer.Proofs.Files.Trees
import HackComputer.Proofs.FirstFailure
import HackComputer.Proofs.Vm.Origin

/-!
# `HackComputer.Proofs.Cli.Translation`: how a run of the compiler ends

The compiler reads its sources, parses them, compiles them and writes two files.
What it reads is said here without the steps that read it: `Sources`, `Reads`,
`Parses` and `Translates` relate a file tree to the paths, the texts, the units
and the program in it. `Fails` lists what can be wrong before anything is
written.

`Ends x t r t'` is what is proved of the steps: from the tree `t` the step `x`
has the result `r` and leaves the tree `t'`. What was printed has no part in it.
`Stops` is the case of a failure that leaves the tree alone. Both go along the
stages of a run, which are `readStage`, `parseStage`, `translateStage` and
`writeStage`.

* `run_eq`: a run is its stages.
* `stops_translateStage`, `ends_translateStage`: no file is touched before the
  program is complete.
* `nodup_unitNames`: no two units have one name, so that none is taken for
  another.
* `fails_or_translates`: there is nothing between the two.
* `exists_runsTo`: the four ways in which a run can end.
-/

set_option autoImplicit false

namespace HackComputer.Cli.Compiler

open Files Vm

/-! ### What is read and compiled -/

/-- The names of the sources among the names of files. -/
def sourceNames (names : List String) : List String :=
  names.filter fun name => Path.extension? name == some "vm"

/-- The files that the sources are read from: the input itself, or the sources
of a directory in the order of their names. -/
inductive Sources (t : Tree) (input : Path) : List Path → Prop
  | file (h : t.isDirectory input = false) : Sources t input [input]
  | directory {names sorted : List String} (h : t.isDirectory input = true)
      (hnames : t.files? input = some names)
      (hperm : sorted.Perm (sourceNames names))
      (hsorted : sorted.Pairwise (· ≤ ·)) (hsome : sorted ≠ []) :
      Sources t input (sorted.map (Path.join input ·))

/-- The name and the text of the source in a file. -/
def Reads (t : Tree) (p : Path) (source : String × String) : Prop :=
  ∃ bytes, t.read p = .ok bytes ∧ String.fromUTF8? bytes = some source.2 ∧
    source.1 = (Path.stem? p).getD ""

/-- All sources are read. -/
def ReadsAll (t : Tree) (o : Options) (sources : List (String × String)) : Prop :=
  ∃ paths, Sources t o.input paths ∧ List.Forall₂ (Reads t) paths sources

/-- All sources are read and parsed. -/
def Parses (t : Tree) (o : Options) (units : List SourceUnit) : Prop :=
  ∃ sources, ReadsAll t o sources ∧
    List.Forall₂ (fun source unit => SourceUnit.parse source.1 source.2.toList = .ok unit)
      sources units

/-- The sources are a program. -/
def Translates (t : Tree) (o : Options) (program : Program) : Prop :=
  ∃ units, Parses t o units ∧ Program.assemble o.entryPoint units = .ok program

/-- The sources are no program: there are none, or one cannot be read, or one
cannot be parsed, or all of them together cannot be compiled. -/
inductive Fails (t : Tree) (o : Options) : Prop
  | listing (h : ∀ paths, ¬Sources t o.input paths)
  | reading {paths : List Path} {p : Path} (hpaths : Sources t o.input paths) (hp : p ∈ paths)
      (h : ∀ source, ¬Reads t p source)
  | parsing {sources : List (String × String)} {source : String × String} {e : Vm.Error}
      (hsources : ReadsAll t o sources) (hsource : source ∈ sources)
      (h : SourceUnit.parse source.1 source.2.toList = .error e)
  | assembling {units : List SourceUnit} {e : Vm.Error} (hunits : Parses t o units)
      (h : Program.assemble o.entryPoint units = .error e)

/-! ### Steps -/

/-- From the tree `t`, whatever was printed before, the step has the result `r`
and leaves the tree `t'`. -/
def Ends {α : Type} (x : Step (StateM World) α) (t : Tree) (r : Except Failure α) (t' : Tree) :
    Prop :=
  ∀ printed, ∃ printed', x.run.run ⟨t, printed⟩ = (r, ⟨t', printed'⟩)

/-- From the tree `t` the step fails, and leaves the tree as it was. -/
def Stops {α : Type} (x : Step (StateM World) α) (t : Tree) : Prop :=
  ∃ e, Ends x t (.error e) t

section

variable {α β : Type} {x : Step (StateM World) α} {f : α → Step (StateM World) β} {t t' t'' : Tree}

/-- A step that succeeds is followed by the next one. -/
theorem Ends.bind_ok {a : α} {r : Except Failure β} (hx : Ends x t (.ok a) t')
    (hf : Ends (f a) t' r t'') : Ends (x >>= f) t r t'' := by
  intro printed
  obtain ⟨printed', hx⟩ := hx printed
  obtain ⟨printed'', hf⟩ := hf printed'
  refine ⟨printed'', ?_⟩
  rw [ExceptT.run_bind, StateT.run_bind, hx]
  exact hf

/-- A step that fails is the last one. -/
theorem Ends.bind_error {e : Failure} (hx : Ends x t (.error e) t') :
    Ends (x >>= f) t (.error e) t' := by
  intro printed
  obtain ⟨printed', hx⟩ := hx printed
  refine ⟨printed', ?_⟩
  rw [ExceptT.run_bind, StateT.run_bind, hx]
  rfl

/-- What stops at its first step stops. -/
theorem Stops.bind_left (hx : Stops x t) : Stops (x >>= f) t := by
  obtain ⟨e, hx⟩ := hx
  exact ⟨e, hx.bind_error⟩

/-- So does what stops after a first step that leaves the tree alone. -/
theorem Stops.bind_right {a : α} (hx : Ends x t (.ok a) t) (hf : Stops (f a) t) :
    Stops (x >>= f) t := by
  obtain ⟨e, hf⟩ := hf
  exact ⟨e, hx.bind_ok hf⟩

end

/-- Printing a line leaves the tree alone. -/
theorem ends_line (s : String) (t : Tree) : Ends (line s) t (.ok ()) t :=
  fun _ => ⟨_, rfl⟩

/-- So does printing a text. -/
theorem ends_print (s : String) (t : Tree) :
    Ends (ExceptT.lift (Host.print s)) t (.ok ()) t :=
  fun _ => ⟨_, rfl⟩

/-- A result alone leaves the tree alone. -/
theorem ends_pure {α : Type} (a : α) (t : Tree) : Ends (pure a) t (.ok a) t :=
  fun _ => ⟨_, rfl⟩

/-- What was computed from the sources is a step that asks nothing of the tree. -/
theorem ends_liftVm {α : Type} (r : Except Vm.Error α) (t : Tree) :
    Ends (run.liftVm r) t (r.mapError .source) t :=
  fun _ => ⟨_, rfl⟩

/-- A failure leaves the tree alone. -/
theorem stops_throw {α : Type} (e : Failure) (t : Tree) :
    Stops (throw e : Step (StateM World) α) t :=
  ⟨e, fun _ => ⟨_, rfl⟩⟩

/-- Asking for a directory answers what the tree says. -/
theorem ends_isDirectory (p : Path) (t : Tree) :
    Ends (ExceptT.lift (Host.isDirectory p)) t (.ok (t.isDirectory p)) t :=
  fun _ => ⟨_, rfl⟩

/-- So does listing one. -/
theorem ends_files? (p : Path) (t : Tree) :
    Ends (ExceptT.lift (Host.files? p)) t (.ok (t.files? p)) t :=
  fun _ => ⟨_, rfl⟩

/-- So does reading a file. -/
theorem ends_read (p : Path) (t : Tree) :
    Ends (ExceptT.lift (Host.read p)) t (.ok (t.read p)) t :=
  fun _ => ⟨_, rfl⟩

/-! ### Reading -/

/-- Sorted names are in order. -/
theorem pairwise_mergeSort_le (names : List String) :
    (names.mergeSort fun a b => decide (a ≤ b)).Pairwise (· ≤ ·) := by
  have hpairs : (names.mergeSort fun a b => decide (a ≤ b)).Pairwise
      fun a b => decide (a ≤ b) = true := by
    apply List.pairwise_mergeSort
    · simpa using fun _ _ _ => String.le_trans
    · simpa using String.le_total
  simpa using hpairs

/-- There is one way to put names in order. -/
theorem mergeSort_eq {names sorted : List String} (hperm : sorted.Perm names)
    (hsorted : sorted.Pairwise (· ≤ ·)) :
    names.mergeSort (fun a b => decide (a ≤ b)) = sorted := by
  refine List.Perm.eq_of_pairwise ?_ (pairwise_mergeSort_le names) hsorted
    ((List.mergeSort_perm _ _).trans hperm.symm)
  intro a b _ _
  exact String.le_antisymm

/-- A directory that can be read and holds a source. -/
theorem sources_of_files? {t : Tree} {input : Path} {names : List String}
    (h : t.isDirectory input = true) (hnames : t.files? input = some names)
    (hsome : (sourceNames names).isEmpty = false) : ∃ paths, Sources t input paths := by
  have hperm := List.mergeSort_perm (sourceNames names) fun a b => decide (a ≤ b)
  refine ⟨_, .directory h hnames hperm (pairwise_mergeSort_le _) ?_⟩
  intro hnone
  rw [hnone] at hperm
  rw [hperm.symm.eq_nil] at hsome
  cases hsome

/-- The files are collected. -/
theorem ends_collect {t : Tree} {input : Path} {paths : List Path} (h : Sources t input paths) :
    Ends (collect input) t (.ok paths) t := by
  cases h with
  | file h =>
      refine .bind_ok (ends_isDirectory input t) ?_
      rw [h]
      exact ends_pure _ t
  | @directory names sorted h hnames hperm hsorted hsome =>
      refine .bind_ok (ends_isDirectory input t) ?_
      rw [h]
      refine .bind_ok (ends_files? input t) ?_
      rw [hnames]
      have hfound : ¬(sourceNames names).isEmpty = true := by
        rw [List.isEmpty_iff]
        intro hnone
        rw [hnone] at hperm
        exact hsome hperm.eq_nil
      rw [← mergeSort_eq hperm hsorted]
      show Ends (if (sourceNames names).isEmpty then _ else _) t _ t
      rw [if_neg hfound]
      exact ends_pure _ t

/-- Without sources collecting them stops. -/
theorem stops_collect {t : Tree} {input : Path} (h : ∀ paths, ¬Sources t input paths) :
    Stops (collect input) t := by
  refine .bind_right (ends_isDirectory input t) ?_
  cases hdirectory : t.isDirectory input with
  | false => exact absurd (.file hdirectory) (h [input])
  | true =>
      refine .bind_right (ends_files? input t) ?_
      cases hnames : t.files? input with
      | none => exact stops_throw _ t
      | some names =>
          cases hsome : (sourceNames names).isEmpty with
          | true =>
              show Stops (if (sourceNames names).isEmpty then _ else _) t
              rw [if_pos hsome]
              exact (stops_throw _ t).bind_left
          | false =>
              obtain ⟨paths, hpaths⟩ := sources_of_files? hdirectory hnames hsome
              exact absurd hpaths (h paths)

/-- A source is read. -/
theorem ends_readSource {t : Tree} {p : Path} {source : String × String} (h : Reads t p source) :
    Ends (readSource p) t (.ok source) t := by
  obtain ⟨bytes, hread, htext, hname⟩ := h
  obtain ⟨name, text⟩ := source
  refine .bind_ok (ends_line _ t) (.bind_ok (ends_read p t) ?_)
  rw [hread]
  simp only [htext]
  rw [← hname]
  exact ends_pure _ t

/-- A file that holds no source stops the reading. -/
theorem stops_readSource {t : Tree} {p : Path} (h : ∀ source, ¬Reads t p source) :
    Stops (readSource p) t := by
  refine .bind_right (ends_line _ t) (.bind_right (ends_read p t) ?_)
  cases hread : t.read p with
  | error e => cases e <;> exact stops_throw _ t
  | ok bytes =>
      cases htext : String.fromUTF8? bytes with
      | none =>
          simp only [htext]
          exact stops_throw _ t
      | some text => exact absurd ⟨bytes, hread, htext, rfl⟩ (h ((Path.stem? p).getD "", text))

/-- All sources are read, one after the other. -/
theorem ends_readSources {t : Tree} {paths : List Path} {sources : List (String × String)}
    (h : List.Forall₂ (Reads t) paths sources) :
    Ends (paths.mapM readSource) t (.ok sources) t := by
  induction h with
  | nil => exact ends_pure [] t
  | cons hsource _ ih =>
      rw [List.mapM_cons]
      exact .bind_ok (ends_readSource hsource) (.bind_ok ih (ends_pure _ t))

/-- Reading stops at the first file that cannot be read. -/
theorem stops_readSources {t : Tree} {paths : List Path} {p : Path} (hp : p ∈ paths)
    (h : ∀ source, ¬Reads t p source) : Stops (paths.mapM readSource) t := by
  induction paths with
  | nil => cases hp
  | cons first paths ih =>
      rw [List.mapM_cons]
      by_cases hfirst : ∃ source, Reads t first source
      · obtain ⟨source, hsource⟩ := hfirst
        rcases List.mem_cons.mp hp with rfl | hlater
        · exact absurd hsource (h source)
        · exact .bind_right (ends_readSource hsource) (ih hlater).bind_left
      · exact (stops_readSource (not_exists.mp hfirst)).bind_left

/-! ### The names of units -/

/-- What agrees member by member agrees as a list. -/
theorem map_eq_map_of_forall₂ {α β γ : Type} {f : α → γ} {g : β → γ} {as : List α} {bs : List β}
    (h : List.Forall₂ (fun a b => f a = g b) as bs) : as.map f = bs.map g := by
  rw [← List.forall₂_eq_eq_eq, List.forall₂_map_left_iff, List.forall₂_map_right_iff]
  exact h

/-- A unit has the name that it was read under. -/
theorem name_of_parse {name : String} {source : List Char} {unit : SourceUnit}
    (h : SourceUnit.parse name source = .ok unit) : unit.name = name := by
  rw [SourceUnit.parse] at h
  obtain ⟨found, -, hunit⟩ := bind_eq_ok h
  cases hunit
  rfl

/-- The sources of one input have different stems. In a directory this is so
because all of them have the same extension. -/
theorem Sources.nodup_stems {t : Tree} {input : Path} {paths : List Path} (h : t.IsProper)
    (hpaths : Sources t input paths) : (paths.map fun p => (Path.stem? p).getD "").Nodup := by
  cases hpaths with
  | file _ => exact List.nodup_singleton _
  | @directory names sorted _ hnames hperm _ _ =>
      have hname : ∀ name ∈ sorted, Path.IsName name ∧ (Path.splitName name).2 = some "vm" := by
        intro name hmem
        obtain ⟨hfile, hext⟩ := List.mem_filter.mp (hperm.mem_iff.mp hmem)
        exact Path.splitName_of_extension? (Tree.noSlash_of_mem_files? h hnames hfile)
          (beq_iff_eq.mp hext)
      have hdistinct : sorted.Nodup :=
        hperm.nodup_iff.mpr ((Tree.nodup_files? h hnames).filter _)
      rw [List.map_map]
      refine hdistinct.map_on ?_
      intro name hmem name' hmem' hstems
      obtain ⟨hproper, hext⟩ := hname name hmem
      obtain ⟨hproper', hext'⟩ := hname name' hmem'
      refine Path.eq_of_stem_eq hext hext' ?_
      simpa [Path.stem?, Path.fileName?_join input hproper, Path.fileName?_join input hproper']
        using hstems

/-- **The units of one input have different names.** A map from names to units
would hold all of them, in this order. -/
theorem nodup_unitNames {t : Tree} {o : Options} {units : List SourceUnit} (h : t.IsProper)
    (hunits : Parses t o units) : (units.map SourceUnit.name).Nodup := by
  obtain ⟨sources, ⟨paths, hpaths, hread⟩, hparsed⟩ := hunits
  have hsources : (paths.map fun p => (Path.stem? p).getD "") = sources.map Prod.fst := by
    refine map_eq_map_of_forall₂ (hread.imp ?_)
    rintro p source ⟨_, -, -, hname⟩
    exact hname.symm
  have hnames : sources.map Prod.fst = units.map SourceUnit.name := by
    refine map_eq_map_of_forall₂ (hparsed.imp ?_)
    intro source unit hunit
    exact (name_of_parse hunit).symm
  rw [← hnames, ← hsources]
  exact hpaths.nodup_stems h

/-! ### Stages -/

section

variable {m : Type → Type} [Monad m] [Host m]

/-- Reads the sources. -/
def readStage (o : Options) : Step m (List (String × String)) := do
  line "1. Read Files"
  (← collect o.input).mapM readSource

/-- Parses what was read. -/
def parseStage (o : Options) : Step m (List SourceUnit) := do
  let sources ← readStage o
  line "2. Parse Lines"
  run.liftVm (sources.mapM fun source => SourceUnit.parse source.1 source.2.toList)

/-- Compiles what was parsed. -/
def translateStage (o : Options) : Step m (List SourceUnit × Program) := do
  let units ← parseStage o
  line "3. Translate"
  let program ← run.liftVm (Program.assemble o.entryPoint units)
  return (units, program)

/-- Where the assembly goes. -/
def findOutput (o : Options) : Step m Path :=
  match o.output with
  | some p => pure p
  | none => ExceptT.lift (defaultOutput o.input)

/-- Where the summary goes: beside the assembly. -/
def summaryPath (output : Path) : Path :=
  Path.withFileName output ((Path.stem? output).getD "" ++ "_summary.txt")

/-- Writes the two files. -/
def writeFiles (result : List SourceUnit × Program) (output : Path) : Step m Unit := do
  writeResult output result.2.asm
  writeResult (summaryPath output) result.2.summary
  line (Text.styled [.green, .bold] "Finished" ++ ": " ++ Text.decimal result.1.length
    ++ " units, " ++ Text.decimal result.2.romSize ++ " instructions")

/-- Writes what was compiled. -/
def writeStage (o : Options) (result : List SourceUnit × Program) : Step m Unit := do
  if o.verbose then ExceptT.lift (Host.print result.2.listing)
  line "4. Write Files"
  let output ← findOutput o
  writeFiles result output

/-- The command translates first and writes then. -/
theorem run_eq [LawfulMonad m] (o : Options) :
    (run o : Step m Unit) = translateStage o >>= writeStage o := by
  obtain ⟨input, output, entryPoint, verbose⟩ := o
  cases output <;>
    simp only [run, translateStage, parseStage, readStage, writeStage, findOutput, writeFiles,
      summaryPath, bind_assoc, pure_bind]

end

/-- Sources that can be read are read. -/
theorem ends_readStage {t : Tree} {o : Options} {sources : List (String × String)}
    (h : ReadsAll t o sources) : Ends (readStage o) t (.ok sources) t := by
  obtain ⟨paths, hpaths, hread⟩ := h
  exact .bind_ok (ends_line _ t) (.bind_ok (ends_collect hpaths) (ends_readSources hread))

/-- Sources that can be parsed are parsed. -/
theorem ends_parseStage {t : Tree} {o : Options} {units : List SourceUnit}
    (h : Parses t o units) : Ends (parseStage o) t (.ok units) t := by
  obtain ⟨sources, hsources, hparsed⟩ := h
  refine .bind_ok (ends_readStage hsources) (.bind_ok (ends_line _ t) ?_)
  rw [mapM_eq_ok_iff.mpr hparsed]
  exact ends_liftVm (.ok units) t

/-- What is a program is compiled, and nothing is written on the way. -/
theorem ends_translateStage {t : Tree} {o : Options} {program : Program}
    (h : Translates t o program) :
    ∃ units, Ends (translateStage o) t (.ok (units, program)) t := by
  obtain ⟨units, hunits, hprogram⟩ := h
  refine ⟨units, .bind_ok (ends_parseStage hunits) (.bind_ok (ends_line _ t) ?_)⟩
  rw [hprogram]
  exact .bind_ok (ends_liftVm (.ok program) t) (ends_pure _ t)

/-- An error in the sources leaves the tree alone. -/
theorem stops_liftVm {α : Type} {r : Except Vm.Error α} {e : Vm.Error} (h : r = .error e)
    (t : Tree) : Stops (run.liftVm r) t := by
  subst h
  exact ⟨.source e, ends_liftVm (.error e) t⟩

/-- What is no program is refused, and nothing was written by then. -/
theorem stops_translateStage {t : Tree} {o : Options} (h : Fails t o) :
    Stops (translateStage o) t := by
  -- Where the first stage stops, the later ones do not start.
  have hreading : Stops (readStage o : Step (StateM World) _) t → Stops (translateStage o) t :=
    fun hread => hread.bind_left.bind_left
  cases h with
  | listing h => exact hreading (.bind_right (ends_line _ t) (stops_collect h).bind_left)
  | reading hpaths hp h =>
      exact hreading
        (.bind_right (ends_line _ t) (.bind_right (ends_collect hpaths) (stops_readSources hp h)))
  | @parsing sources source e hsources hsource h =>
      have hparsed : ∃ e, (sources.mapM fun source =>
          SourceUnit.parse source.1 source.2.toList) = .error e := by
        simp only [mapM_eq_error_iff]
        exact exists_firstFailure_iff.mpr ⟨source, hsource, e, h⟩
      obtain ⟨e, hparsed⟩ := hparsed
      exact (Stops.bind_right (ends_readStage hsources)
        (.bind_right (ends_line _ t) (stops_liftVm hparsed t))).bind_left
  | assembling hunits h =>
      exact .bind_right (ends_parseStage hunits)
        (.bind_right (ends_line _ t) (stops_liftVm h t).bind_left)

/-- Files that can be read one by one can all be read. -/
theorem exists_sources {t : Tree} {paths : List Path}
    (h : ∀ p ∈ paths, ∃ source, Reads t p source) :
    ∃ sources, List.Forall₂ (Reads t) paths sources := by
  induction paths with
  | nil => exact ⟨[], .nil⟩
  | cons p paths ih =>
      rw [List.forall_mem_cons] at h
      obtain ⟨source, hsource⟩ := h.1
      obtain ⟨sources, hsources⟩ := ih h.2
      exact ⟨source :: sources, .cons hsource hsources⟩

/-- **The sources are no program, or they are one.** -/
theorem fails_or_translates (t : Tree) (o : Options) :
    Fails t o ∨ ∃ program, Translates t o program := by
  by_cases hlisted : ∃ paths, Sources t o.input paths
  · obtain ⟨paths, hpaths⟩ := hlisted
    by_cases hread : ∀ p ∈ paths, ∃ source, Reads t p source
    · obtain ⟨sources, hsources⟩ := exists_sources hread
      have hall : ReadsAll t o sources := ⟨paths, hpaths, hsources⟩
      cases hparsed : sources.mapM fun source => SourceUnit.parse source.1 source.2.toList with
      | error e =>
          obtain ⟨before, source, after, rfl, -, hsource⟩ := mapM_eq_error_iff.mp hparsed
          exact .inl (.parsing hall (by simp) hsource)
      | ok units =>
          have hunits : Parses t o units := ⟨sources, hall, mapM_eq_ok_iff.mp hparsed⟩
          cases hprogram : Program.assemble o.entryPoint units with
          | error e => exact .inl (.assembling hunits hprogram)
          | ok program => exact .inr ⟨program, units, hunits, hprogram⟩
    · simp only [not_forall, not_exists] at hread
      obtain ⟨p, hp, hunread⟩ := hread
      exact .inl (.reading hpaths hp hunread)
  · exact .inl (.listing (not_exists.mp hlisted))

/-! ### Writing -/

/-- The path of the assembly. -/
def outputPath (t : Tree) (o : Options) : Path :=
  o.output.getD (if t.isDirectory o.input then
      Path.join o.input ((t.name? o.input).getD "out" ++ ".asm")
    else Path.withExtension o.input "asm")

/-- Finding the usual output path changes nothing. -/
theorem defaultOutput_run (w : World) (input : Path) :
    (defaultOutput input : StateM World Path).run w
      = (if w.tree.isDirectory input then
            Path.join input ((w.tree.name? input).getD "out" ++ ".asm")
          else Path.withExtension input "asm", w) := by
  simp only [defaultOutput, Host.isDirectory, Host.name?, StateT.run_bind, StateT.run_get,
    pure_bind]
  show StateT.run (if w.tree.isDirectory input then _ else _) w = _
  split <;> rfl

/-- The assembly goes where `outputPath` says. -/
theorem ends_findOutput (t : Tree) (o : Options) :
    Ends (findOutput o) t (.ok (outputPath t o)) t := by
  rw [findOutput, outputPath]
  cases o.output with
  | some p => exact ends_pure p t
  | none =>
      intro printed
      refine ⟨printed, ?_⟩
      show StateT.run (Except.ok <$> defaultOutput o.input) (⟨t, printed⟩ : World) = _
      rw [StateT.run_map, defaultOutput_run]
      rfl

/-- A file that can be written is written. -/
theorem ends_writeResult {t t' : Tree} {p : Path} {text : String}
    (h : t.write p text.toUTF8 = .ok t') : Ends (writeResult p text) t (.ok ()) t' := by
  have hwrite : Ends (ExceptT.lift (Host.write p text)) t (.ok (.ok ())) t' := by
    intro printed
    refine ⟨printed, ?_⟩
    show StateT.run (Except.ok <$> Host.write p text) (⟨t, printed⟩ : World) = _
    simp only [Host.write, StateT.run_map, StateT.run_bind, StateT.run_get, pure_bind, h]
    rfl
  exact .bind_ok (ends_line _ t) (.bind_ok hwrite (ends_pure () t'))

/-- A file that cannot be written leaves the tree alone. -/
theorem stops_writeResult {t : Tree} {p : Path} {text : String} {e : WriteFailure}
    (h : t.write p text.toUTF8 = .error e) : Stops (writeResult p text) t := by
  have hwrite : Ends (ExceptT.lift (Host.write p text)) t (.ok (.error e)) t := by
    intro printed
    refine ⟨printed, ?_⟩
    show StateT.run (Except.ok <$> Host.write p text) (⟨t, printed⟩ : World) = _
    simp only [Host.write, StateT.run_map, StateT.run_bind, StateT.run_get, pure_bind, h]
    rfl
  refine .bind_right (ends_line _ t) (.bind_right hwrite ?_)
  cases e <;> exact stops_throw _ t

/-! ### The whole command -/

/-- How the command can end: with which exit code, and with which tree. -/
inductive RunsTo (t : Tree) (o : Options) : UInt32 → Tree → Prop
  | refused (h : Fails t o) : RunsTo t o 1 t
  | unwritten {program : Program} {e : WriteFailure} (h : Translates t o program)
      (hasm : t.write (outputPath t o) program.asm.toUTF8 = .error e) : RunsTo t o 1 t
  | halfWritten {program : Program} {t₁ : Tree} {e : WriteFailure} (h : Translates t o program)
      (hasm : t.write (outputPath t o) program.asm.toUTF8 = .ok t₁)
      (hsummary : t₁.write (summaryPath (outputPath t o)) program.summary.toUTF8 = .error e) :
      RunsTo t o 1 t₁
  | written {program : Program} {t₁ t₂ : Tree} (h : Translates t o program)
      (hasm : t.write (outputPath t o) program.asm.toUTF8 = .ok t₁)
      (hsummary : t₁.write (summaryPath (outputPath t o)) program.summary.toUTF8 = .ok t₂) :
      RunsTo t o 0 t₂

/-- The exit code for a result. -/
def exitCode : Except Failure Unit → UInt32
  | .ok () => 0
  | .error _ => 1

/-- The two files decide how writing ends. -/
theorem ends_writeStage {t t' : Tree} {o : Options} {result : List SourceUnit × Program}
    {r : Except Failure Unit} (h : Ends (writeFiles result (outputPath t o)) t r t') :
    Ends (writeStage o result) t r t' := by
  have hlater : Ends (line "4. Write Files" >>= fun _ => findOutput o >>= writeFiles result)
      t r t' :=
    .bind_ok (ends_line _ t) (.bind_ok (ends_findOutput t o) h)
  rw [writeStage]
  cases o.verbose with
  | false => exact hlater
  | true => exact .bind_ok (ends_print _ t) hlater

/-- **How the command ends.** -/
theorem exists_runsTo (t : Tree) (o : Options) :
    ∃ r t', Ends (run o) t r t' ∧ RunsTo t o (exitCode r) t' := by
  rw [run_eq]
  rcases fails_or_translates t o with hfails | ⟨program, hprogram⟩
  · obtain ⟨e, hstop⟩ := (stops_translateStage hfails).bind_left
    exact ⟨.error e, t, hstop, .refused hfails⟩
  · obtain ⟨units, hunits⟩ := ends_translateStage hprogram
    cases hasm : t.write (outputPath t o) program.asm.toUTF8 with
    | error e =>
        obtain ⟨e', hstop⟩ := (stops_writeResult hasm).bind_left
        exact ⟨.error e', t, .bind_ok hunits (ends_writeStage hstop), .unwritten hprogram hasm⟩
    | ok t₁ =>
        have hfirst := ends_writeResult hasm
        cases hsummary : t₁.write (summaryPath (outputPath t o)) program.summary.toUTF8 with
        | error e =>
            obtain ⟨e', hstop⟩ := (stops_writeResult hsummary).bind_left
            exact ⟨.error e', t₁, .bind_ok hunits (ends_writeStage (.bind_ok hfirst hstop)),
              .halfWritten hprogram hasm hsummary⟩
        | ok t₂ =>
            have hsecond := ends_writeResult hsummary
            exact ⟨.ok (), t₂, .bind_ok hunits
              (ends_writeStage (.bind_ok hfirst (.bind_ok hsecond (ends_line _ t₂)))),
              .written hprogram hasm hsummary⟩

end HackComputer.Cli.Compiler
