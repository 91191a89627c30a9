import HackComputer.Proofs.Cli.Translation

/-!
# `HackComputer.Proofs.Cli.ListingOrder`: directories in another order

A directory lists its files in whatever order it likes, and the compiler puts
the names in order before it reads anything. So two trees with the same entries
in different orders cannot be told apart by what the compiler does.

Two runs are compared side by side. `Alike` relates two worlds, and an action is
`Steady` if it gives the same result in both and leaves them alike. Every
operation of the host is steady except the listing itself, and actions are
steady that are put together from steady ones. `steady_collect` is the one place
where an order is seen, and forgotten by sorting.
-/

set_option autoImplicit false

namespace HackComputer.Cli.Compiler

open Files Vm

/-! ### Directories in another order -/

/-- The same has been printed, and the files are the same in another order. -/
structure Alike (w w' : World) : Prop where
  tree : Tree.Reordered w.tree w'.tree
  printed : w'.printed = w.printed

/-- The action does the same in worlds that are alike, and leaves them alike. -/
def Steady {α : Type} (x : StateM World α) : Prop :=
  ∀ w w', Alike w w' → (x.run w').1 = (x.run w).1 ∧ Alike (x.run w).2 (x.run w').2

section

variable {α β : Type}

/-- A result alone asks nothing of the world. -/
theorem steady_pure (a : α) : Steady (pure a) :=
  fun _ _ h => ⟨rfl, h⟩

/-- Steady actions can follow each other. -/
theorem steady_bind {x : StateM World α} {f : α → StateM World β} (hx : Steady x)
    (hf : ∀ a, Steady (f a)) : Steady (x >>= f) := by
  intro w w' h
  obtain ⟨hresult, hafter⟩ := hx w w' h
  show ((f (x.run w').1).run (x.run w').2).1 = ((f (x.run w).1).run (x.run w).2).1 ∧
    Alike ((f (x.run w).1).run (x.run w).2).2 ((f (x.run w').1).run (x.run w').2).2
  rw [hresult]
  exact hf _ _ _ hafter

/-- Steps one after the other. -/
theorem steady_step {x : Step (StateM World) α} {f : α → Step (StateM World) β}
    (hx : Steady x.run) (hf : ∀ a, Steady (f a).run) : Steady (x >>= f).run := by
  rw [ExceptT.run_bind]
  refine steady_bind hx fun r => ?_
  cases r with
  | ok a => exact hf a
  | error e => exact steady_pure _

/-- An action that cannot fail is a steady step. -/
theorem steady_lift {x : StateM World α} (hx : Steady x) :
    Steady (ExceptT.lift x : Step (StateM World) α).run := by
  rw [ExceptT.run_lift, map_eq_pure_bind]
  exact steady_bind hx fun a => steady_pure _

end

/-- Printing adds the same to what was printed. -/
theorem steady_print (s : String) : Steady (Host.print s) :=
  fun _ _ h => ⟨rfl, h.tree, congrArg (· ++ s) h.printed⟩

/-- So does printing a line. -/
theorem steady_line (s : String) : Steady (line s : Step (StateM World) Unit).run :=
  steady_lift (steady_print (s ++ "\n"))

/-- Where the directories are does not depend on the order of entries. -/
theorem steady_isDirectory (p : Path) : Steady (Host.isDirectory p) :=
  fun _ _ h => ⟨h.tree.isDirectory_eq p, h⟩

/-- Nor does the name of a place. -/
theorem steady_name? (p : Path) : Steady (Host.name? p) :=
  fun _ _ h => ⟨h.tree.name?_eq p, h⟩

/-- Nor does the content of a file. -/
theorem steady_read (p : Path) : Steady (Host.read p) :=
  fun _ _ h => ⟨h.tree.read_eq p, h⟩

/-- Writing ends alike in both worlds and keeps them alike. -/
theorem steady_write (p : Path) (s : String) : Steady (Host.write p s) := by
  intro w w' h
  simp only [Host.write, StateT.run_bind, StateT.run_get, pure_bind]
  rcases h.tree.write p s.toUTF8 with ⟨e, hw, hw'⟩ | ⟨t, t', hw, hw', ht⟩
  · simp only [hw, hw']
    exact ⟨rfl, h⟩
  · simp only [hw, hw']
    exact ⟨rfl, ht, h.printed⟩

/-- What is done with a listing is the same if it does not depend on the order. -/
theorem steady_files? {α : Type} (p : Path) {f : Option (List String) → Step (StateM World) α}
    (hsteady : ∀ names?, Steady (f names?).run)
    (hperm : ∀ names names', names'.Perm names → f (some names') = f (some names)) :
    Steady (ExceptT.lift (Host.files? p) >>= f).run := by
  intro w w' h
  show ((f (w'.tree.files? p)).run.run w').1 = ((f (w.tree.files? p)).run.run w).1 ∧
    Alike ((f (w.tree.files? p)).run.run w).2 ((f (w'.tree.files? p)).run.run w').2
  rcases h.tree.files?_perm p with ⟨hw, hw'⟩ | ⟨names, names', hw, hw', hnames⟩
  · rw [hw, hw']
    exact hsteady none w w' h
  · rw [hw, hw', hperm names names' hnames]
    exact hsteady (some names) w w' h

/-- **Collecting does not depend on the order in which a directory is listed.** -/
theorem steady_collect (input : Path) :
    Steady (collect input : Step (StateM World) (List Path)).run := by
  refine steady_step (steady_lift (steady_isDirectory input)) fun directory => ?_
  cases directory with
  | false => exact steady_pure _
  | true =>
      refine steady_files? input ?_ ?_
      · intro names?
        cases names? with
        | none => exact steady_pure _
        | some names =>
            show Steady (ExceptT.run (if (sourceNames names).isEmpty then _ else _))
            split
            · exact steady_step (steady_pure _) fun _ => steady_pure _
            · exact steady_pure _
      · -- Two listings of one directory become one list when they are sorted.
        intro names names' hnames
        have hsources : (sourceNames names').Perm (sourceNames names) := hnames.filter _
        have hsorted := mergeSort_eq
          ((List.mergeSort_perm (sourceNames names) _).trans hsources.symm)
          (pairwise_mergeSort_le _)
        have hempty : (sourceNames names').isEmpty = (sourceNames names).isEmpty := by
          rw [Bool.eq_iff_iff, List.isEmpty_iff_length_eq_zero, List.isEmpty_iff_length_eq_zero,
            hsources.length_eq]
        rw [sourceNames, sourceNames] at hsorted hempty
        simp only [hsorted, hempty]

/-- A source is read under the same name and with the same text. -/
theorem steady_readSource (p : Path) :
    Steady (readSource p : Step (StateM World) (String × String)).run := by
  refine steady_step (steady_line _) fun _ => steady_step (steady_lift (steady_read p)) ?_
  intro content
  cases content with
  | error e => cases e <;> exact steady_pure _
  | ok bytes =>
      cases htext : String.fromUTF8? bytes with
      | none =>
          simp only [htext]
          exact steady_pure _
      | some text =>
          simp only [htext]
          exact steady_pure _

/-- All sources are read alike, one after the other. -/
theorem steady_readSources (paths : List Path) :
    Steady (paths.mapM readSource : Step (StateM World) (List (String × String))).run := by
  induction paths with
  | nil => exact steady_pure _
  | cons p paths ih =>
      rw [List.mapM_cons]
      exact steady_step (steady_readSource p) fun _ => steady_step ih fun _ => steady_pure _

/-- Up to the program all is steady: only the listing of the directory could
differ, and it is sorted. -/
theorem steady_translateStage (o : Options) :
    Steady (translateStage o : Step (StateM World) (List SourceUnit × Program)).run := by
  have hread : Steady (readStage o : Step (StateM World) (List (String × String))).run :=
    steady_step (steady_line _) fun _ =>
      steady_step (steady_collect o.input) fun paths => steady_readSources paths
  have hparse : Steady (parseStage o : Step (StateM World) (List SourceUnit)).run :=
    steady_step hread fun _ => steady_step (steady_line _) fun _ => steady_pure _
  exact steady_step hparse fun _ => steady_step (steady_line _) fun _ =>
    steady_step (steady_pure _) fun _ => steady_pure _

/-- The assembly goes to the same path. -/
theorem steady_findOutput (o : Options) : Steady (findOutput o : Step (StateM World) Path).run := by
  rw [findOutput]
  cases o.output with
  | some p => exact steady_pure _
  | none =>
      refine steady_lift (steady_bind (steady_isDirectory o.input) fun directory => ?_)
      cases directory with
      | false => exact steady_pure _
      | true => exact steady_bind (steady_name? o.input) fun _ => steady_pure _

/-- A result is written alike. -/
theorem steady_writeResult (p : Path) (text : String) :
    Steady (writeResult p text : Step (StateM World) Unit).run := by
  refine steady_step (steady_line _) fun _ => steady_step (steady_lift (steady_write p text)) ?_
  intro result
  cases result with
  | ok _ => exact steady_pure _
  | error e => cases e <;> exact steady_pure _

/-- The second half of a run is steady. -/
theorem steady_writeStage (o : Options) (result : List SourceUnit × Program) :
    Steady (writeStage o result : Step (StateM World) Unit).run := by
  have hlater : Steady (line "4. Write Files" >>= fun _ => findOutput o >>= writeFiles result :
      Step (StateM World) Unit).run :=
    steady_step (steady_line _) fun _ => steady_step (steady_findOutput o) fun output =>
      steady_step (steady_writeResult output _) fun _ =>
        steady_step (steady_writeResult (summaryPath output) _) fun _ => steady_line _
  rw [writeStage]
  cases o.verbose with
  | false => exact hlater
  | true => exact steady_step (steady_lift (steady_print _)) fun _ => hlater

/-- **The whole command does not depend on the order in which a directory is
listed**: not in what it prints, nor in its exit code, nor in what it writes. -/
theorem steady_execute (args : List String) : Steady (execute args : StateM World UInt32) := by
  rw [execute]
  cases Arguments.read specs args with
  | error stop =>
      cases stop with
      | usage => exact steady_pure _
      | help => exact steady_pure _
      | version => exact steady_bind (steady_print _) fun _ => steady_pure _
  | ok a =>
      refine steady_bind (steady_print _) fun _ => ?_
      rw [run_eq]
      refine steady_bind (steady_step (steady_translateStage _) (steady_writeStage _)) fun r => ?_
      cases r with
      | ok _ => exact steady_pure _
      | error failure => exact steady_bind (steady_print _) fun _ => steady_pure _

end HackComputer.Cli.Compiler
