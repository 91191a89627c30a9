import HackComputer.Proofs.Cli.ListingOrder

/-!
# `HackComputer.Proofs.Cli.Delivery`: the two files of a program

The compiler writes a program's assembly and a summary beside it. The name of
the summary is made from that of the assembly, and both paths are texts that a
user may have chosen, with dots and slashes and names of directories in them.
`delivered_of_writes` says that nothing of that matters: if both files could be
written, they are two files in one directory, and no other file has changed.

* `summaryPath_ne`: the two paths are never the same text.
* `delivered_of_writes`: the two files, and nothing else.
* `execute_delivers`: failed translations do not reach the files, successful
  ones deliver both, and no order of a directory shows in the result.
-/

set_option autoImplicit false

namespace HackComputer.Cli.Compiler

open Files Vm

/-! ### The summary beside the assembly -/

/-- The summary has a name that a file can have, whatever the output is. -/
theorem isName_summary (output : Path) :
    Path.IsName ((Path.stem? output).getD "" ++ "_summary.txt") := by
  have hstem : '/' ∉ ((Path.stem? output).getD "").toList := by
    rw [Path.stem?]
    cases hname : output.fileName? with
    | none => decide
    | some name => exact Path.slash_not_mem_stem (Path.parts_eq hname).1.noSlash
  have hmark : '_' ∈ ((Path.stem? output).getD "" ++ "_summary.txt").toList := by simp
  constructor
  · simp [hstem]
  all_goals
    intro heq
    rw [heq] at hmark
    revert hmark
    decide

/-- The summary is not called like the assembly, since what follows the stem
starts with a dot in the one name and with another character in the other. -/
theorem summaryName_ne {output : Path} {name : String} (h : output.fileName? = some name) :
    (Path.stem? output).getD "" ++ "_summary.txt" ≠ name := by
  rw [Path.stem?, h]
  exact Path.stem_append_ne rfl (by decide)

/-- **The two paths are never the same.** -/
theorem summaryPath_ne (output : Path) : summaryPath output ≠ output := by
  intro heq
  have hname : output.fileName? = some ((Path.stem? output).getD "" ++ "_summary.txt") := by
    conv => lhs; rw [← heq]
    exact Path.fileName?_withFileName output (isName_summary output)
  exact summaryName_ne hname rfl

/-- From the first tree to the second the program was written: its assembly to
the output path, which leads to `place`, and its summary to the path beside it,
which leads to `place'`. -/
structure Delivered (t t' : Tree) (output : Path) (program : Program)
    (place place' : Files.Place) : Prop where
  assembly : t.place? output = some place
  summary : t.place? (summaryPath output) = some place'
  /-- The two are files in one directory, under these names. -/
  beside : ∃ directory name, output.fileName? = some name ∧ place = directory ++ [name] ∧
    place' = directory ++ [(Path.splitName name).1 ++ "_summary.txt"]
  apart : place' ≠ place
  written : t'.entry? place = some (Tree.stored (t.entry? place) program.asm.toUTF8)
  written' : t'.entry? place' = some (Tree.stored (t.entry? place') program.summary.toUTF8)
  other : ∀ elsewhere, elsewhere ≠ place → elsewhere ≠ place' →
    t'.entry? elsewhere = t.entry? elsewhere

/-- **The two files, and nothing else.** -/
theorem delivered_of_writes {t t₁ t₂ : Tree} {output : Path} {program : Program}
    (hasm : t.write output program.asm.toUTF8 = .ok t₁)
    (hsummary : t₁.write (summaryPath output) program.summary.toUTF8 = .ok t₂) :
    ∃ place place', Delivered t t₂ output program place place' := by
  obtain ⟨place, hplace, hfirst⟩ := Tree.write_eq_ok hasm
  obtain ⟨place', hplace', hsecond⟩ := Tree.write_eq_ok hsummary
  -- The first file is no directory, so the second path leads where it did before.
  rw [hfirst.place?_eq] at hplace'
  obtain ⟨directory, name, hname, hend, hend'⟩ :=
    Tree.placed_beside (isName_summary output) hplace hfirst.notDirectory hplace'
  have hapart : place' ≠ place := by
    rw [hend, hend', ne_eq, List.append_cancel_left_eq, List.singleton_inj]
    exact summaryName_ne hname
  have hstem : (Path.stem? output).getD "" = (Path.splitName name).1 := by
    rw [Path.stem?, hname]
    rfl
  rw [hstem] at hend'
  refine ⟨place, place', hplace, hplace', ⟨directory, name, hname, hend, hend'⟩, hapart, ?_, ?_, ?_⟩
  · rw [hsecond.other place hapart.symm, hfirst.entry]
  · rw [hsecond.entry, hfirst.other place' hapart]
  · intro elsewhere hplace hplace'
    rw [hsecond.other elsewhere hplace', hfirst.other elsewhere hplace]

/-! ### The exit code and the files -/

/-- A step ends in one way. -/
theorem Ends.unique {α : Type} {x : Step (StateM World) α} {t t' t'' : Tree}
    {r r' : Except Failure α} (h : Ends x t r t') (h' : Ends x t r' t'') : r = r' := by
  obtain ⟨printed, h⟩ := h ""
  obtain ⟨printed', h'⟩ := h' ""
  rw [h] at h'
  exact (Prod.mk.inj h').1

/-- Sources that fail are no program. -/
theorem not_translates_of_fails {t : Tree} {o : Options} (h : Fails t o) (program : Program) :
    ¬Translates t o program := by
  intro hprogram
  obtain ⟨units, hunits⟩ := ends_translateStage hprogram
  obtain ⟨e, hstop⟩ := stops_translateStage h
  cases hunits.unique hstop

/-- Sources are one program only. -/
theorem translates_unique {t : Tree} {o : Options} {program program' : Program}
    (h : Translates t o program) (h' : Translates t o program') : program = program' := by
  obtain ⟨units, hunits⟩ := ends_translateStage h
  obtain ⟨units', hunits'⟩ := ends_translateStage h'
  cases hunits.unique hunits'
  rfl

namespace RunsTo

variable {t t' : Tree} {o : Options} {code : UInt32} (h : RunsTo t o code t')
include h

/-- What fails ends with exit code 1 and changes nothing. -/
theorem of_fails (hfails : Fails t o) : code = 1 ∧ t' = t := by
  have hnot := not_translates_of_fails hfails
  cases h with
  | refused => exact ⟨rfl, rfl⟩
  | unwritten => exact ⟨rfl, rfl⟩
  | halfWritten h => exact absurd h (hnot _)
  | written h => exact absurd h (hnot _)

/-- Exit code 0 means that both files were written. -/
theorem delivered (hcode : code = 0) :
    ∃ program place place', Translates t o program ∧
      Delivered t t' (outputPath t o) program place place' := by
  cases h with
  | refused => cases hcode
  | unwritten => cases hcode
  | halfWritten => cases hcode
  | @written program _ _ h hasm hsummary =>
      obtain ⟨place, place', hdelivered⟩ := delivered_of_writes hasm hsummary
      exact ⟨program, place, place', h, hdelivered⟩

/-- A program that can be written is written. -/
theorem of_writes {program : Program} {t₁ t₂ : Tree} (hprogram : Translates t o program)
    (hasm : t.write (outputPath t o) program.asm.toUTF8 = .ok t₁)
    (hsummary : t₁.write (summaryPath (outputPath t o)) program.summary.toUTF8 = .ok t₂) :
    code = 0 := by
  cases h with
  | refused hfails => exact absurd hprogram (not_translates_of_fails hfails program)
  | unwritten h hasm' =>
      cases translates_unique h hprogram
      rw [hasm] at hasm'
      cases hasm'
  | halfWritten h hasm' hsummary' =>
      cases translates_unique h hprogram
      rw [hasm] at hasm'
      cases hasm'
      rw [hsummary] at hsummary'
      cases hsummary'
  | written => rfl

end RunsTo

/-- The exit code and the files after a run with arguments that make sense. -/
theorem execute_runsTo {args : List String} {a : Arguments}
    (hargs : Arguments.read specs args = .ok a) (t : Tree) (printed : String) :
    ∃ code t' printed', (execute args : StateM World UInt32).run ⟨t, printed⟩
      = (code, ⟨t', printed'⟩) ∧ RunsTo t (.ofArguments a) code t' := by
  obtain ⟨r, t', hends, hruns⟩ := exists_runsTo t (.ofArguments a)
  obtain ⟨printed', hrun⟩ := hends (printed ++ ("Hack VM Translator by kanade-k-1228" ++ "\n"))
  suffices hcode : ∃ printed'', (execute args : StateM World UInt32).run ⟨t, printed⟩
      = (exitCode r, ⟨t', printed''⟩) by
    obtain ⟨printed'', hcode⟩ := hcode
    exact ⟨exitCode r, t', printed'', hcode, hruns⟩
  rw [execute, hargs]
  -- The greeting is printed first, and the result of the run is made a code last.
  show ∃ _, StateT.run (say _ >>= fun _ => (run (.ofArguments a)).run >>= _) _ = _
  rw [StateT.run_bind]
  show ∃ _, StateT.run ((run (.ofArguments a)).run >>= _) (⟨t, _⟩ : World) = _
  rw [StateT.run_bind, hrun]
  cases r <;> exact ⟨_, rfl⟩

/-- Arguments that make no sense, or ask for help or the version, change no
file. -/
theorem execute_stop {args : List String} {stop : Stop}
    (hargs : Arguments.read specs args = .error stop) (t : Tree) (printed : String) :
    ∃ code printed', (execute args : StateM World UInt32).run ⟨t, printed⟩
      = (code, ⟨t, printed'⟩) := by
  rw [execute, hargs]
  cases stop <;> exact ⟨_, _, rfl⟩

/-- The same files in another order lead to the same run. -/
theorem execute_reordered {args : List String} {t t' s : Tree} {printed printed' : String}
    {code : UInt32}
    (hrun : (execute args : StateM World UInt32).run ⟨t, printed⟩ = (code, ⟨t', printed'⟩))
    (h : Tree.Reordered t s) :
    ∃ s', (execute args : StateM World UInt32).run ⟨s, printed⟩ = (code, ⟨s', printed'⟩) ∧
      Tree.Reordered t' s' ∧ ∀ place, s'.entry? place = t'.entry? place := by
  obtain ⟨hcode, halike⟩ := steady_execute args ⟨t, printed⟩ ⟨s, printed⟩ ⟨h, rfl⟩
  rw [hrun] at hcode halike
  cases hs : (execute args : StateM World UInt32).run ⟨s, printed⟩ with
  | mk code' after =>
      rw [hs] at hcode halike
      obtain ⟨s', printed''⟩ := after
      obtain rfl : code' = code := hcode
      obtain rfl : printed'' = printed' := halike.printed
      exact ⟨s', rfl, halike.tree, halike.tree.entry?_eq⟩

/-- **Failed translations do not reach the files.** Whatever the files are and
whatever the arguments, a run changes nothing if the arguments lead to no
translation, and if there is no source, one cannot be read or parsed, or the
program cannot be compiled, when it also ends with exit code 1. If nothing of
that is the case, there is a program. A run that has translated and ends with
exit code 0 has written two files, the assembly to the output path and the
summary to the path beside it, and has changed no other place; and it does end
so if the sources are a program and both files can be written. The two paths
are never the same, nor are the two places. With the same files listed in
another order, a run prints the same, ends with the same exit code and leaves
the same files. -/
theorem execute_delivers (args : List String) (t : Tree) (printed : String) :
    (∀ output, summaryPath output ≠ output) ∧
    ∃ code t' printed',
      (execute args : StateM World UInt32).run ⟨t, printed⟩ = (code, ⟨t', printed'⟩) ∧
      (∀ stop, Arguments.read specs args = .error stop → t' = t) ∧
      (∀ a, Arguments.read specs args = .ok a →
        (Fails t (.ofArguments a) ∨ ∃ program, Translates t (.ofArguments a) program) ∧
        (Fails t (.ofArguments a) → code = 1 ∧ t' = t) ∧
        (code = 0 → ∃ program place place', Translates t (.ofArguments a) program ∧
          Delivered t t' (outputPath t (.ofArguments a)) program place place') ∧
        (∀ program t₁ t₂, Translates t (.ofArguments a) program →
          t.write (outputPath t (.ofArguments a)) program.asm.toUTF8 = .ok t₁ →
          t₁.write (summaryPath (outputPath t (.ofArguments a))) program.summary.toUTF8 = .ok t₂ →
          code = 0)) ∧
      ∀ s, Tree.Reordered t s → ∃ s',
        (execute args : StateM World UInt32).run ⟨s, printed⟩ = (code, ⟨s', printed'⟩) ∧
        Tree.Reordered t' s' ∧ ∀ place, s'.entry? place = t'.entry? place := by
  refine ⟨summaryPath_ne, ?_⟩
  cases hargs : Arguments.read specs args with
  | error stop =>
      obtain ⟨code, printed', hrun⟩ := execute_stop hargs t printed
      refine ⟨code, t, printed', hrun, fun _ _ => rfl, ?_, fun s => execute_reordered hrun⟩
      intro a ha
      cases ha
  | ok a =>
      obtain ⟨code, t', printed', hrun, hruns⟩ := execute_runsTo hargs t printed
      refine ⟨code, t', printed', hrun, ?_, ?_, fun s => execute_reordered hrun⟩
      · intro stop hstop
        cases hstop
      · intro a' ha'
        cases ha'
        exact ⟨fails_or_translates t _, hruns.of_fails, hruns.delivered,
          fun _ _ _ => hruns.of_writes⟩

/-- A directory with a source and the last result. -/
def homeTree : Tree :=
  ⟨["home"], [(["home"], .directory), (["home", "A.vm"], .file "push constant 7\n".toUTF8),
    (["home", "A.b.asm"], .file "@7\n".toUTF8)]⟩

/-- Arguments with a roundabout way to the last result. -/
def homeArguments : List String := ["A.vm", "--no-bootstrap", "-o", "../home/./A.b.asm"]

/-- The result is replaced, and a summary stands beside it. -/
theorem execute_delivers_of_homeTree :
    ∃ a t' printed', Arguments.read specs homeArguments = .ok a ∧
      (execute homeArguments : StateM World UInt32).run ⟨homeTree, ""⟩ = (0, ⟨t', printed'⟩) ∧
      ∃ program, Translates homeTree (.ofArguments a) program ∧
        Delivered homeTree t' "../home/./A.b.asm" program ["home", "A.b.asm"]
          ["home", "A.b_summary.txt"] := by
  obtain ⟨-, code, t', printed', hrun, -, hruns, -⟩ := execute_delivers homeArguments homeTree ""
  have hargs : Arguments.read specs homeArguments = .ok ⟨[("no-bootstrap", none),
      ("output", some "../home/./A.b.asm")], some "A.vm"⟩ := by decide
  have hcode : ((execute homeArguments : StateM World UInt32).run ⟨homeTree, ""⟩).1 = 0 := by
    decide +kernel
  rw [hrun] at hcode
  obtain rfl : code = 0 := hcode
  obtain ⟨program, place, place', hprogram, hdelivered⟩ := (hruns _ hargs).2.2.1 rfl
  have hplace : homeTree.place? "../home/./A.b.asm" = some ["home", "A.b.asm"] := by decide +kernel
  have hplace' : homeTree.place? (summaryPath "../home/./A.b.asm")
      = some ["home", "A.b_summary.txt"] := by decide +kernel
  obtain rfl := Option.some.inj (hplace.symm.trans hdelivered.assembly)
  obtain rfl := Option.some.inj (hplace'.symm.trans hdelivered.summary)
  exact ⟨_, t', printed', hargs, hrun, program, hprogram, hdelivered⟩

end HackComputer.Cli.Compiler
