import HackComputer.Cli.Arguments
import HackComputer.Cli.Host
import HackComputer.Vm.Listing

/-!
# `HackComputer.Cli.Compiler`: the command that compiles stack programs

The command reads one source file, or all source files of a directory in
the order of their names, compiles them into one program, and writes the
assembly and a summary beside it. Nothing is written unless everything
was read and compiled.
-/

set_option autoImplicit false

namespace HackComputer.Cli.Compiler

open Files Vm

/-- Why the command fails. -/
inductive Failure where
  | source (e : Vm.Error)
  | openFile (path : String)
  | readFile (path : String)
  | readDirectory (path : String)
  | createFile (path : String)
  | writeFile (path : String)
  | noSource (path : String)
  deriving DecidableEq, Repr

/-- The failure for a terminal. -/
def Failure.report : Failure → String
  | source e => e.report
  | openFile path => Text.errorTitle ("Failed to open file: " ++ path)
  | readFile path => Text.errorTitle ("Failed to read file: " ++ path)
  | readDirectory path => Text.errorTitle ("Failed to read directory: " ++ path)
  | createFile path => Text.errorTitle ("Failed to create file: " ++ path)
  | writeFile path => Text.errorTitle ("Failed to write file: " ++ path)
  | noSource path => Text.errorTitle ("No `.vm` source found in " ++ path)

/-- What the command is asked to do. -/
structure Options where
  /-- A source file or a directory of them. -/
  input : Path := "."
  /-- The assembly file, if it is not the usual one. -/
  output : Option Path := none
  /-- The function that the machine starts with, if it starts with
  one. -/
  entryPoint : Option String := some "Sys.init"
  /-- List the program. -/
  verbose : Bool := false
  deriving DecidableEq, Repr

/-- The options of the command. -/
def specs : List OptionSpec :=
  [⟨"output", some 'o', some anyText⟩, ⟨"no-bootstrap", none, none⟩,
    ⟨"entry", some 'e', some anyText⟩, ⟨"verbose", some 'v', none⟩]

/-- What the arguments ask for. -/
def Options.ofArguments (a : Arguments) : Options where
  input := a.free.getD "."
  output := a.get? "output"
  entryPoint := if a.has "no-bootstrap" then none else some ((a.get? "entry").getD "Sys.init")
  verbose := a.has "verbose"

section

variable {m : Type → Type} [Monad m] [Host m]

/-- A step of the command, which may fail. -/
abbrev Step (m : Type → Type) (α : Type) : Type := ExceptT Failure m α

/-- Prints a line. -/
def line (s : String) : Step m Unit :=
  ExceptT.lift (say s)

/-- The source files of an input: those of a directory by name, or the
input itself. -/
def collect (input : Path) : Step m (List Path) := do
  if !(← ExceptT.lift (Host.isDirectory input)) then return [input]
  match ← ExceptT.lift (Host.files? input) with
  | none => throw (.readDirectory input)
  | some names =>
      let sources := names.filter fun name => Path.extension? name == some "vm"
      if sources.isEmpty then throw (.noSource input)
      return (sources.mergeSort fun a b => decide (a ≤ b)).map (Path.join input ·)

/-- Reads a source file as text. -/
def readSource (p : Path) : Step m (String × String) := do
  line ("  < " ++ p)
  match ← ExceptT.lift (Host.read p) with
  | .error .open => throw (.openFile p)
  | .error .read => throw (.readFile p)
  | .ok bytes =>
      match String.fromUTF8? bytes with
      | some text => return ((Path.stem? p).getD "", text)
      | none => throw (.readFile p)

/-- Writes a result. -/
def writeResult (p : Path) (text : String) : Step m Unit := do
  line ("  > " ++ p)
  match ← ExceptT.lift (Host.write p text) with
  | .ok () => return
  | .error .create => throw (.createFile p)
  | .error .write => throw (.writeFile p)

/-- Where the assembly goes if nothing else is said: into a directory of
sources under the directory's own name, or beside a source file. -/
def defaultOutput (input : Path) : m Path := do
  if ← Host.isDirectory input then
    let name ← Host.name? input
    return Path.join input (name.getD "out" ++ ".asm")
  else return Path.withExtension input "asm"

/-- Reads, compiles and writes.

The units are a list and not a map by name. The names of files are texts here,
and the sources of one directory all have the same extension, so no two of them
give one unit name (`nodup_unitNames`): a map would never replace a unit by
another, and there is nothing to warn of. -/
def run (o : Options) : Step m Unit := do
  line "1. Read Files"
  let sources ← (← collect o.input).mapM readSource
  line "2. Parse Lines"
  let units ← liftVm (sources.mapM fun (name, text) => SourceUnit.parse name text.toList)
  line "3. Translate"
  let program ← liftVm (Program.assemble o.entryPoint units)
  if o.verbose then ExceptT.lift (Host.print program.listing)
  line "4. Write Files"
  let output ← match o.output with
    | some p => pure p
    | none => ExceptT.lift (defaultOutput o.input)
  let summary := Path.withFileName output ((Path.stem? output).getD "" ++ "_summary.txt")
  writeResult output program.asm
  writeResult summary program.summary
  line (Text.styled [.green, .bold] "Finished" ++ ": " ++ Text.decimal units.length ++ " units, "
    ++ Text.decimal program.romSize ++ " instructions")
where
  /-- An error in a source is a failure of the command. -/
  liftVm {α : Type} (r : Except Vm.Error α) : Step m α :=
    ExceptT.mk (pure (r.mapError .source))

/-- Runs the command with its arguments and yields the exit code. The texts
that describe the options are not part of this library: help is answered with
its exit code and no text, and so are arguments that make no sense. -/
def execute (args : List String) : m UInt32 := do
  match Arguments.read specs args with
  | .error .usage => return 2
  | .error .help => return 0
  | .error .version =>
      say "vmtr 0.1.0"
      return 0
  | .ok a =>
      say "Hack VM Translator by kanade-k-1228"
      match ← (run (.ofArguments a)).run with
      | .ok () => return 0
      | .error failure =>
          Host.print failure.report
          return 1

end

end HackComputer.Cli.Compiler
