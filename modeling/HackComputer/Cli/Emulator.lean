import HackComputer.Assembly.Image
import HackComputer.Cli.Arguments
import HackComputer.Cli.Host
import HackComputer.Watch.Trace

/-!
# `HackComputer.Cli.Emulator`: the command that runs programs

The command reads assembly or an image, can write the image, and runs
the program until it halts or a number of steps is done. A watch
document says what is shown on the way; at the end the registers and the
stack are shown.
-/

set_option autoImplicit false

namespace HackComputer.Cli.Emulator

open Files Isa Assembly Machine

/-- Why the command fails. -/
inductive Failure where
  | assembly (e : Assembly.Error)
  | watch (e : Watch.Error)
  | openFile (path : String)
  | readFile (path : String)
  | writeFile (path : String)
  deriving DecidableEq, Repr

/-- The wording of each failure. -/
def Failure.message : Failure → String
  | assembly e => e.message
  | watch e => e.message
  | openFile path => "Failed to open file: " ++ path
  | readFile path => "Failed to read file: " ++ path
  | writeFile path => "Failed to write file: " ++ path

/-- The failure for a terminal, with the line that cannot be read if
there is one. -/
def Failure.report (f : Failure) : String :=
  Text.errorTitle f.message ++
    match f with
    | assembly (.malformed _ text _) => "      " ++ Text.styled [.blue] "|" ++ " " ++ text ++ "\n"
    | _ => ""

/-- The number of steps that a run is limited to if nothing else is
said. -/
def maxLimit : Nat := 0xFFFFFFFFFFFFFFFF

/-- What the command is asked to do. -/
structure Options where
  /-- Assembly, or an image if the name ends in `.hack`. -/
  input : Path := "main.asm"
  /-- The greatest number of steps. -/
  limit : Nat := maxLimit
  /-- The watch document. -/
  watch : Option Path := none
  /-- Show every step. -/
  all : Bool := false
  /-- The stack pointer at the start. -/
  sp : Option Word := none
  /-- Where the image goes. -/
  image : Option Path := none
  deriving DecidableEq, Repr

/-- The options of the command. -/
def specs : List OptionSpec :=
  [⟨"tmax", some 't', some fun s => (number64? s).isSome⟩,
    ⟨"dump-cfg", some 'd', some anyText⟩, ⟨"dump-all", some 'a', none⟩,
    ⟨"sp", some 's', some fun s => (number16? s).isSome⟩, ⟨"hack", some 'o', some anyText⟩]

/-- What the arguments ask for. -/
def Options.ofArguments (a : Arguments) : Options where
  input := a.free.getD "main.asm"
  limit := (a.get? "tmax" >>= number64?).getD maxLimit
  watch := a.get? "dump-cfg"
  all := a.has "dump-all"
  sp := (a.get? "sp" >>= number16?).map Nat.toUInt16
  image := a.get? "hack"

/-- The line above and below the name of the input. -/
def rule : String := "+-----------------------------------------------+"

section

variable {m : Type → Type} [Monad m] [Host m]

/-- A step of the command, which may fail. -/
abbrev Step (m : Type → Type) (α : Type) : Type := ExceptT Failure m α

/-- Prints a line. -/
def line (s : String) : Step m Unit :=
  ExceptT.lift (say s)

/-- The path names an image: it ends in `.hack`. -/
def isImage (p : Path) : Bool :=
  ".hack".toList.isSuffixOf p.toList

/-- Reads a program, which is an image or assembly. -/
def load (p : Path) : Step m Executable := do
  match ← ExceptT.lift (Host.read p) with
  | .error .open => throw (.openFile p)
  | .error .read => throw (.readFile p)
  | .ok bytes =>
      match String.fromUTF8? bytes with
      | none => throw (.readFile p)
      | some text =>
          let program := if isImage p then Image.load text.toList
            else Executable.ofSource text.toList
          ExceptT.mk (pure (program.mapError .assembly))

/-- Writes the image of a program. -/
def writeImage (p : Path) (e : Executable) : Step m Unit := do
  match ← ExceptT.lift (Host.write p (Image.write e.rom)) with
  | .ok () => line ("  > " ++ p)
  | .error _ => throw (.writeFile p)

/-- Reads a watch document. One that can be opened but not read as text
is not a document. -/
def readWatch (e : Executable) (p : Path) : Step m Watch.Points := do
  match ← ExceptT.lift (Host.read p) with
  | .error .open => throw (.openFile p)
  | .error .read => throw (.watch (.unreadable p))
  | .ok bytes =>
      match String.fromUTF8? bytes with
      | none => throw (.watch (.unreadable p))
      | some text =>
          ExceptT.mk (pure ((Watch.Points.parse e p text.toList).mapError .watch))

/-- The machine before its first step. -/
def initial (o : Options) (e : Executable) : State :=
  let s := State.start e.rom
  match o.sp with
  | some sp => s.write Register.sp.address sp
  | none => s

/-- How the run ended. -/
def outcomeLine (steps : Nat) (s : State) : String :=
  if s.halted then
    Text.styled [.green, .bold] "Halted" ++ " after " ++ Text.decimal steps ++ " steps"
  else
    Text.styled [.yellow, .bold] "Stopped" ++ " at tmax = " ++ Text.decimal steps ++ " steps"

/-- Loads and runs a program. -/
def run (o : Options) : Step m Unit := do
  line rule
  line ("| " ++ Text.padRight 45 o.input ++ " |")
  line rule
  let e ← load o.input
  line (" * ROM: " ++ Text.decimal e.rom.size ++ " words, " ++ Text.decimal e.labels.length
    ++ " labels, " ++ Text.decimal e.vars.length ++ " variables")
  match o.image with
  | some p => writeImage p e
  | none => pure ()
  line "[INIT]"
  let points ← match o.watch with
    | some p => readWatch e p
    | none => pure []
  let watcher : Watch.Watcher := ⟨o.all, o.watch, points⟩
  let (announced, s) := watcher.hook.init "" (initial o e)
  ExceptT.lift (Host.print announced)
  let (shown, steps, s) := watcher.run o.limit s
  ExceptT.lift (Host.print shown)
  line "================================================="
  line (outcomeLine steps s)
  ExceptT.lift (Host.print (Watch.registerLine s Register.bases ++ Watch.stackLines s))

/-- Runs the command with its arguments and yields the exit code. The texts
that describe the options are not part of this library: help is answered with
its exit code and no text, and so are arguments that make no sense. -/
def execute (args : List String) : m UInt32 := do
  match Arguments.read specs args with
  | .error .usage => return 2
  | .error .help => return 0
  | .error .version =>
      say "Hack Emulator v1.0.0"
      return 0
  | .ok a =>
      say "Hack Emulator by kanade-k-1228"
      match ← (run (.ofArguments a)).run with
      | .ok () => return 0
      | .error failure =>
          Host.print failure.report
          return 1

end

end HackComputer.Cli.Emulator
