import HackComputer.Cli.Compiler
import HackComputer.Cli.Emulator

/-!
# `HackComputer.Main`: the two commands on a real file system

The first argument chooses the command: `compile` for stack programs,
`run` for assembly and images. The others are the command's own.
-/

set_option autoImplicit false

namespace HackComputer.Cli

open Files

/-- The result of an action, or what to say when it fails. -/
def attempt {α ε : Type} (action : IO α) (failure : ε) : IO (Except ε α) := do
  try
    return .ok (← action)
  catch _ =>
    return .error failure

/-- The names of the files in a directory. -/
def fileNames (p : Path) : IO (List String) := do
  let entries ← (← IO.FS.realPath p).readDir
  let files ← entries.filterM fun e => do
    return (← e.path.metadata).type == .file
  return files.toList.map (·.fileName)

/-- The machine that the program itself runs on. -/
instance : Host IO where
  print s := do
    let out ← IO.getStdout
    out.putStr s
    out.flush
  isDirectory p := return (← attempt (do (← IO.FS.realPath p).isDir) ()).toOption.getD false
  files? p := return (← attempt (fileNames p) ()).toOption
  name? p := return (← attempt (IO.FS.realPath p) ()).toOption.bind (·.fileName)
  read p := do
    match ← attempt (IO.FS.Handle.mk p .read) ReadFailure.open with
    | .error e => return .error e
    | .ok handle => attempt handle.readBinToEnd .read
  write p s := do
    match ← attempt (IO.FS.Handle.mk p .write) WriteFailure.create with
    | .error e => return .error e
    | .ok handle => attempt (do handle.putStr s; handle.flush) .write

end HackComputer.Cli

/-- Runs the command that the first argument names. -/
def main (args : List String) : IO UInt32 :=
  match args with
  | "compile" :: args => HackComputer.Cli.Compiler.execute args
  | "run" :: args => HackComputer.Cli.Emulator.execute args
  | _ => return 2
