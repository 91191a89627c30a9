import HackComputer.Files.Tree

/-!
# `HackComputer.Cli.Host`: what a command needs from its surroundings

The commands of this library print text, read files and write files.
`Host` lists these operations, so that one definition of a command runs
on a real file system and on a `World`, which is a file tree together
with what has been printed.
-/

set_option autoImplicit false

namespace HackComputer.Cli

open Files

/-- The operations of a command's surroundings. -/
class Host (m : Type → Type) where
  /-- Prints a text. -/
  print : String → m Unit
  /-- The path leads to a directory. -/
  isDirectory : Path → m Bool
  /-- The names of the files in a directory, if it can be read. -/
  files? : Path → m (Option (List String))
  /-- The name of the directory that a path leads to. -/
  name? : Path → m (Option String)
  /-- The content of a file. -/
  read : Path → m (Except ReadFailure ByteArray)
  /-- Writes a file. -/
  write : Path → String → m (Except WriteFailure Unit)

/-- A file tree and all that has been printed. -/
structure World where
  tree : Tree
  printed : String := ""

/-- A world in memory, in which nothing happens but what the commands do. -/
instance : Host (StateM World) where
  print s := modify fun w => { w with printed := w.printed ++ s }
  isDirectory p := return (← get).tree.isDirectory p
  files? p := return (← get).tree.files? p
  name? p := return (← get).tree.name? p
  read p := return (← get).tree.read p
  write p s := do
    match (← get).tree.write p s.toUTF8 with
    | .ok tree =>
        modify fun w => { w with tree := tree }
        return .ok ()
    | .error e => return .error e

/-- Prints a text and ends the line. -/
def say {m : Type → Type} [Host m] (s : String) : m Unit :=
  Host.print (s ++ "\n")

end HackComputer.Cli
