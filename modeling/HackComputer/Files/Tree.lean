import HackComputer.Files.Path

/-!
# `HackComputer.Files.Tree`: a tree of files

A tree says what stands at which place. A place is the list of names
from the root down to it. Paths are followed one name after the other,
and every name but the last has to lead to a directory.

Reading fails in two ways: there may be nothing to open, or what was
opened cannot be read. So does writing.
-/

set_option autoImplicit false

namespace HackComputer.Files

/-- The names from the root to a place. -/
abbrev Place : Type := List String

/-- What stands at a place. -/
inductive Entry where
  | directory
  | file (content : ByteArray)
  /-- A device that takes everything and holds nothing. -/
  | sink
  /-- A device that takes nothing. -/
  | full

/-- The entry is a directory. -/
def Entry.isDirectory : Entry → Bool
  | directory => true
  | _ => false

/-- Why a path cannot be read. -/
inductive ReadFailure where
  | open
  | read
  deriving DecidableEq, Repr

/-- Why a path cannot be written. -/
inductive WriteFailure where
  | create
  | write
  deriving DecidableEq, Repr

/-- A tree of files and a directory in it, where relative paths
start. -/
structure Tree where
  current : Place
  entries : List (Place × Entry)

namespace Tree

/-- What stands at a place. The root is a directory. -/
def entry? (t : Tree) (place : Place) : Option Entry :=
  if place.isEmpty then some .directory else t.entries.lookup place

/-- The longest name that a directory takes, in bytes. -/
def maxNameBytes : Nat := 255

/-- The longest path that is followed, in bytes. -/
def maxPathBytes : Nat := 4095

/-- Goes from a place along some names. The last name need not exist. -/
def follow (t : Tree) : Place → List String → Option Place
  | place, [] => some place
  | place, name :: names =>
      if !(t.entry? place).any Entry.isDirectory || maxNameBytes < name.utf8ByteSize then none
      else match name with
        | "" | "." => t.follow place names
        | ".." => t.follow place.dropLast names
        | _ => t.follow (place ++ [name]) names

/-- The place of a path. -/
def place? (t : Tree) (p : Path) : Option Place :=
  if p.isEmpty || maxPathBytes < p.utf8ByteSize then none
  else t.follow (if p.isAbsolute then [] else t.current) p.parts

/-- The path leads to a directory. -/
def isDirectory (t : Tree) (p : Path) : Bool :=
  (t.place? p >>= t.entry?).any Entry.isDirectory

/-- The names of the files in the directory at a path. -/
def files? (t : Tree) (p : Path) : Option (List String) := do
  let directory ← t.place? p
  return t.entries.filterMap fun (place, entry) =>
    match entry with
    | .file _ => if place.dropLast = directory then place.getLast? else none
    | _ => none

/-- The last name of the place that a path leads to. -/
def name? (t : Tree) (p : Path) : Option String := do
  let place ← t.place? p
  let _ ← t.entry? place
  place.getLast?

/-- The content of the file at a path. -/
def read (t : Tree) (p : Path) : Except ReadFailure ByteArray :=
  match t.place? p >>= t.entry? with
  | none => .error .open
  | some (.file content) => .ok content
  | some .sink => .ok ByteArray.empty
  | some .directory | some .full => .error .read

/-- The tree with something new at a place. -/
def put (t : Tree) (place : Place) (entry : Entry) : Tree :=
  if t.entries.any (·.1 = place) then
    { t with entries := t.entries.map fun e => if e.1 = place then (place, entry) else e }
  else { t with entries := t.entries ++ [(place, entry)] }

/-- Writes a file at a path, and yields the tree afterwards. -/
def write (t : Tree) (p : Path) (content : ByteArray) : Except WriteFailure Tree :=
  match t.place? p with
  | none => .error .create
  | some place =>
      match t.entry? place with
      | none | some (.file _) => .ok (t.put place (.file content))
      | some .sink => .ok t
      | some .full => if content.isEmpty then .ok t else .error .write
      | some .directory => .error .create

end Tree

end HackComputer.Files
