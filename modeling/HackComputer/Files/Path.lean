import HackComputer.Text.Blank

/-!
# `HackComputer.Files.Path`: paths as text

A path is a text of names with slashes between them. Empty names and
names of one dot count for nothing, except for a dot at the very start.
The operations here look at the text alone and ask no file system.

* `fileName?`, `stem?`, `extension?`: the parts of the last name.
* `join`, `withFileName`, `withExtension`: new paths from old ones.
-/

set_option autoImplicit false

namespace HackComputer.Files

/-- A path. -/
abbrev Path : Type := String

namespace Path

/-- The names between the slashes, empty ones included. -/
def parts (p : Path) : List String :=
  (Text.fields (· == '/') p.toList).map String.ofList

/-- The path starts at the root. -/
def isAbsolute (p : Path) : Bool :=
  p.toList.head? == some '/'

/-- The parts up to the last one that counts. The first part is kept in
any case: it is the root, a dot or a name. -/
def significant (parts : List String) : List String :=
  let rest := ((parts.drop 1).reverse.dropWhile fun n => n == "" || n == ".").reverse
  parts.take 1 ++ rest

/-- The last name of the path, unless it is one of the two that stand
for a directory. -/
def fileName? (p : Path) : Option String :=
  (significant p.parts).getLast?.filter fun n => n != "" && n != "." && n != ".."

/-- A name divided at its last dot: what stands before it, and what
stands behind it if there is a dot that does not start the name. -/
def splitName (name : String) : String × Option String :=
  let cs := name.toList.reverse
  let after := (cs.takeWhile (· != '.')).reverse
  match (cs.dropWhile (· != '.')).drop 1 with
  | [] => (name, none)
  | before => (String.ofList before.reverse, some (String.ofList after))

/-- The last name without its extension. -/
def stem? (p : Path) : Option String :=
  p.fileName?.map fun name => (splitName name).1

/-- The part of the last name behind its last dot. -/
def extension? (p : Path) : Option String :=
  p.fileName?.bind fun name => (splitName name).2

/-- The path of a name inside the directory `p`. -/
def join (p : Path) (name : String) : Path :=
  if p.isEmpty || p.toList.getLast? == some '/' then p ++ name else p ++ "/" ++ name

/-- The path of the directory that the last name stands in. -/
def parent (p : Path) : Path :=
  let above := significant ((significant p.parts).dropLast)
  if above == [""] then "/" else "/".intercalate above

/-- The path with another last name. A path without a last name gets
one. -/
def withFileName (p : Path) (name : String) : Path :=
  if p.fileName?.isSome then p.parent.join name else p.join name

/-- The path, which ends with its last name, with another extension of
that name. -/
def withExtension (p : Path) (ext : String) : Path :=
  match p.fileName? with
  | none => p
  | some name =>
      let kept := p.length - (name.length - (splitName name).1.length)
      String.ofList (p.toList.take kept) ++ "." ++ ext

end Path

end HackComputer.Files
