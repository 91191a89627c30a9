/-!
# `HackComputer.Yaml.Cursor`: a place in a YAML text

Indentation means something in YAML, so reading keeps track of the line
and the column. A `Cursor` is the text that is left together with its
place.
-/

set_option autoImplicit false

namespace HackComputer.Yaml

/-! ### Characters -/

/-- The characters that a YAML text may hold. -/
def isAllowed (c : Char) : Bool :=
  let n := c.toNat
  n == 0x09 || n == 0x0A || n == 0x0D || (0x20 ≤ n && n ≤ 0x7E) || n == 0x85
    || (0xA0 ≤ n && n ≤ 0xD7FF) || (0xE000 ≤ n && n ≤ 0xFFFD) || 0x10000 ≤ n

/-- The characters that end a line. -/
def isBreak (c : Char) : Bool :=
  c == '\n' || c == '\r' || c == '\u0085' || c == '\u2028' || c == '\u2029'

/-- The mark that tells the order of bytes. It may stand at the start of
a line and counts for nothing there. -/
def byteOrderMark : Char := '\ufeff'

/-- A space or a tab. -/
def isSpace (c : Char) : Bool :=
  c == ' ' || c == '\t'

/-- The text is over, or goes on with a space, a tab or a line end. -/
def endsWord (cs : List Char) : Bool :=
  match cs with
  | [] => true
  | c :: _ => isSpace c || isBreak c

/-- The text starts with a line that separates documents. -/
def startsWithMarker (marker cs : List Char) : Bool :=
  marker.isPrefixOf cs && endsWord (cs.drop marker.length)

/-- The line that starts a document. -/
def documentStart : List Char := ['-', '-', '-']

/-- The line that ends a document. -/
def documentEnd : List Char := ['.', '.', '.']

/-! ### Places -/

/-- The text that is left, and where it starts. -/
structure Cursor where
  rest : List Char
  /-- The number of bytes before it. -/
  index : Nat := 0
  /-- The number of lines before it. -/
  line : Nat := 0
  /-- The number of characters before it on its line. -/
  column : Nat := 0
  deriving DecidableEq, Repr

namespace Cursor

/-- The number of bytes of a text. -/
def byteCount (cs : List Char) : Nat :=
  cs.foldl (fun n ch => n + ch.utf8Size) 0

/-- The place `n` characters further on the same line. -/
def advance (c : Cursor) (n : Nat) : Cursor :=
  { c with
    rest := c.rest.drop n
    index := c.index + byteCount (c.rest.take n)
    column := c.column + n }

/-- The start of the next line, for a place at a line end; together with
the line end as it counts in a text. A carriage return with a line feed
behind it is one line end. -/
def nextLine (c : Cursor) : List Char × Cursor :=
  match c.rest with
  | [] => ([], c)
  | '\r' :: '\n' :: rest => (['\n'], ⟨rest, c.index + 2, c.line + 1, 0⟩)
  | b :: rest =>
      let kept := if b == '\u2028' || b == '\u2029' then b else '\n'
      ([kept], ⟨rest, c.index + b.utf8Size, c.line + 1, 0⟩)

/-- The next character satisfies `p`. -/
def at? (c : Cursor) (p : Char → Bool) : Bool :=
  c.rest.head?.any p

/-- A line that separates documents starts here. -/
def atDocumentMarker (c : Cursor) : Bool :=
  c.column == 0
    && (startsWithMarker documentStart c.rest || startsWithMarker documentEnd c.rest)

/-- The place behind a byte order mark at the start of a line. The mark
takes a column like any other character. -/
def skipByteOrderMark (c : Cursor) : Cursor :=
  if c.column == 0 && c.at? (· == byteOrderMark) then c.advance 1 else c

/-- The place behind the spaces and tabs that follow. -/
def skipSpaces (c : Cursor) : Cursor :=
  c.advance (c.rest.takeWhile isSpace).length

end Cursor

end HackComputer.Yaml
