import HackComputer.Yaml.Scalar

/-!
# `HackComputer.Yaml.Token`: the marks and scalars of a YAML text

A YAML text is cut into tokens. Indentation becomes tokens as well: a
deeper column opens a block, and a line further left closes it. What a
mapping key is shows only at the colon behind it, so the tokens that
announce a key are inserted before it then.

In the functions below `fuel` stands for a bound on the number of
characters that are left; every token takes at least one.

Read are block and bracketed sequences and mappings, comments, the three
kinds of scalars that stand on their own, and document markers. Texts
with anchors, tags, directives or block scalars are refused.
-/

set_option autoImplicit false

namespace HackComputer.Yaml

/-- A token of a YAML text. -/
inductive Token where
  | documentStart
  | documentEnd
  | blockSequence
  | blockMapping
  | blockEnd
  | openBracket
  | closeBracket
  | openBrace
  | closeBrace
  | comma
  | dash
  | key
  | value
  | scalar (s : Scalar)
  deriving DecidableEq, Repr

namespace Token

/-- Something that may turn out to be a key when a colon follows. -/
structure Candidate where
  /-- The number of tokens before it. -/
  position : Nat
  /-- Where it starts. -/
  start : Cursor
  /-- Its column leaves it no choice but to be a key. -/
  required : Bool

/-- How far cutting a text has come. -/
structure Scan where
  cursor : Cursor
  tokens : Array Token := #[]
  /-- The column of the innermost block, if there is one. -/
  indent : Option Nat := none
  /-- The columns of the blocks around it. -/
  outer : List (Option Nat) := []
  /-- For every bracket that is open, innermost first, the candidate
  inside it; the last one is outside all brackets. -/
  candidates : List (Option Candidate) := [none]
  /-- A key may start here. -/
  keyAllowed : Bool := true

namespace Scan

/-- The scan is inside brackets. -/
def inFlow (s : Scan) : Bool :=
  match s.candidates with
  | _ :: _ :: _ => true
  | _ => false

/-- The column that a further line of a scalar has to reach. -/
def hanging (s : Scan) : Nat :=
  s.indent.elim 0 (· + 1)

/-- The scan with one more token. -/
def emit (s : Scan) (t : Token) : Scan :=
  { s with tokens := s.tokens.push t }

/-- The scan behind the next `n` characters, with one more token. -/
def take (s : Scan) (n : Nat) (t : Token) : Scan :=
  { s.emit t with cursor := s.cursor.advance n }

/-! ### Keys -/

/-- Gives up the innermost candidate. One that has to be a key cannot be
given up. -/
def dropCandidate (s : Scan) : Option Scan :=
  match s.candidates with
  | [] => some s
  | c :: rest =>
      if c.any (·.required) then none else some { s with candidates := none :: rest }

/-- Makes what starts here a candidate, if a key may start here. -/
def saveCandidate (s : Scan) : Option Scan :=
  if s.keyAllowed then do
    let s ← s.dropCandidate
    let required := !s.inFlow && s.indent == some s.cursor.column
    let candidate : Candidate := ⟨s.tokens.size, s.cursor, required⟩
    return { s with candidates := some candidate :: s.candidates.drop 1 }
  else some s

/-- A key stands on one line and is at most 1024 bytes long. -/
def isStale (here : Cursor) (c : Candidate) : Bool :=
  c.start.line < here.line || c.start.index + 1024 < here.index

/-- Gives up the innermost candidate if it is too far away. Those
outside it wait until the brackets between are closed. -/
def dropStale (s : Scan) : Option Scan :=
  if s.candidates.head?.join.any (isStale s.cursor) then s.dropCandidate else some s

/-! ### Blocks -/

/-- Opens a block at a column, unless one is open there already. The
token goes to the given position. -/
def openBlock (s : Scan) (column : Nat) (position : Nat) (t : Token) : Scan :=
  if s.inFlow then s
  else if s.indent.all (· < column) then
    { s with
      outer := s.indent :: s.outer
      indent := some column
      tokens := s.tokens.insertIdxIfInBounds position t }
  else s

/-- Closes the blocks right of a column, or all of them. The list of the
outer blocks bounds their number. -/
def closeBlocksFrom (column : Option Nat) : List (Option Nat) → Scan → Scan
  | [], s => s
  | _ :: rest, s =>
      match s.indent with
      | none => s
      | some i =>
          if column.all (· < i) then
            closeBlocksFrom column rest
              { s.emit .blockEnd with indent := s.outer.head?.join, outer := s.outer.drop 1 }
          else s

/-- Closes the blocks right of a column, or all of them. Brackets keep
blocks open. -/
def closeBlocks (s : Scan) (column : Option Nat) : Scan :=
  if s.inFlow then s else closeBlocksFrom column s.outer s

/-! ### Blanks -/

/-- Passes over blanks, comments and line ends, and over a byte order
mark at the start of each line. A tab counts as a blank only where no key
may start. A new line allows a key again, outside brackets. -/
def skipBlanks : Nat → Scan → Scan
  | 0, s => s
  | fuel + 1, s =>
      let isBlank (c : Char) := c == ' ' || ((s.inFlow || !s.keyAllowed) && c == '\t')
      let c := s.cursor.skipByteOrderMark
      let c := c.advance (c.rest.takeWhile isBlank).length
      let c := if c.at? (· == '#') then
          c.advance (c.rest.takeWhile (!isBreak ·)).length
        else c
      if c.at? isBreak then
        skipBlanks fuel
          { s with cursor := c.nextLine.2, keyAllowed := s.keyAllowed || !s.inFlow }
      else { s with cursor := c }

/-! ### Tokens -/

/-- A line that separates documents: it closes all blocks. -/
def marker (s : Scan) (t : Token) : Option Scan := do
  let s := s.closeBlocks none
  let s ← s.dropCandidate
  return { s.take 3 t with keyAllowed := false }

/-- An opening bracket, which may itself start a key. -/
def openFlow (s : Scan) (t : Token) : Option Scan := do
  let s ← s.saveCandidate
  return { s.take 1 t with candidates := none :: s.candidates, keyAllowed := true }

/-- A closing bracket. -/
def closeFlow (s : Scan) (t : Token) : Option Scan := do
  let s ← s.dropCandidate
  let candidates := if s.inFlow then s.candidates.drop 1 else s.candidates
  return { s.take 1 t with candidates := candidates, keyAllowed := false }

/-- A comma between the parts of a bracketed collection. -/
def comma (s : Scan) : Option Scan := do
  let s ← s.dropCandidate
  return { s.take 1 .comma with keyAllowed := true }

/-- The dash of a sequence entry. -/
def dash (s : Scan) : Option Scan := do
  if !s.inFlow && !s.keyAllowed then none
  else
    let s := s.openBlock s.cursor.column s.tokens.size .blockSequence
    let s ← s.dropCandidate
    return { s.take 1 .dash with keyAllowed := true }

/-- The question mark of a key. -/
def explicitKey (s : Scan) : Option Scan := do
  if !s.inFlow && !s.keyAllowed then none
  else
    let s := s.openBlock s.cursor.column s.tokens.size .blockMapping
    let s ← s.dropCandidate
    return { s.take 1 .key with keyAllowed := !s.inFlow }

/-- The colon of a value. It turns the innermost candidate into a key;
without one, the value belongs to a key with a question mark. -/
def value (s : Scan) : Option Scan :=
  match s.candidates with
  | some c :: rest =>
      let s := { s with tokens := s.tokens.insertIdxIfInBounds c.position .key }
      let s := s.openBlock c.start.column c.position .blockMapping
      some { s.take 1 .value with candidates := none :: rest, keyAllowed := false }
  | _ =>
      if s.inFlow then some { s.take 1 .value with keyAllowed := false }
      else if !s.keyAllowed then none
      else
        let s := s.openBlock s.cursor.column s.tokens.size .blockMapping
        some { s.take 1 .value with keyAllowed := true }

/-- A scalar in quotes. -/
def quoted (fuel : Nat) (s : Scan) : Option Scan := do
  let s ← s.saveCandidate
  let (text, cursor) ← Scalar.quoted? fuel s.cursor
  return { s.emit (.scalar text) with cursor := cursor, keyAllowed := false }

/-- A scalar without quotes. A key may start behind it only on a further
line. -/
def plain (fuel : Nat) (s : Scan) : Option Scan := do
  let s ← s.saveCandidate
  let (text, broken, cursor) ← Scalar.plain? fuel s.inFlow s.hanging s.cursor
  return { s.emit (.scalar text) with cursor := cursor, keyAllowed := broken }

/-- The characters that a plain scalar cannot start with. -/
def isIndicator (c : Char) : Bool :=
  "-?:,[]#&*!|>'\"%@`".toList.contains c || c == '{' || c == '}'

/-- Reads one token, which is not the end of the text. -/
def token (fuel : Nat) (s : Scan) : Option Scan :=
  let rest := s.cursor.rest
  if s.cursor.column == 0 && startsWithMarker Yaml.documentStart rest then s.marker .documentStart
  else if s.cursor.column == 0 && startsWithMarker Yaml.documentEnd rest then
    s.marker .documentEnd
  else match rest with
    | [] => none
    | '[' :: _ => s.openFlow .openBracket
    | '{' :: _ => s.openFlow .openBrace
    | ']' :: _ => s.closeFlow .closeBracket
    | '}' :: _ => s.closeFlow .closeBrace
    | ',' :: _ => s.comma
    | '\'' :: _ | '"' :: _ => s.quoted fuel
    | '-' :: next => if endsWord next then s.dash else s.plain fuel
    | '?' :: next => if s.inFlow || endsWord next then s.explicitKey else s.plain fuel
    | ':' :: next => if s.inFlow || endsWord next then s.value else s.plain fuel
    | c :: _ => if isIndicator c || isSpace c then none else s.plain fuel

/-- Reads all tokens. -/
def run : Nat → Scan → Option Scan
  | 0, _ => none
  | fuel + 1, s => do
      let s ← (s.skipBlanks fuel).dropStale
      let s := s.closeBlocks (some s.cursor.column)
      if s.cursor.rest.isEmpty then (s.closeBlocks none).dropCandidate
      else
        let s ← s.token fuel
        run fuel s

end Scan

/-- The tokens of a text, if it can be cut into tokens. -/
def scan? (cs : List Char) : Option (List Token) := do
  if !cs.all isAllowed then none
  else
    let s ← Scan.run (cs.length + 2) { cursor := { rest := cs } }
    return s.tokens.toList

end Token

end HackComputer.Yaml
