import HackComputer.Yaml.Cursor

/-!
# `HackComputer.Yaml.Scalar`: scalars in a YAML text

A scalar is written plainly, in single quotes or in double quotes. It
may run over several lines, which are folded: a single line end counts
as a space, and of more than one all but the first are kept. Texts are
collected backwards, and `fuel` stands for a bound on the number of
characters that are left.

* `gap?`: the blanks and line ends inside a scalar, folded.
* `quoted?`: a scalar in quotes.
* `plain?`: a scalar without quotes.
-/

set_option autoImplicit false

namespace HackComputer.Yaml

/-- A scalar. Quotes matter: only an unquoted scalar can be a number, a
truth value or nothing. -/
structure Scalar where
  text : String
  quoted : Bool
  deriving DecidableEq, Repr

namespace Scalar

/-- The scalar of a value that is not written at all. -/
def nothing : Scalar := ⟨"", false⟩

/-! ### Folding -/

/-- What stands between two words of a scalar. -/
structure Gap where
  /-- What the gap counts as in the scalar. -/
  text : List Char := []
  /-- There is a line end in the gap. -/
  broken : Bool := false

/-- Passes over spaces and further line ends, and collects the latter.
A tab before column `indent` is refused. -/
def moreBreaks? (indent : Nat) : Nat → List Char → Cursor → Option (List Char × Cursor)
  | 0, breaks, c => some (breaks.reverse, c)
  | fuel + 1, breaks, c =>
      if c.at? isSpace then
        if c.at? (· == '\t') && c.column < indent then none
        else moreBreaks? indent fuel breaks (c.advance 1)
      else if c.at? isBreak then
        let (b, c) := c.nextLine
        moreBreaks? indent fuel (b ++ breaks) c
      else some (breaks.reverse, c)

/-- Folds a line end and the further ones behind it. -/
def folded (first more : List Char) : List Char :=
  if first == ['\n'] then (if more.isEmpty then [' '] else more) else first ++ more

/-- The gap at a place, folded, and the place behind it. With `pending`
the line end before the place belongs to the gap already. -/
def gap? (fuel indent : Nat) (pending : Bool) (c : Cursor) : Option (Gap × Cursor) :=
  if pending then do
    let (more, c) ← moreBreaks? indent fuel [] c
    return (⟨more, true⟩, c)
  else
    let spaces := c.rest.takeWhile isSpace
    let c := c.skipSpaces
    if c.at? isBreak then do
      let (first, c) := c.nextLine
      let (more, c) ← moreBreaks? indent fuel [] c
      return (⟨folded first more, true⟩, c)
    else some (⟨spaces, false⟩, c)

/-! ### Quoted scalars -/

/-- The value of hexadecimal digits. -/
def hexValue? (cs : List Char) : Option Nat :=
  cs.foldlM (fun n c =>
    if c.isDigit then some (16 * n + (c.toNat - '0'.toNat))
    else if 'a' ≤ c && c ≤ 'f' then some (16 * n + (c.toNat - 'a'.toNat + 10))
    else if 'A' ≤ c && c ≤ 'F' then some (16 * n + (c.toNat - 'A'.toNat + 10))
    else none) 0

/-- The character that a backslash and the letter behind it stand
for. -/
def escaped? (c : Char) : Option Char :=
  match c with
  | '0' => some '\x00'
  | 'a' => some '\x07'
  | 'b' => some '\x08'
  | 't' | '\t' => some '\t'
  | 'n' => some '\n'
  | 'v' => some '\x0b'
  | 'f' => some '\x0c'
  | 'r' => some '\r'
  | 'e' => some '\x1b'
  | ' ' => some ' '
  | '"' => some '"'
  | '/' => some '/'
  | '\\' => some '\\'
  | 'N' => some '\u0085'
  | '_' => some '\u00a0'
  | 'L' => some '\u2028'
  | 'P' => some '\u2029'
  | _ => none

/-- How many hexadecimal digits follow a backslash and this letter. -/
def escapeWidth? (c : Char) : Option Nat :=
  match c with
  | 'x' => some 2
  | 'u' => some 4
  | 'U' => some 8
  | _ => none

/-- The character that an escape stands for and the number of characters
of the escape; `cs` is what follows the backslash. -/
def escape? (cs : List Char) : Option (Char × Nat) :=
  match cs with
  | [] => none
  | c :: rest =>
      match escapeWidth? c with
      | none => (escaped? c).map (·, 2)
      | some width => do
          let digits := rest.take width
          if digits.length < width then none
          else
            let n ← hexValue? digits
            if n.isValidChar then some (Char.ofNat n, width + 2) else none

/-- The text of a quoted scalar up to the end of a word, backwards, and
the place behind it. `broken` says that an escaped line end finished the
word. -/
structure Word where
  text : List Char
  broken : Bool
  next : Cursor

/-- Reads a word of a quoted scalar up to a blank, a line end or the
closing quote. -/
def quotedWord? (double : Bool) : Nat → List Char → Cursor → Option Word
  | 0, text, c => some ⟨text, false, c⟩
  | fuel + 1, text, c =>
      match c.rest with
      | [] => some ⟨text, false, c⟩
      | '\'' :: rest =>
          if double then quotedWord? double fuel ('\'' :: text) (c.advance 1)
          else if rest.head? == some '\'' then
            quotedWord? double fuel ('\'' :: text) (c.advance 2)
          else some ⟨text, false, c⟩
      | '"' :: _ =>
          if double then some ⟨text, false, c⟩
          else quotedWord? double fuel ('"' :: text) (c.advance 1)
      | '\\' :: rest =>
          if !double then quotedWord? double fuel ('\\' :: text) (c.advance 1)
          else if rest.head?.any isBreak then
            some ⟨text, true, (c.advance 1).nextLine.2⟩
          else match escape? rest with
            | none => none
            | some (ch, width) => quotedWord? double fuel (ch :: text) (c.advance width)
      | ch :: _ =>
          if isSpace ch || isBreak ch then some ⟨text, false, c⟩
          else quotedWord? double fuel (ch :: text) (c.advance 1)

/-- Reads the words and gaps of a quoted scalar behind its opening
quote. -/
def quotedFrom? (double : Bool) : Nat → List Char → Cursor → Option (List Char × Cursor)
  | 0, _, _ => none
  | fuel + 1, text, c =>
      if c.atDocumentMarker || c.rest.isEmpty then none
      else do
        let word ← quotedWord? double fuel text c
        if word.next.at? (· == if double then '"' else '\'') then
          return (word.text, word.next.advance 1)
        else
          let (gap, c) ← gap? fuel 0 word.broken word.next
          quotedFrom? double fuel (gap.text.reverse ++ word.text) c

/-- Reads a quoted scalar at its opening quote. -/
def quoted? (fuel : Nat) (c : Cursor) : Option (Scalar × Cursor) := do
  let double := c.at? (· == '"')
  let (text, c) ← quotedFrom? double fuel [] (c.advance 1)
  return (⟨String.ofList text.reverse, true⟩, c)

/-! ### Plain scalars -/

/-- The characters that structure a collection in brackets. -/
def isFlowMark (c : Char) : Bool :=
  [',', '[', ']', '{', '}'].contains c

/-- A word of a plain scalar: it ends before a blank, before a colon with
a blank behind it, and inside brackets before a structuring character.
Inside brackets a colon right before such a character is refused. -/
def plainWord? (flow : Bool) : List Char → Option (List Char)
  | [] => some []
  | c :: rest =>
      if isSpace c || isBreak c then some []
      else if flow && c == ':' && rest.head?.any (fun d => isFlowMark d || d == '?') then none
      else if (c == ':' && endsWord rest) || (flow && isFlowMark c) then some []
      else (plainWord? flow rest).map (c :: ·)

/-- Reads the words and gaps of a plain scalar; `gap` is the gap before
the next word. Yields the text, whether a line end follows it, and the
place behind it. -/
def plainFrom? (flow : Bool) (indent : Nat) :
    Nat → List Char → Gap → Cursor → Option (List Char × Bool × Cursor)
  | 0, text, gap, c => some (text, gap.broken, c)
  | fuel + 1, text, gap, c =>
      if c.atDocumentMarker || c.at? (· == '#') then some (text, gap.broken, c)
      else do
        let word ← plainWord? flow c.rest
        let text :=
          if word.isEmpty then text else word.reverse ++ (gap.text.reverse ++ text)
        let c := c.advance word.length
        let broken := word.isEmpty && gap.broken
        if !c.at? (fun ch => isSpace ch || isBreak ch) then return (text, broken, c)
        else
          let (gap, c) ← gap? fuel indent false c
          if !flow && c.column < indent then return (text, gap.broken, c)
          else plainFrom? flow indent fuel text gap c

/-- Reads a plain scalar whose further lines start at column `indent` or
behind it. Yields also whether a line end follows it. -/
def plain? (fuel : Nat) (flow : Bool) (indent : Nat) (c : Cursor) :
    Option (Scalar × Bool × Cursor) := do
  let (text, broken, c) ← plainFrom? flow indent fuel [] {} c
  return (⟨String.ofList text.reverse, false⟩, broken, c)

end Scalar

end HackComputer.Yaml
