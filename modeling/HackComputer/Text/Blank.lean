/-!
# `HackComputer.Text.Blank`: blanks, words and lines

Every text format of this library is read line by line, and inside a
line blanks only separate. Texts are handled as lists of characters, so
that each operation is a fold or a filter and has its laws from the list
library.

* `isBlank`: the characters that separate words.
* `trim`, `squeeze`, `words`: three ways to be rid of blanks.
* `pieces`, `lines`: a text cut at its line ends.
* `uncommented`: a line up to its `//` comment.
* `splitOnce`: a text cut at the first occurrence of a character.
-/

set_option autoImplicit false

namespace HackComputer.Text

/-- The characters that separate words: the 25 characters with the
Unicode property `White_Space`. -/
def isBlank (c : Char) : Bool :=
  let n := c.toNat
  (0x09 ≤ n && n ≤ 0x0D) || n == 0x20 || n == 0x85 || n == 0xA0 || n == 0x1680
    || (0x2000 ≤ n && n ≤ 0x200A) || n == 0x2028 || n == 0x2029 || n == 0x202F
    || n == 0x205F || n == 0x3000

/-- The text without the blanks at its two ends. -/
def trim (cs : List Char) : List Char :=
  ((cs.dropWhile isBlank).reverse.dropWhile isBlank).reverse

/-- The text without any of its blanks. -/
def squeeze (cs : List Char) : List Char :=
  cs.filter (!isBlank ·)

/-- The fields between the characters that satisfy `p`: one more than
there are such characters, some of them possibly empty. -/
def fields (p : Char → Bool) (cs : List Char) : List (List Char) :=
  cs.foldr (fun c fs => if p c then [] :: fs else fs.modifyHead (c :: ·)) [[]]

/-- The longest runs of characters that are not blank. -/
def words (cs : List Char) : List (List Char) :=
  (fields isBlank cs).filter (!·.isEmpty)

/-- The words of a text with one space between neighbours. -/
def normalized (cs : List Char) : List Char :=
  [' '].intercalate (words cs)

/-! ### Lines -/

/-- The text cut after every line feed, which stays at the end of its
piece. Only the last piece can be without one. -/
def pieces (cs : List Char) : List (List Char) :=
  cs.foldr
    (fun c ps =>
      if c = '\n' then ['\n'] :: ps
      else match ps with
        | [] => [[c]]
        | p :: ps => (c :: p) :: ps)
    []

/-- A piece without its line end, which is a line feed with at most one
carriage return before it. A piece without a line feed has no line end. -/
def chomp (p : List Char) : List Char :=
  if p.getLast? = some '\n' then
    let body := p.dropLast
    if body.getLast? = some '\r' then body.dropLast else body
  else p

/-- The lines of a text. A line feed at the very end starts no further
line. -/
def lines (cs : List Char) : List (List Char) :=
  (pieces cs).map chomp

/-- The lines of a text with their row numbers, counted from one. -/
def numberedLines (cs : List Char) : List (List Char × Nat) :=
  (lines cs).zipIdx 1

/-- An empty text has no pieces. -/
@[simp] theorem pieces_nil : pieces [] = [] := rfl

/-! ### Comments and separators -/

/-- The line up to its comment, which starts at the first `//`: the
characters that do not begin a pair of slashes, up to the first that
does. -/
def uncommented (cs : List Char) : List Char :=
  ((cs.zip (cs.drop 1 ++ [' '])).takeWhile fun (c, next) => !(c == '/' && next == '/')).map
    Prod.fst

/-- An empty line has no comment. -/
@[simp] theorem uncommented_nil : uncommented [] = [] := rfl

/-- A line is cut at its first character only if that one and the next
are slashes. -/
theorem uncommented_cons (c : Char) (cs : List Char) :
    uncommented (c :: cs)
      = if c = '/' ∧ cs.head? = some '/' then [] else c :: uncommented cs := by
  cases cs with
  | nil => by_cases h : c = '/' <;> simp [uncommented]
  | cons d ds =>
      by_cases hc : c = '/' <;> by_cases hd : d = '/' <;>
        simp [uncommented, hc, hd]

/-- The text before and after the first `sep`, if there is one. -/
def splitOnce (sep : Char) (cs : List Char) : Option (List Char × List Char) :=
  match cs.dropWhile (· != sep) with
  | [] => none
  | _ :: rest => some (cs.takeWhile (· != sep), rest)

end HackComputer.Text
