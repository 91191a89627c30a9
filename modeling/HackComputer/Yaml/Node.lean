import HackComputer.Yaml.Token

/-!
# `HackComputer.Yaml.Node`: YAML documents as trees

A document is a scalar, a sequence or a mapping. The parts of a mapping
keep their order, and equal keys are all kept. What is not written at
all is the empty unquoted scalar.

`Node.document?` reads a text that holds at most one document.
-/

set_option autoImplicit false

namespace HackComputer.Yaml

/-- A YAML value. -/
inductive Node where
  | scalar (s : Scalar)
  | sequence (items : List Node)
  | mapping (pairs : List (Node × Node))
  deriving Repr, Inhabited

namespace Node

/-- A value that is not written at all. -/
def nothing : Node := .scalar .nothing

/-- The next token is one of the given ones. -/
def startsWith (ts : List Token) (expected : List Token) : Bool :=
  ts.head?.any expected.contains

/-- The value at the start of `ts`, or nothing if one of the tokens in
`ends` is there instead. -/
def orNothing (ends : List Token) (parse : List Token → Option (Node × List Token))
    (ts : List Token) : Option (Node × List Token) :=
  if startsWith ts ends then some (nothing, ts) else parse ts

/-- The tokens behind the comma that every part but the first needs. -/
def afterComma (first : Bool) (ts : List Token) : Option (List Token) :=
  if first then some ts
  else match ts with
    | .comma :: ts => some ts
    | _ => none

mutual

/-- Reads a value. Inside brackets there are no blocks; a value of a
block mapping may be a sequence whose dashes stand in the mapping's own
column. `fuel` bounds the depth and the number of parts. -/
def parse? (fuel : Nat) (block hanging : Bool) (ts : List Token) : Option (Node × List Token) :=
  match fuel with
  | 0 => none
  | fuel + 1 =>
      match ts with
      | .scalar s :: ts => some (.scalar s, ts)
      | .openBracket :: ts => bracketed? fuel true [] ts
      | .openBrace :: ts => braced? fuel true [] ts
      | .dash :: _ => if hanging then dashes? fuel true [] ts else none
      | .blockSequence :: ts => if block then dashes? fuel false [] ts else none
      | .blockMapping :: ts => if block then pairs? fuel [] ts else none
      | _ => none

/-- Reads the entries of a block sequence. With `hanging` the sequence
has no block of its own, and ends where no dash follows. -/
def dashes? (fuel : Nat) (hanging : Bool) (items : List Node) (ts : List Token) :
    Option (Node × List Token) :=
  match fuel with
  | 0 => none
  | fuel + 1 =>
      match ts with
      | .dash :: ts => do
          let ends := if hanging then [.dash, .key, .value, .blockEnd] else [.dash, .blockEnd]
          let (item, ts) ← orNothing ends (parse? fuel true false) ts
          dashes? fuel hanging (item :: items) ts
      | _ =>
          if hanging then some (.sequence items.reverse, ts)
          else match ts with
            | .blockEnd :: ts => some (.sequence items.reverse, ts)
            | _ => none

/-- Reads the pairs of a block mapping. -/
def pairs? (fuel : Nat) (pairs : List (Node × Node)) (ts : List Token) :
    Option (Node × List Token) :=
  match fuel with
  | 0 => none
  | fuel + 1 =>
      match ts with
      | .key :: ts => do
          let ends := [.key, .value, .blockEnd]
          let (k, ts) ← orNothing ends (parse? fuel true true) ts
          match ts with
          | .value :: ts =>
              let (v, ts) ← orNothing ends (parse? fuel true true) ts
              pairs? fuel ((k, v) :: pairs) ts
          | _ => pairs? fuel ((k, nothing) :: pairs) ts
      | .blockEnd :: ts => some (.mapping pairs.reverse, ts)
      | _ => none

/-- Reads the parts of a sequence in brackets. A part may be a mapping
with one pair, written without braces. -/
def bracketed? (fuel : Nat) (first : Bool) (items : List Node) (ts : List Token) :
    Option (Node × List Token) :=
  match fuel with
  | 0 => none
  | fuel + 1 =>
      match ts with
      | .closeBracket :: ts => some (.sequence items.reverse, ts)
      | _ => do
          let ts ← afterComma first ts
          match ts with
          | .closeBracket :: ts => some (.sequence items.reverse, ts)
          | .key :: ts =>
              let (pair, ts) ← singlePair? fuel ts
              bracketed? fuel false (.mapping [pair] :: items) ts
          | ts =>
              let (item, ts) ← parse? fuel false false ts
              bracketed? fuel false (item :: items) ts

/-- Reads the pair of a mapping without braces inside brackets, behind
the start of its key. -/
def singlePair? (fuel : Nat) (ts : List Token) : Option ((Node × Node) × List Token) :=
  match fuel with
  | 0 => none
  | fuel + 1 => do
      let (k, ts) ← if startsWith ts [.value, .comma, .closeBracket] then
          some (nothing, ts.drop 1)
        else parse? fuel false false ts
      match ts with
      | .value :: ts =>
          let (v, ts) ← orNothing [.comma, .closeBracket] (parse? fuel false false) ts
          return ((k, v), ts)
      | ts => return ((k, nothing), ts)

/-- Reads the pairs of a mapping in braces. A part without a colon is a
key without a value. -/
def braced? (fuel : Nat) (first : Bool) (pairs : List (Node × Node)) (ts : List Token) :
    Option (Node × List Token) :=
  match fuel with
  | 0 => none
  | fuel + 1 =>
      match ts with
      | .closeBrace :: ts => some (.mapping pairs.reverse, ts)
      | _ => do
          let ts ← afterComma first ts
          match ts with
          | .closeBrace :: ts => some (.mapping pairs.reverse, ts)
          | .key :: ts =>
              let ends := [.comma, .closeBrace]
              let (k, ts) ← orNothing (.value :: ends) (parse? fuel false false) ts
              match ts with
              | .value :: ts =>
                  let (v, ts) ← orNothing ends (parse? fuel false false) ts
                  braced? fuel false ((k, v) :: pairs) ts
              | ts => braced? fuel false ((k, nothing) :: pairs) ts
          | ts =>
              let (k, ts) ← parse? fuel false false ts
              braced? fuel false ((k, nothing) :: pairs) ts

end

/-- Nothing but document ends is left. -/
def isOver (ts : List Token) : Bool :=
  ts.all (· == .documentEnd)

/-- Reads the tokens of at most one document. -/
def ofTokens? (ts : List Token) : Option Node := do
  let fuel := 2 * ts.length + 2
  let (node, ts) ← match ts with
    | [] => some (nothing, [])
    | .documentStart :: ts =>
        if ts.isEmpty || startsWith ts [.documentStart, .documentEnd] then some (nothing, ts)
        else parse? fuel true false ts
    | ts => parse? fuel true false ts
  if isOver ts then some node else none

/-- The document of a text, if it can be read and is the only one. A
text without a document holds nothing. -/
def document? (cs : List Char) : Option Node :=
  Token.scan? cs >>= ofTokens?

end Node

end HackComputer.Yaml
