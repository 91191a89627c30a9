import HackComputer.Text.Numeral
import HackComputer.Yaml.Node

/-!
# `HackComputer.Yaml.Value`: what an unquoted scalar means

An unquoted scalar may be nothing, a truth value, an integer or a
fraction; every other one is a text, and so is every quoted one.

* Integers are decimal, or hexadecimal, octal or binary behind `0x`,
  `0o` or `0b`, and have up to 128 bits. A decimal numeral with a leading
  zero is a text.
* Fractions are finite decimals. A decimal that is too large for a
  double-precision number is a text.
-/

set_option autoImplicit false

namespace HackComputer.Yaml

/-! ### Integers -/

/-- The value of a digit in some base up to sixteen. -/
def digit? (c : Char) : Option Nat :=
  Scalar.hexValue? [c]

/-- The value of a nonempty run of digits in a base. -/
def digits? (base : Nat) (cs : List Char) : Option Nat :=
  if cs.isEmpty then none
  else cs.foldlM (fun n c => do
    let d ← digit? c
    if d < base then some (base * n + d) else none) 0

/-- Decimal digits with a leading zero that is not the whole numeral, a
sign in front or not. -/
def hasLeadingZero (cs : List Char) : Bool :=
  let digits := match cs with
    | '-' :: rest | '+' :: rest => rest
    | _ => cs
  match digits with
  | '0' :: c :: rest => (c :: rest).all Char.isDigit
  | _ => false

/-- The value of an integer without a sign, in any of the four bases. -/
def magnitude? (cs : List Char) : Option Nat :=
  match cs with
  | '0' :: 'x' :: rest => digits? 16 rest
  | '0' :: 'o' :: rest => digits? 8 rest
  | '0' :: 'b' :: rest => digits? 2 rest
  | _ => if hasLeadingZero cs then none else digits? 10 cs

/-- The value of an integer with at most a plus sign in front. -/
def unsigned? (cs : List Char) : Option Nat :=
  match cs with
  | '+' :: rest => magnitude? rest
  | _ => magnitude? cs

/-- The value of an integer that has up to 128 bits. -/
def integer? (cs : List Char) : Option Int :=
  match cs with
  | '-' :: rest => (magnitude? rest).bind fun n => if n ≤ Nat.pow 2 127 then some (-n) else none
  | _ => (unsigned? cs).bind fun n => if n < Nat.pow 2 128 then some n else none

/-! ### Fractions -/

/-- The exponent at the end of a decimal: nothing, or the letter `e` and
an integer. -/
def exponent? (cs : List Char) : Option Int :=
  match cs with
  | [] => some 0
  | e :: rest =>
      if e == 'e' || e == 'E' then
        match rest with
        | '-' :: ds => (Text.decimal? ds).map fun n => -n
        | '+' :: ds => (Text.decimal? ds).map fun n => n
        | ds => (Text.decimal? ds).map fun n => n
      else none

/-- The decimal `m * 10 ^ e` is small enough for a double-precision
number: rounding to the nearest one stays below `2 ^ 1024`. -/
def isFinite (m : Nat) (e : Int) : Bool :=
  if m == 0 then true
  else
    let magnitude := (Nat.toDigits 10 m).length + e
    if magnitude < 300 then true
    else if magnitude > 310 then false
    else
      let limit := Nat.pow 2 1024 - Nat.pow 2 970
      let scale := Nat.pow 10 e.natAbs
      if e < 0 then m < limit * scale else m * scale < limit

/-- A decimal without a sign: digits with at most one point among them,
and then perhaps an exponent. -/
def isDecimal (cs : List Char) : Bool :=
  let whole := cs.takeWhile Char.isDigit
  let rest := cs.dropWhile Char.isDigit
  let (fraction, rest) := match rest with
    | '.' :: rest => (rest.takeWhile Char.isDigit, rest.dropWhile Char.isDigit)
    | _ => ([], rest)
  match Text.decimal? (whole ++ fraction), exponent? rest with
  | some m, some e => isFinite m (e - fraction.length)
  | _, _ => false

/-- The text of a fraction, or of one of the values that are not
finite. -/
def isFraction (cs : List Char) : Bool :=
  match cs with
  | '+' :: rest => isInfinite rest || isDecimal rest
  | '-' :: rest => isInfinite rest || isDecimal rest
  | _ => isInfinite cs || [".nan", ".NaN", ".NAN"].contains (String.ofList cs) || isDecimal cs
where
  isInfinite (cs : List Char) : Bool := [".inf", ".Inf", ".INF"].contains (String.ofList cs)

/-! ### Values -/

/-- What a scalar means. -/
inductive Value where
  | nothing
  | bool (b : Bool)
  | integer (n : Int)
  | fraction
  | text (s : String)
  deriving DecidableEq, Repr

/-- The truth value with this spelling. -/
def bool? (s : String) : Option Bool :=
  if ["true", "True", "TRUE"].contains s then some true
  else if ["false", "False", "FALSE"].contains s then some false
  else none

/-- What a scalar means. -/
def Scalar.value (s : Scalar) : Value :=
  if s.quoted then .text s.text
  else if s.text.isEmpty || ["null", "Null", "NULL", "~"].contains s.text then .nothing
  else match bool? s.text with
    | some b => .bool b
    | none =>
        let cs := s.text.toList
        match integer? cs with
        | some n => .integer n
        | none => if !hasLeadingZero cs && isFraction cs then .fraction else .text s.text

end HackComputer.Yaml
