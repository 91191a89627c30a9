/-!
# `HackComputer.Text.Numeral`: numbers as text

Reading a decimal numeral, and writing numbers in base ten, sixteen and
two at a fixed width. Widths count characters, and a number that is
wider than asked for is written in full.

* `decimal?`, `unsigned?`: the value of a nonempty run of decimal
  digits, without or with a plus sign in front.
* `padLeft`, `padRight`: a text brought to a width.
* `hex4`, `binary16`: a number in four hexadecimal or sixteen binary
  digits.
* `decimal?_toDigits`: reading gives back what was written.
-/

set_option autoImplicit false

namespace HackComputer.Text

/-- The value of a decimal numeral: at least one digit and nothing but
the digits `0` to `9`, with any number of leading zeros. -/
def decimal? (cs : List Char) : Option Nat :=
  if !cs.isEmpty && cs.all Char.isDigit then some (Nat.ofDigitChars 10 cs 0) else none

/-- A written number is read back as itself. -/
theorem decimal?_toDigits (n : Nat) : decimal? (Nat.toDigits 10 n) = some n := by
  have hne : (Nat.toDigits 10 n).isEmpty = false := by
    rw [List.isEmpty_eq_false_iff]
    by_cases h : n < 10
    · simp [Nat.toDigits_of_lt_base h]
    · simp [Nat.toDigits_of_base_le (b := 10) (by decide) (Nat.le_of_not_lt h)]
  have hall : (Nat.toDigits 10 n).all Char.isDigit = true :=
    List.all_eq_true.2 fun _ hc => Nat.isDigit_of_mem_toDigits (by decide) (by decide) hc
  simp [decimal?, hne, hall, Nat.ofDigitChars_toDigits]

/-- The value of a decimal numeral that may carry one plus sign in
front. -/
def unsigned? : List Char → Option Nat
  | '+' :: cs => decimal? cs
  | cs => decimal? cs

/-- The text with `fill` in front until it is `width` characters wide. -/
def padLeft (fill : Char) (width : Nat) (s : String) : String :=
  String.ofList (List.replicate (width - s.length) fill) ++ s

/-- The text with blanks behind it until it is `width` characters wide. -/
def padRight (width : Nat) (s : String) : String :=
  s ++ String.ofList (List.replicate (width - s.length) ' ')

/-- A number in base ten. -/
def decimal (n : Nat) : String :=
  String.ofList (Nat.toDigits 10 n)

/-- A signed number in base ten, with a sign only if it is negative. -/
def signedDecimal (n : Int) : String :=
  if n < 0 then "-" ++ decimal n.natAbs else decimal n.natAbs

/-- A number in base sixteen with capital letters, at least four digits
wide. -/
def hex4 (n : Nat) : String :=
  padLeft '0' 4 (String.ofList ((Nat.toDigits 16 n).map Char.toUpper))

/-- A number in base two, at least sixteen digits wide. -/
def binary16 (n : Nat) : String :=
  padLeft '0' 16 (String.ofList (Nat.toDigits 2 n))

end HackComputer.Text
