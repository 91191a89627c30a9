import HackComputer.Text.Numeral
import Mathlib.Algebra.Group.Nat.Defs

/-!
# `HackComputer.Proofs.Text.Binary`: numbers in sixteen binary digits

`binary16` writes a number in base two and fills it up with zeros, and
`Nat.ofDigitChars 2` is the value of a row of digits. Filling up keeps the
value, and rows of one length are told apart by their values. So a number
that sixteen digits can hold has exactly one row of sixteen digits, the one
that is written (`toList_binary16_eq_iff`).
-/

set_option autoImplicit false

namespace HackComputer.Text

/-- Every character is a binary digit. -/
def isBinary (cs : List Char) : Bool :=
  cs.all (['0', '1'].contains ·)

/-- No characters are binary digits. -/
@[simp] theorem isBinary_nil : isBinary [] = true := rfl

/-- A row of digits begins with a zero or a one. -/
@[simp] theorem isBinary_cons (c : Char) (cs : List Char) :
    isBinary (c :: cs) = true ↔ (c = '0' ∨ c = '1') ∧ isBinary cs = true := by
  simp [isBinary]

/-- Two rows are digits together exactly if both are. -/
theorem isBinary_append (cs ds : List Char) :
    isBinary (cs ++ ds) = (isBinary cs && isBinary ds) := by
  simp [isBinary]

/-! ### The value of a row of digits -/

/-- The value of a row of binary digits, the highest first. -/
def binaryValue (cs : List Char) : Nat :=
  Nat.ofDigitChars 2 cs 0

/-- Digits in front of a row count as often as the row has values. -/
theorem ofDigitChars_two (cs : List Char) (init : Nat) :
    Nat.ofDigitChars 2 cs init = init * 2 ^ cs.length + binaryValue cs := by
  induction cs generalizing init with
  | nil => simp [binaryValue]
  | cons c cs ih =>
      rw [binaryValue, Nat.ofDigitChars_cons, Nat.ofDigitChars_cons, ih, ih (2 * 0 + _),
        List.length_cons, Nat.pow_succ]
      simp only [Nat.mul_zero, Nat.zero_add, Nat.add_mul]
      rw [Nat.mul_comm 2 init, Nat.mul_assoc init 2, Nat.mul_comm 2 (2 ^ cs.length), Nat.add_assoc]

/-- No digits are worth nothing. -/
@[simp] theorem binaryValue_nil : binaryValue [] = 0 := rfl

/-- A zero in front adds nothing. -/
@[simp] theorem binaryValue_zero (cs : List Char) : binaryValue ('0' :: cs) = binaryValue cs := rfl

/-- A one in front is worth a power of two. -/
@[simp] theorem binaryValue_one (cs : List Char) :
    binaryValue ('1' :: cs) = 2 ^ cs.length + binaryValue cs := by
  have hinit := ofDigitChars_two cs 1
  rw [Nat.one_mul] at hinit
  exact hinit

/-- Digits behind a row move it up by as many places. -/
theorem binaryValue_append (cs ds : List Char) :
    binaryValue (cs ++ ds) = binaryValue cs * 2 ^ ds.length + binaryValue ds := by
  rw [binaryValue, Nat.ofDigitChars_append, ofDigitChars_two]
  rfl

/-- A row has as many values as its length allows. -/
theorem binaryValue_lt {cs : List Char} (h : isBinary cs = true) :
    binaryValue cs < 2 ^ cs.length := by
  induction cs with
  | nil => decide
  | cons c cs ih =>
      obtain ⟨hdigit, hrest⟩ := (isBinary_cons c cs).mp h
      have hlt := ih hrest
      rw [List.length_cons, Nat.pow_succ]
      rcases hdigit with rfl | rfl
      · rw [binaryValue_zero]
        omega
      · rw [binaryValue_one]
        omega

/-- **Rows of one length are told apart by their values.** -/
theorem eq_of_binaryValue_eq {cs ds : List Char} (hcs : isBinary cs = true)
    (hds : isBinary ds = true) (hlength : cs.length = ds.length)
    (hvalue : binaryValue cs = binaryValue ds) : cs = ds := by
  induction cs generalizing ds with
  | nil => exact (List.length_eq_zero_iff.mp hlength.symm).symm
  | cons c cs ih =>
      cases ds with
      | nil => cases hlength
      | cons d ds =>
          obtain ⟨hc, hcs'⟩ := (isBinary_cons c cs).mp hcs
          obtain ⟨hd, hds'⟩ := (isBinary_cons d ds).mp hds
          have hrest : cs.length = ds.length := Nat.succ.inj hlength
          have hclt := binaryValue_lt hcs'
          have hdlt := binaryValue_lt hds'
          rw [hrest] at hclt
          -- A digit one outweighs everything behind it, so the first digits agree.
          rcases hc with rfl | rfl <;> rcases hd with rfl | rfl <;>
            simp only [binaryValue_zero, binaryValue_one, hrest] at hvalue
          · rw [ih hcs' hds' hrest hvalue]
          · omega
          · omega
          · rw [ih hcs' hds' hrest (by omega)]

/-! ### The row that is written -/

/-- Leading zeros are binary digits. -/
theorem isBinary_replicate (n : Nat) : isBinary (List.replicate n '0') = true := by
  simp [isBinary]

/-- In base two there are two digits. -/
theorem isBinary_toDigits (n : Nat) : isBinary (Nat.toDigits 2 n) = true := by
  induction n using Nat.strongRecOn with
  | ind n ih =>
      have hdigit : ∀ k < 2, isBinary [k.digitChar] = true := by decide
      by_cases hsmall : n < 2
      · rw [Nat.toDigits_of_lt_base hsmall]
        exact hdigit n hsmall
      · rw [Nat.toDigits_of_base_le (by decide) (Nat.le_of_not_lt hsmall), isBinary_append,
          ih (n / 2) (by omega), hdigit (n % 2) (by omega)]
        rfl

/-- Sixteen digits are the digits of the number behind zeros that fill them up. -/
theorem toList_binary16 (n : Nat) :
    (binary16 n).toList
      = List.replicate (16 - (Nat.toDigits 2 n).length) '0' ++ Nat.toDigits 2 n := by
  simp [binary16, padLeft]

/-- They are all binary digits. -/
theorem isBinary_binary16 (n : Nat) : isBinary (binary16 n).toList = true := by
  rw [toList_binary16, isBinary_append, isBinary_replicate, isBinary_toDigits]
  rfl

/-- Zeros in front keep the value. -/
theorem binaryValue_binary16 (n : Nat) : binaryValue (binary16 n).toList = n := by
  have hzeros : ∀ k, binaryValue (List.replicate k '0') = 0 := by
    intro k
    rw [binaryValue, Nat.ofDigitChars_replicate_zero, Nat.mul_zero]
  rw [toList_binary16, binaryValue_append, hzeros, Nat.zero_mul, Nat.zero_add]
  exact Nat.ofDigitChars_toDigits (by decide) (by decide)

/-- They are sixteen, as long as the number fits. -/
theorem length_binary16 {n : Nat} (h : n < 2 ^ 16) : (binary16 n).toList.length = 16 := by
  have hle : (Nat.toDigits 2 n).length ≤ 16 :=
    (Nat.length_toDigits_le_iff (by decide) (by decide)).mpr h
  rw [toList_binary16, List.length_append, List.length_replicate]
  omega

/-- **A number is written in the one row of sixteen digits that has its
value.** -/
theorem toList_binary16_eq_iff {n : Nat} (h : n < 2 ^ 16) {cs : List Char} :
    (binary16 n).toList = cs ↔ cs.length = 16 ∧ isBinary cs = true ∧ binaryValue cs = n := by
  constructor
  · intro hcs
    subst hcs
    exact ⟨length_binary16 h, isBinary_binary16 n, binaryValue_binary16 n⟩
  · rintro ⟨hlength, hbinary, hvalue⟩
    apply eq_of_binaryValue_eq (isBinary_binary16 n) hbinary
    · rw [length_binary16 h, hlength]
    · rw [binaryValue_binary16, hvalue]

end HackComputer.Text
