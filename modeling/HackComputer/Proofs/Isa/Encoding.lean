import HackComputer.Isa.Operation
import Mathlib.Data.Nat.Bitwise

/-!
# `HackComputer.Proofs.Isa.Encoding`: operations and their words

A word of program memory is three fields under three marking bits, and
`encode` packs them with shifts while `decode` takes them apart with
masks. Both sides are read here as arithmetic on the number of the word:
a shift is a product or a quotient, a mask a remainder. What is left is
that a number below `2 ^ 13` is the three fields in its digits to the
bases 128, 8 and 8.

* `Calculation.ofBits?_eq_some_iff`: a word selects a calculation exactly
  if its lowest thirteen bits are those of the calculation.
* `Operation.decode_encode`: reading undoes writing, up to the highest bit
  of a loaded value, which the word has no room for.
* `Operation.encode_of_decode`: writing undoes reading, up to the two bits
  behind the highest, which reading pays no regard to.
* `Operation.exists_decode_iff`: the words that are read at all.
-/

set_option autoImplicit false

namespace HackComputer.Isa

/-! ### Masks and shifts as arithmetic -/

/-- A mask of low bits is a remainder. -/
theorem toNat_and_mask (w mask : Word) (k : Nat) (hmask : mask.toNat = 2 ^ k - 1) :
    (w &&& mask).toNat = w.toNat % 2 ^ k := by
  rw [UInt16.toNat_and, hmask, Nat.and_two_pow_sub_one_eq_mod]

/-- Testing a single bit is testing a digit to the base two. -/
theorem and_bit_ne_zero (w bit : Word) (k : Nat) (hbit : bit.toNat = 2 ^ k) :
    (w &&& bit != 0) = decide (w.toNat / 2 ^ k % 2 = 1) := by
  have hand : (w &&& bit).toNat = (w.toNat.testBit k).toNat * 2 ^ k := by
    rw [UInt16.toNat_and, hbit, Nat.and_two_pow]
  rw [← Nat.testBit_eq_decide_div_mod_eq, Bool.eq_iff_iff, bne_iff_ne, ne_eq,
    ← UInt16.toNat_inj, hand]
  cases w.toNat.testBit k with
  | false => simp
  | true => simp

/-- A field above another one: the upper is shifted by the width of the
lower. -/
theorem toNat_shiftLeft_or (upper lower : Word) (k : Nat) (hk : k < 16)
    (hlower : lower.toNat < 2 ^ k) (hupper : upper.toNat * 2 ^ k < 65536) :
    (upper <<< k.toUInt16 ||| lower).toNat = upper.toNat * 2 ^ k + lower.toNat := by
  have hshift : k.toUInt16.toNat % 16 = k := by
    rw [Nat.toUInt16_eq, UInt16.toNat_ofNat']
    omega
  -- The upper field stays inside the word, and the lower one lies in the zeros below it.
  rw [UInt16.toNat_or, UInt16.toNat_shiftLeft, hshift, Nat.shiftLeft_eq,
    Nat.mod_eq_of_lt hupper, ← Nat.shiftLeft_eq, ← Nat.shiftLeft_add_eq_or_of_lt hlower]

/-! ### The three fields -/

namespace Computation

/-- A computation is selected by seven bits. -/
theorem toNat_bits_lt (comp : Computation) : comp.bits.toNat < 128 := by
  cases comp with
  | zero | one | minusOne | d | notD | negD | incD | decD => decide
  | y s | notY s | negY s | incY s | decY s | addDY s | subDY s | subYD s | andDY s | orDY s =>
      cases s <;> decide

/-- Bits select the computation that has them. -/
theorem ofBits?_eq_some_iff {w : Word} {comp : Computation} :
    ofBits? w = some comp ↔ w = comp.bits := by
  constructor
  · intro h
    rw [ofBits?] at h
    have hbits := List.find?_some h
    exact (beq_iff_eq.mp hbits).symm
  · intro h
    rw [h, ofBits?_bits]

end Computation

/-- A destination is given by the digits of three bits. -/
theorem Destination.ofBits_eq_iff {w : Word} {dest : Destination} :
    Destination.ofBits w = dest ↔ w.toNat % 8 = dest.bits.toNat := by
  rw [Destination.ofBits, and_bit_ne_zero w 0b100 2 rfl, and_bit_ne_zero w 0b010 1 rfl,
    and_bit_ne_zero w 0b001 0 rfl]
  obtain ⟨a, d, m⟩ := dest
  cases a <;> cases d <;> cases m <;> simp [Destination.bits] <;> omega

/-- A condition is given by the digits of three bits. -/
theorem Jump.ofBits_eq_iff {w : Word} {jump : Jump} :
    Jump.ofBits w = jump ↔ w.toNat % 8 = jump.bits.toNat := by
  rw [Jump.ofBits, and_bit_ne_zero w 0b100 2 rfl, and_bit_ne_zero w 0b010 1 rfl,
    and_bit_ne_zero w 0b001 0 rfl]
  obtain ⟨negative, zero, positive⟩ := jump
  cases negative <;> cases zero <;> cases positive <;> simp [Jump.bits] <;> omega

/-- The destination takes three bits. -/
theorem Destination.toNat_bits_lt (dest : Destination) : dest.bits.toNat < 8 := by
  obtain ⟨a, d, m⟩ := dest
  cases a <;> cases d <;> cases m <;> decide

/-- The jump takes three bits. -/
theorem Jump.toNat_bits_lt (jump : Jump) : jump.bits.toNat < 8 := by
  obtain ⟨negative, zero, positive⟩ := jump
  cases negative <;> cases zero <;> cases positive <;> decide

namespace Calculation

/-- The three fields stand one above the other. -/
theorem toNat_bits (c : Calculation) :
    c.bits.toNat = 64 * c.comp.bits.toNat + 8 * c.dest.bits.toNat + c.jump.bits.toNat := by
  have hcomp := c.comp.toNat_bits_lt
  have hdest := c.dest.toNat_bits_lt
  have hjump := c.jump.toNat_bits_lt
  have hlower : (c.dest.bits <<< 3 ||| c.jump.bits).toNat
      = c.dest.bits.toNat * 8 + c.jump.bits.toNat :=
    toNat_shiftLeft_or c.dest.bits c.jump.bits 3 (by decide) hjump (by omega)
  -- The two lower fields together are the lower field of the computation.
  have hall := toNat_shiftLeft_or c.comp.bits (c.dest.bits <<< 3 ||| c.jump.bits) 6 (by decide)
    (by rw [hlower]; omega) (by omega)
  rw [hlower, ← UInt16.or_assoc] at hall
  show (c.comp.bits <<< 6 ||| c.dest.bits <<< 3 ||| c.jump.bits).toNat = _
  rw [show (6 : Word) = (6 : Nat).toUInt16 from rfl, hall]
  omega

/-- The three fields take thirteen bits. -/
theorem toNat_bits_lt (c : Calculation) : c.bits.toNat < 8192 := by
  have hcomp := c.comp.toNat_bits_lt
  have hdest := c.dest.toNat_bits_lt
  have hjump := c.jump.toNat_bits_lt
  rw [toNat_bits]
  omega

/-- **A word selects a calculation exactly if its lowest thirteen bits are
those of the calculation.** -/
theorem ofBits?_eq_some_iff {w : Word} {c : Calculation} :
    ofBits? w = some c ↔ w.toNat % 8192 = c.bits.toNat := by
  obtain ⟨dest, comp, jump⟩ := c
  have hcomp := comp.toNat_bits_lt
  have hdest := dest.toNat_bits_lt
  have hjump := jump.toNat_bits_lt
  have hfield : (w >>> 6 &&& 0x7F).toNat = w.toNat / 64 % 128 := by
    rw [toNat_and_mask _ _ 7 rfl, UInt16.toNat_shiftRight, Nat.shiftRight_eq_div_pow]
    rfl
  have hmiddle : (w >>> 3).toNat = w.toNat / 8 := by
    rw [UInt16.toNat_shiftRight, Nat.shiftRight_eq_div_pow]
    rfl
  have hfields : ofBits? w = some ⟨dest, comp, jump⟩ ↔
      w.toNat / 64 % 128 = comp.bits.toNat ∧ w.toNat / 8 % 8 = dest.bits.toNat ∧
        w.toNat % 8 = jump.bits.toNat := by
    rw [← hfield, ← hmiddle, UInt16.toNat_inj, ← Computation.ofBits?_eq_some_iff,
      ← Destination.ofBits_eq_iff, ← Jump.ofBits_eq_iff, ofBits?, Option.map_eq_some_iff]
    constructor
    · rintro ⟨found, hfound, hc⟩
      cases hc
      exact ⟨hfound, rfl, rfl⟩
    · rintro ⟨hfound, rfl, rfl⟩
      exact ⟨comp, hfound, rfl⟩
  -- The fields are the digits of the number, so they agree together or not at all.
  rw [hfields, toNat_bits]
  show _ ↔ w.toNat % 8192 = 64 * comp.bits.toNat + 8 * dest.bits.toNat + jump.bits.toNat
  omega

end Calculation

/-! ### Whole words -/

namespace Operation

/-- The operation that is left of an operation once it is a word: a loaded
value has fifteen bits there. -/
def truncated : Operation → Operation
  | load value => load (value % 0x8000)
  | compute c => compute c

/-- A load is written with fifteen bits of its value. -/
theorem toNat_encode_load (value : Word) : (load value).encode.toNat = value.toNat % 0x8000 :=
  toNat_and_mask value 0x7FFF 15 rfl

/-- A computing instruction has its three highest bits set. -/
theorem toNat_encode_compute (c : Calculation) :
    (compute c).encode.toNat = 0xE000 + c.bits.toNat :=
  toNat_shiftLeft_or 0b111 c.bits 13 (by decide) c.toNat_bits_lt (by decide)

/-- The highest bit tells the two kinds of words apart. -/
theorem and_highest_eq_zero_iff (w : Word) : w &&& 0x8000 = 0 ↔ w.toNat < 0x8000 := by
  have hbit := and_bit_ne_zero w 0x8000 15 rfl
  have hlt := w.toNat_lt
  rw [← Decidable.not_iff_not, ← ne_eq, ← bne_iff_ne, hbit, decide_eq_true_eq]
  omega

/-- Without it a word is a load of itself. -/
theorem decode_of_lt {w : Word} (h : w.toNat < 0x8000) : decode w = .ok (load w) := by
  rw [decode, if_pos ((and_highest_eq_zero_iff w).mpr h)]

/-- With the highest bit set the lowest thirteen decide. -/
theorem decode_of_le {w : Word} (h : 0x8000 ≤ w.toNat) :
    decode w = match Calculation.ofBits? w with
      | some c => .ok (compute c)
      | none => .error (.word w) := by
  have hset : ¬ w &&& 0x8000 = 0 := by
    rw [and_highest_eq_zero_iff]
    exact Nat.not_lt.mpr h
  exact if_neg hset

/-- A word denotes a computing instruction exactly if it has the highest
bit and the lowest thirteen bits of it. -/
theorem decode_eq_compute_iff {w : Word} {c : Calculation} :
    decode w = .ok (compute c) ↔ 0x8000 ≤ w.toNat ∧ w.toNat % 8192 = c.bits.toNat := by
  rw [← Calculation.ofBits?_eq_some_iff]
  rcases Nat.lt_or_ge w.toNat 0x8000 with hlow | hhigh
  · rw [decode_of_lt hlow]
    simp [Nat.not_le.mpr hlow]
  · rw [decode_of_le hhigh]
    cases Calculation.ofBits? w <;> simp [hhigh]

/-- **Reading undoes writing**, up to the highest bit of a loaded value. -/
theorem decode_encode (op : Operation) : decode op.encode = .ok op.truncated := by
  cases op with
  | load value =>
      have hvalue : (load value).encode = value % 0x8000 := by
        rw [← UInt16.toNat_inj, toNat_encode_load, UInt16.toNat_mod]
        rfl
      rw [decode_of_lt (by rw [toNat_encode_load]; omega), hvalue, truncated]
  | compute c =>
      have hlt := c.toNat_bits_lt
      rw [truncated, decode_eq_compute_iff, toNat_encode_compute]
      omega

/-- The word with the bits that writing sets and reading does not ask for:
in a computing instruction, the two behind the highest. -/
def completed (w : Word) : Word :=
  if w < 0x8000 then w else 0xE000 ||| (w &&& 0x1FFF)

/-- The completed word as a number: of a computing instruction only the lowest
thirteen bits are its own. -/
theorem toNat_completed (w : Word) :
    (completed w).toNat = if w.toNat < 0x8000 then w.toNat else 0xE000 + w.toNat % 8192 := by
  have hlow : (w &&& 0x1FFF).toNat = w.toNat % 8192 := toNat_and_mask w 0x1FFF 13 rfl
  have hmarked : (0xE000 ||| (w &&& 0x1FFF)).toNat = 0xE000 + (w &&& 0x1FFF).toNat :=
    toNat_shiftLeft_or 0b111 (w &&& 0x1FFF) 13 (by decide) (by rw [hlow]; omega) (by decide)
  rw [completed, apply_ite UInt16.toNat, hmarked, hlow]
  rfl

/-- **Writing undoes reading**, up to the two bits. -/
theorem encode_of_decode {w : Word} {op : Operation} (h : decode w = .ok op) :
    op.encode = completed w := by
  rw [← UInt16.toNat_inj, toNat_completed]
  rcases Nat.lt_or_ge w.toNat 0x8000 with hlow | hhigh
  · rw [decode_of_lt hlow] at h
    cases h
    rw [toNat_encode_load, if_pos hlow, Nat.mod_eq_of_lt hlow]
  · cases op with
    | load value =>
        -- With the highest bit set only computing instructions are read.
        rw [decode_of_le hhigh] at h
        split at h <;> cases h
    | compute c =>
        rw [toNat_encode_compute, if_neg (Nat.not_lt.mpr hhigh), (decode_eq_compute_iff.mp h).2]

/-- A word denotes an operation exactly if completing it gives the word of
one. -/
theorem exists_decode_iff (w : Word) :
    (∃ op, decode w = .ok op) ↔ ∃ op : Operation, op.encode = completed w := by
  constructor
  · rintro ⟨op, h⟩
    exact ⟨op, encode_of_decode h⟩
  · rintro ⟨op, h⟩
    rw [← UInt16.toNat_inj, toNat_completed] at h
    rcases Nat.lt_or_ge w.toNat 0x8000 with hlow | hhigh
    · exact ⟨load w, decode_of_lt hlow⟩
    · rw [if_neg (Nat.not_lt.mpr hhigh)] at h
      cases op with
      | load value =>
          -- The word of a load has no highest bit, and a completed one has.
          rw [toNat_encode_load] at h
          omega
      | compute c =>
          have hlt := c.toNat_bits_lt
          rw [toNat_encode_compute] at h
          exact ⟨compute c, decode_eq_compute_iff.mpr ⟨hhigh, by omega⟩⟩

end Operation

end HackComputer.Isa
