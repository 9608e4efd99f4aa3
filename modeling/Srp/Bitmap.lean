import Mathlib.Data.Nat.Bitwise
import Mathlib.Data.Set.Insert
import Mathlib.Order.Bounds.Basic
import Mathlib.Tactic.Common

/-!
# Sliding bitmaps

A bitmap of width `W` below the number `M` records which of the numbers `M`, `M - 1`, …,
`M - (W - 1)` are in a set: bit `i` stands for `M - i`. `Shows` is that relation, and the lemmas
below say what the usual operations on the bits do to the set: shifting and masking when the top
moves by less than the width (`Shows.shift`), starting over when it moves further (`Shows.jump`),
and setting a bit for a number behind the top (`Shows.mark`). The operations keep a bitmap below
`2^W`, and such a bitmap is determined by what it shows (`Shows.unique`).
-/

namespace Bitmap

/-- Bit `i` of the bitmap says whether `M - i` is in `S`, for each `i` below the width. -/
def Shows (W : ℕ) (M : ℤ) (S : Set ℤ) (bits : ℕ) : Prop :=
  ∀ i < W, bits.testBit i = true ↔ M - i ∈ S

variable {W bits : ℕ} {M x : ℤ} {S : Set ℤ}

/-- The test of one bit by its mask. -/
theorem and_shiftLeft_ne_zero (bits d : ℕ) : bits &&& (1 <<< d) ≠ 0 ↔ bits.testBit d = true := by
  rw [Nat.one_shiftLeft, Nat.and_two_pow]
  cases bits.testBit d <;> simp

/-- The bits that a shift, a new lowest bit, and the mask leave. -/
theorem testBit_shift {k i : ℕ} (hi : i < W) :
    (((bits <<< k) ||| 1) &&& ((1 <<< W) - 1)).testBit i = true ↔
      i = 0 ∨ (k ≤ i ∧ bits.testBit (i - k) = true) := by
  rw [Nat.one_shiftLeft, Nat.testBit_and, Nat.testBit_or, Nat.testBit_shiftLeft,
    Nat.testBit_two_pow_sub_one]
  simp only [Bool.and_eq_true, Bool.or_eq_true, decide_eq_true_eq, hi, and_true,
    Nat.testBit_one_eq_true_iff_self_eq_zero]
  exact or_comm

/-- The bitmap with only its lowest bit shows a set with only the top. -/
theorem shows_single : Shows W x {x} 1 := by
  intro i hi
  rw [Nat.testBit_one_eq_true_iff_self_eq_zero, Set.mem_singleton_iff]
  omega

/-- When the top moves up by the width or more, nothing of the old set is left to show. -/
theorem Shows.jump (hS : ∀ y ∈ S, y ≤ M) (hx : (W : ℤ) ≤ x - M) : Shows W x (insert x S) 1 := by
  intro i hi
  rw [Nat.testBit_one_eq_true_iff_self_eq_zero, Set.mem_insert_iff]
  constructor
  · intro h0
    left
    omega
  · rintro (h | h)
    · omega
    -- What was in the set is at or below the old top, out of the width of the new one.
    · have hle := hS _ h
      omega

/-- When the top moves up by less, the bits move along, and the lowest is the new top. -/
theorem Shows.shift (h : Shows W M S bits) (hS : ∀ y ∈ S, y ≤ M) (hx : M < x) :
    Shows W x (insert x S) (((bits <<< (x - M).toNat) ||| 1) &&& ((1 <<< W) - 1)) := by
  intro i hi
  rw [testBit_shift hi, Set.mem_insert_iff]
  rcases Nat.lt_or_ge i (x - M).toNat with hlt | hge
  · -- Between the old top and the new one nothing is in the set.
    have hnot : x - i ∉ S := by
      intro hmem
      have hle := hS _ hmem
      omega
    simp only [hnot, or_false]
    omega
  -- From the old top on, bit `i` is the one that was at `i - (x - M)`.
  · have hshift : M - ((i - (x - M).toNat : ℕ) : ℤ) = x - i := by omega
    rw [h _ (by omega), hshift]
    simp only [hge, true_and]
    refine or_congr_left ?_
    omega

/-- Setting the bit of a number behind the top adds it to the set. -/
theorem Shows.mark (h : Shows W M S bits) (hx : x ≤ M) :
    Shows W M (insert x S) (bits ||| 1 <<< (M - x).toNat) := by
  intro i hi
  rw [Nat.one_shiftLeft, Nat.testBit_or, Bool.or_eq_true, Nat.testBit_two_pow, decide_eq_true_eq,
    h i hi, Set.mem_insert_iff, or_comm]
  refine or_congr_left ?_
  omega

/-- A number out of the width of the top makes no difference. -/
theorem Shows.insert_behind (h : Shows W M S bits) (hx : (W : ℤ) ≤ M - x) :
    Shows W M (insert x S) bits := by
  intro i hi
  rw [h i hi, Set.mem_insert_iff, or_iff_right]
  omega

/-! ## Bitmaps below `2^W` -/

/-- The mask keeps a bitmap below `2^W`. -/
theorem shift_lt (bits k : ℕ) : ((bits <<< k) ||| 1) &&& ((1 <<< W) - 1) < 2 ^ W := by
  have hmask : (1 <<< W) - 1 < 2 ^ W := by
    have hpos := Nat.two_pow_pos W
    rw [Nat.one_shiftLeft]
    omega
  exact Nat.and_lt_two_pow _ hmask

/-- Setting a bit below the width keeps a bitmap below `2^W`. -/
theorem mark_lt {d : ℕ} (hbits : bits < 2 ^ W) (hd : d < W) : bits ||| 1 <<< d < 2 ^ W := by
  have hbit : 1 <<< d < 2 ^ W := by
    rw [Nat.one_shiftLeft]
    exact Nat.pow_lt_pow_right (by omega) hd
  exact Nat.or_lt_two_pow hbits hbit

/-- A bitmap below `2^W` is determined by what it shows. -/
theorem Shows.unique {bits' : ℕ} (h : Shows W M S bits) (h' : Shows W M S bits')
    (hbits : bits < 2 ^ W) (hbits' : bits' < 2 ^ W) : bits = bits' := by
  refine Nat.eq_of_testBit_eq fun i => ?_
  rcases Nat.lt_or_ge i W with hi | hi
  · exact Bool.eq_iff_iff.mpr ((h i hi).trans (h' i hi).symm)
  -- Above the width both bits are zero.
  · have hpow : 2 ^ W ≤ 2 ^ i := Nat.pow_le_pow_right (by omega) hi
    rw [Nat.testBit_lt_two_pow (hbits.trans_le hpow), Nat.testBit_lt_two_pow (hbits'.trans_le hpow)]

end Bitmap
