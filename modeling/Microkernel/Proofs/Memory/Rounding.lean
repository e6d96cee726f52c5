import Mathlib.Data.Nat.Bitwise
import Microkernel.Memory.Region

/-!
# Rounding

`alignUp` works with a mask on words that wrap.  Where the alignment is a power of two it is the
least multiple, `roundUp`, modulo the word size.  As long as its sum stays within a word it never
rounds below its argument and a second rounding changes nothing; where the sum wraps it ends at
zero.  `Region.le_of_roundRequest` bounds what a request is rounded to, whatever the alignment.
-/

namespace Microkernel.Memory

/-- The regions in which sizes are rounded up to whole blocks and no block starts at address
zero. -/
structure Region.Suited (region : Region) : Prop where
  alignment_power : region.alignment.toNat.isPowerOfTwo
  minBlock_pos : 1 ≤ region.minBlock
  base_pos : 1 ≤ region.base
  stop_lt : region.base.toNat + region.size.toNat < 2 ^ 32

/-- The regions in which sizes are rounded up to whole blocks, wherever they lie and however small
they are. -/
structure Region.Granular (region : Region) : Prop where
  alignment_power : region.alignment.toNat.isPowerOfTwo
  minBlock_pos : 1 ≤ region.minBlock
  stop_lt : region.base.toNat + region.size.toNat < 2 ^ 32

/-- Clearing the low bits of a number takes it down to a multiple of a power of two. -/
theorem and_two_pow_sub {value width exponent : Nat} (small : value < 2 ^ width)
    (within : 2 ^ exponent - 1 < 2 ^ width) :
    value &&& (2 ^ width - (2 ^ exponent - 1 + 1)) =
      value / 2 ^ exponent * 2 ^ exponent := by
  apply Nat.eq_of_testBit_eq
  intro position
  rw [Nat.testBit_and, Nat.testBit_two_pow_sub_succ within, Nat.testBit_two_pow_sub_one,
    Nat.testBit_mul_two_pow, Nat.testBit_div_two_pow]
  by_cases low : position < exponent
  · simp [low]
  · have atLeast : exponent ≤ position := Nat.le_of_not_lt low
    by_cases inside : position < width
    · simp [low, atLeast, inside]
    · have clear : value.testBit position = false := by
        refine Nat.testBit_lt_two_pow (Nat.lt_of_lt_of_le small ?_)
        exact Nat.pow_le_pow_right Nat.two_pos (Nat.le_of_not_lt inside)
      simp [atLeast, clear]

/-- The least multiple of a unit that is not below `n`. -/
def roundUp (unit n : Nat) : Nat :=
  (n + (unit - 1)) / unit * unit

section Multiples

variable {unit n multiple : Nat}

theorem dvd_roundUp (unit n : Nat) : unit ∣ roundUp unit n :=
  Nat.dvd_mul_left unit _

theorem le_roundUp (positive : 0 < unit) (n : Nat) : n ≤ roundUp unit n := by
  have division := Nat.div_add_mod (n + (unit - 1)) unit
  have remainder := Nat.mod_lt (n + (unit - 1)) positive
  rw [roundUp, Nat.mul_comm]
  omega

private theorem roundUp_lt (positive : 0 < unit) (n : Nat) : roundUp unit n < n + unit := by
  have below := Nat.div_mul_le_self (n + (unit - 1)) unit
  rw [roundUp]
  omega

theorem roundUp_le (positive : 0 < unit) (divides : unit ∣ multiple) (le : n ≤ multiple) :
    roundUp unit n ≤ multiple := by
  obtain ⟨factor, rfl⟩ := divides
  rw [roundUp, Nat.mul_comm unit factor]
  apply Nat.mul_le_mul_right
  refine Nat.le_of_lt_succ (Nat.div_lt_of_lt_mul ?_)
  rw [Nat.mul_succ]
  omega

theorem roundUp_of_dvd (positive : 0 < unit) (divides : unit ∣ n) : roundUp unit n = n :=
  Nat.le_antisymm (roundUp_le positive divides (Nat.le_refl n)) (le_roundUp positive n)

theorem roundUp_mono (positive : 0 < unit) (le : n ≤ multiple) :
    roundUp unit n ≤ roundUp unit multiple :=
  roundUp_le positive (dvd_roundUp unit multiple) (le.trans (le_roundUp positive multiple))

end Multiples

section PowerOfTwo

variable {n alignment : UInt32}

theorem dvd_wordSize (power : alignment.toNat.isPowerOfTwo) : alignment.toNat ∣ 2 ^ 32 := by
  obtain ⟨exponent, power⟩ := power
  rw [power]
  refine Nat.pow_dvd_pow 2 ((Nat.pow_le_pow_iff_right (by decide : 1 < 2)).mp ?_)
  rw [← power]
  exact alignment.toNat_lt.le

/-- Rounding up is the ceiling of a division, modulo the word size. -/
theorem toNat_alignUp_mod (power : alignment.toNat.isPowerOfTwo) (n : UInt32) :
    (alignUp n alignment).toNat = roundUp alignment.toNat n.toNat % 2 ^ 32 := by
  obtain ⟨factor, wordSize⟩ := dvd_wordSize power
  obtain ⟨exponent, power⟩ := power
  have positive : 0 < 2 ^ exponent := Nat.two_pow_pos exponent
  have inWord := alignment.toNat_lt
  have one_le : (1 : UInt32) ≤ alignment := by
    rw [UInt32.le_iff_toNat_le, power]
    exact positive
  have predecessor : (alignment - 1).toNat = 2 ^ exponent - 1 := by
    rw [UInt32.toNat_sub_of_le alignment 1 one_le, power]
    rfl
  have mask : (~~~(alignment - 1)).toNat = 2 ^ 32 - (2 ^ exponent - 1 + 1) := by
    rw [UInt32.toNat_not, predecessor, Nat.sub_sub, Nat.add_comm 1]
    rfl
  rw [alignUp, UInt32.toNat_and, UInt32.toNat_add, predecessor, mask,
    and_two_pow_sub (Nat.mod_lt _ (Nat.two_pow_pos 32)) (by omega), roundUp, power]
  rw [power] at wordSize
  rw [wordSize, Nat.mod_mul_right_div_self, Nat.mul_comm (2 ^ exponent) factor,
    Nat.mul_mod_mul_right]

/-- Rounding up stays within a word exactly if the sum that it takes does. -/
theorem roundUp_lt_wordSize_iff (power : alignment.toNat.isPowerOfTwo) (n : Nat) :
    roundUp alignment.toNat n < 2 ^ 32 ↔ n + alignment.toNat ≤ 2 ^ 32 := by
  have positive : 0 < alignment.toNat := Nat.pos_of_isPowerOfTwo power
  constructor
  · intro inWord
    have apart : alignment.toNat ≤ 2 ^ 32 - roundUp alignment.toNat n :=
      Nat.le_of_dvd (Nat.sub_pos_of_lt inWord)
        (Nat.dvd_sub (dvd_wordSize power) (dvd_roundUp _ _))
    have le := le_roundUp positive n
    omega
  · intro fits
    exact (roundUp_lt positive n).trans_le fits

/-- The distance to the next multiple never wraps, though the multiple may. -/
theorem toNat_alignUp_sub (power : alignment.toNat.isPowerOfTwo) (n : UInt32) :
    (alignUp n alignment - n).toNat = roundUp alignment.toNat n.toNat - n.toNat := by
  have positive : 0 < alignment.toNat := Nat.pos_of_isPowerOfTwo power
  have le := le_roundUp positive n.toNat
  have lt := roundUp_lt positive n.toNat
  have inWord := alignment.toNat_lt
  have bounded := roundUp_le positive (dvd_wordSize power) n.toNat_lt.le
  rw [UInt32.toNat_sub, toNat_alignUp_mod power]
  omega

theorem toNat_alignUp (power : alignment.toNat.isPowerOfTwo)
    (fits : n.toNat + alignment.toNat ≤ 2 ^ 32) :
    (alignUp n alignment).toNat = roundUp alignment.toNat n.toNat := by
  have inWord := (roundUp_lt_wordSize_iff power n.toNat).mpr fits
  rw [toNat_alignUp_mod power, Nat.mod_eq_of_lt inWord]

/-- Where the sum does not fit in a word, rounding up ends at zero. -/
theorem toNat_alignUp_of_wraps (power : alignment.toNat.isPowerOfTwo)
    (wraps : 2 ^ 32 < n.toNat + alignment.toNat) : (alignUp n alignment).toNat = 0 := by
  have positive : 0 < alignment.toNat := Nat.pos_of_isPowerOfTwo power
  have atMost := roundUp_le positive (dvd_wordSize power) n.toNat_lt.le
  have atLeast : 2 ^ 32 ≤ roundUp alignment.toNat n.toNat := by
    apply Nat.le_of_not_lt
    intro inWord
    exact Nat.not_le.mpr wraps ((roundUp_lt_wordSize_iff power n.toNat).mp inWord)
  rw [toNat_alignUp_mod power, Nat.le_antisymm atMost atLeast, Nat.mod_self]

/-- Rounding up never falls below its argument exactly where its sum does not wrap. -/
theorem le_alignUp_iff (power : alignment.toNat.isPowerOfTwo) :
    n.toNat ≤ (alignUp n alignment).toNat ↔ n.toNat + alignment.toNat ≤ 2 ^ 32 := by
  constructor
  · intro notBelow
    apply Nat.le_of_not_lt
    intro wraps
    have inWord := alignment.toNat_lt
    rw [toNat_alignUp_of_wraps power wraps] at notBelow
    omega
  · intro fits
    rw [toNat_alignUp power fits]
    exact le_roundUp (Nat.pos_of_isPowerOfTwo power) n.toNat

theorem le_alignUp (power : alignment.toNat.isPowerOfTwo)
    (fits : n.toNat + alignment.toNat ≤ 2 ^ 32) :
    n.toNat ≤ (alignUp n alignment).toNat :=
  (le_alignUp_iff power).mpr fits

/-- What is a multiple already is not rounded any further. -/
theorem alignUp_idem (power : alignment.toNat.isPowerOfTwo)
    (fits : n.toNat + alignment.toNat ≤ 2 ^ 32) :
    alignUp (alignUp n alignment) alignment = alignUp n alignment := by
  have settled := roundUp_of_dvd (Nat.pos_of_isPowerOfTwo power)
    (dvd_roundUp alignment.toNat n.toNat)
  apply UInt32.toNat_inj.mp
  rw [toNat_alignUp_mod power, toNat_alignUp power fits, settled,
    Nat.mod_eq_of_lt ((roundUp_lt_wordSize_iff power n.toNat).mpr fits)]

end PowerOfTwo

theorem Region.toNat_of_roundRequest {region : Region} {size request : UInt32}
    (rounded : region.roundRequest size = .ok request) :
    request.toNat = max (alignUp size region.alignment).toNat region.minBlock.toNat := by
  by_cases tooLarge : region.size < size
  · simp [Region.roundRequest, tooLarge] at rounded
  · simp only [Region.roundRequest, tooLarge, if_false, Except.ok.injEq] at rounded
    rw [← rounded, UInt32.toNat_max]

theorem Region.le_of_roundRequest {region : Region} {size request : UInt32}
    (rounded : region.roundRequest size = .ok request) :
    (alignUp size region.alignment).toNat ≤ request.toNat ∧
      region.minBlock.toNat ≤ request.toNat := by
  rw [Region.toNat_of_roundRequest rounded]
  exact ⟨Nat.le_max_left _ _, Nat.le_max_right _ _⟩

end Microkernel.Memory
