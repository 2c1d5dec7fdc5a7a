import Mathlib.Data.Nat.Bitwise

set_option autoImplicit false

namespace Shared.Words

/-- A mask of all but the lowest `k` bits rounds down to a multiple of `2 ^ k`. -/
theorem toNat_and_mask (x : UInt64) {mask : UInt64} {k : Nat} (bound : k ≤ 64)
    (high : mask.toNat = (2 ^ (64 - k) - 1) * 2 ^ k) :
    (x &&& mask).toNat = x.toNat / 2 ^ k * 2 ^ k := by
  have below := x.toNat_lt
  rw [UInt64.toNat_and, high]
  refine Nat.eq_of_testBit_eq fun i => ?_
  rw [Nat.testBit_and, Nat.testBit_mul_two_pow, Nat.testBit_mul_two_pow, Nat.testBit_two_pow_sub_one,
    Nat.testBit_div_two_pow]
  by_cases low : k ≤ i
  · by_cases inside : i < 64
    · simp [low, show i - k < 64 - k by omega, show i - k + k = i by omega]
    · have zero : x.toNat.testBit i = false :=
        Nat.testBit_lt_two_pow (Nat.lt_of_lt_of_le below (Nat.pow_le_pow_right (by decide) (by omega)))
      simp [zero, show i - k + k = i by omega]
  · simp [low]

end Shared.Words
