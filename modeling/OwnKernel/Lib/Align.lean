import Mathlib.Data.Nat.Bitwise
import Mathlib.Tactic.Common

/-!
# Aligned addresses and low bits

A number with its low `k` bits clear and a number below `2 ^ k` share no
bit, so or-ing them adds them and masking the low bits takes them apart
again. This is how a page table entry carries an address and flags in
one word.
-/

namespace OwnKernel

variable {a b k w : ℕ}

/-- Or-ing low bits into an aligned number adds them. -/
theorem lor_of_aligned (ha : 2 ^ k ∣ a) (hb : b < 2 ^ k) : a ||| b = a + b := by
  obtain ⟨c, rfl⟩ := ha
  exact (Nat.two_pow_add_eq_or_of_lt hb c).symm

/-- Masking off the low `k` bits of a `w`-bit number rounds it down. -/
theorem land_highMask (hk : k ≤ w) (ha : a < 2 ^ w) :
    a &&& (2 ^ w - 2 ^ k) = a / 2 ^ k * 2 ^ k := by
  have hmask : 2 ^ w - 2 ^ k = (2 ^ (w - k) - 1) * 2 ^ k := by
    rw [Nat.sub_mul, one_mul, ← Nat.pow_add, Nat.sub_add_cancel hk]
  apply Nat.eq_of_testBit_eq
  intro i
  rw [hmask, Nat.testBit_and, Nat.testBit_mul_two_pow, Nat.testBit_mul_two_pow,
    Nat.testBit_two_pow_sub_one, Nat.testBit_div_two_pow]
  by_cases hik : k ≤ i
  · have hsub : i - k + k = i := Nat.sub_add_cancel hik
    rw [hsub]
    by_cases hiw : i < w
    · simp [hik, show i - k < w - k by omega]
    · have hhigh : a.testBit i = false := Nat.testBit_eq_false_of_lt
        (lt_of_lt_of_le ha (Nat.pow_le_pow_right (by decide) (Nat.not_lt.1 hiw)))
      simp [hhigh]
  · simp [hik]

end OwnKernel
