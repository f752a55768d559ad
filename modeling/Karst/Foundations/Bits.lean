import Mathlib

/-!
# Bitmaps in machine words

A bitmap keeps a set of small numbers in a word: a mask test reads a member, a mask update adds
one, and the set is full when the word is all ones below the bound.
-/

namespace Karst.Bits

open BitVec

variable {w : ℕ}

theorem and_mask_ne_zero (v : BitVec w) {j : ℕ} (hj : j < w) : (v &&& (1#w <<< j) != 0) = v.getLsbD j := by
  rw [← twoPow_eq, and_twoPow]
  cases h : v.getLsbD j with
  | false => simp
  | true =>
    have hne : twoPow w j ≠ 0 := by
      intro hz
      have := congrArg (fun x : BitVec w => x.getLsbD j) hz
      simp [hj] at this
    simpa using hne

theorem getLsbD_or_mask (v : BitVec w) (i : ℕ) {j : ℕ} (hj : j < w) :
    (v ||| (1#w <<< j)).getLsbD i = (v.getLsbD i || decide (i = j)) := by
  rw [← twoPow_eq, getLsbD_or, getLsbD_twoPow]
  by_cases h : i = j
  · simp [h, hj]
  · simp [h, Ne.symm h]

theorem getLsbD_low_ones {n : ℕ} (hn : n < w) (i : ℕ) : ((1#w <<< n) - 1#w).getLsbD i = decide (i < n) := by
  have hlt : 2 ^ n < 2 ^ w := Nat.pow_lt_pow_right (by decide) hn
  have hval : ((1#w <<< n) - 1#w).toNat = 2 ^ n - 1 := by
    rw [← twoPow_eq, toNat_sub, toNat_twoPow_of_lt hn]
    have hone : (1#w).toNat = 1 := by
      exact Nat.mod_eq_of_lt (Nat.one_lt_two_pow (by omega))
    have hpos : 0 < 2 ^ n := Nat.two_pow_pos n
    rw [hone, show 2 ^ w - 1 + 2 ^ n = 2 ^ n - 1 + 2 ^ w by omega, Nat.add_mod_right]
    exact Nat.mod_eq_of_lt (by omega)
  rw [← testBit_toNat, hval, Nat.testBit_two_pow_sub_one]

theorem eq_low_ones_iff {n : ℕ} (hn : n < w) {v : BitVec w} (hv : ∀ i, v.getLsbD i = true → i < n) :
    v = (1#w <<< n) - 1#w ↔ ∀ i < n, v.getLsbD i = true := by
  constructor
  · rintro rfl i hi
    rw [getLsbD_low_ones hn]
    simpa using hi
  · intro hall
    apply eq_of_getLsbD_eq
    intro i _
    rw [getLsbD_low_ones hn]
    by_cases hi : i < n
    · simp [hi, hall i hi]
    · have hoff : v.getLsbD i ≠ true := fun h => hi (hv i h)
      simpa [hi] using hoff

end Karst.Bits
