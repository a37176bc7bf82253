import Mathlib

/-!
# Single bits of a word

A test of one bit, and a word with one bit set or cleared, as numbers.
-/

namespace Soda

open BitVec

variable {width : ℕ}

variable (word : BitVec width)

theorem getLsbD_iff (i : ℕ) : word.getLsbD i = true ↔ word.toNat / 2 ^ i % 2 = 1 := by
  rw [getLsbD, Nat.testBit_eq_decide_div_mod_eq, decide_eq_true_eq]

theorem and_twoPow_ne_zero {i : ℕ} (hi : i < width) :
    (word &&& twoPow width i) ≠ 0 ↔ word.toNat / 2 ^ i % 2 = 1 := by
  rw [and_twoPow, ← getLsbD_iff]
  have hne : twoPow width i ≠ 0 := by
    intro hzero
    have hbit := congrArg (fun word => getLsbD word i) hzero
    simp [hi] at hbit
  constructor
  · intro hset
    by_contra hclear
    exact hset (if_neg hclear)
  · intro hset
    rw [if_pos hset]
    exact hne

theorem toNat_or_twoPow {i : ℕ} (hi : i < width) :
    (word ||| twoPow width i).toNat = if word.toNat / 2 ^ i % 2 = 1 then word.toNat
      else word.toNat + 2 ^ i := by
  split
  case isTrue hset =>
    rw [← getLsbD_iff] at hset
    have hsame : word ||| twoPow width i = word := by
      ext j hj
      by_cases hij : i = j
      · simp [← hij, ← getLsbD_eq_getElem, hset]
      · simp [getElem_twoPow, Ne.symm hij]
    rw [hsame]
  case isFalse hclear =>
    rw [← getLsbD_iff] at hclear
    have hdisjoint : word &&& twoPow width i = (0 : BitVec width) := by
      rw [and_twoPow, if_neg hclear]
      rfl
    rw [← add_eq_or_of_and_eq_zero _ _ hdisjoint,
      toNat_add_of_and_eq_zero hdisjoint, toNat_twoPow_of_lt hi]

theorem toNat_and_not_twoPow {i : ℕ} (hi : i < width) :
    (word &&& ~~~twoPow width i).toNat = if word.toNat / 2 ^ i % 2 = 1 then word.toNat - 2 ^ i
      else word.toNat := by
  have hclear : (word &&& ~~~twoPow width i).getLsbD i ≠ true := by
    simp [hi]
  have hset := toNat_or_twoPow (word &&& ~~~twoPow width i) hi
  rw [if_neg (mt (getLsbD_iff _ i).mpr hclear)] at hset
  split
  case isTrue hbit =>
    rw [← getLsbD_iff] at hbit
    have hsame : (word &&& ~~~twoPow width i) ||| twoPow width i = word := by
      ext j hj
      by_cases hij : i = j
      · simp [← hij, ← getLsbD_eq_getElem, hbit, hi]
      · simp [getElem_twoPow, Ne.symm hij]
    rw [hsame] at hset
    omega
  case isFalse hbit =>
    rw [← getLsbD_iff] at hbit
    have hsame : word &&& ~~~twoPow width i = word := by
      ext j hj
      by_cases hij : i = j
      · subst hij
        simp_all [getElem_twoPow, getLsbD_eq_getElem]
      · simp [getElem_twoPow, Ne.symm hij]
    rw [hsame]

end Soda
