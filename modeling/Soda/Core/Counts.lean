import Mathlib

/-!
# Counting threads by their place

How many threads are at a place with some property, and how the number changes
when one of them moves.
-/

namespace Soda

open Function Finset

variable {T V : Type} [Fintype T] {p : V → Bool} {places other : T → V}

def countWhere (p : V → Bool) (places : T → V) : ℕ :=
  (univ.filter fun t => p (places t) = true).card

theorem countWhere_congr (hsame : ∀ t, p (places t) = p (other t)) :
    countWhere p places = countWhere p other := by
  rw [countWhere, countWhere]
  simp only [hsame]

theorem countWhere_pos {t : T} (ht : p (places t) = true) : 0 < countWhere p places :=
  card_pos.mpr ⟨t, mem_filter.mpr ⟨mem_univ t, ht⟩⟩

theorem countWhere_eq_zero (hnone : ∀ t, p (places t) = false) : countWhere p places = 0 := by
  rw [countWhere, card_eq_zero, filter_eq_empty_iff]
  intro t _ ht
  exact Bool.false_ne_true ((hnone t).symm.trans ht)

variable [DecidableEq T] {t : T} {place : V}

omit [Fintype T] in
/-- A sum over places when the value at one of them changes. -/
theorem sum_update_add (f : V → ℕ) {range : Finset T} (ht : t ∈ range) :
    (∑ u ∈ range, f (update places t place u)) + f (places t) =
      (∑ u ∈ range, f (places u)) + f place := by
  have hrest : ∑ u ∈ range.erase t, f (update places t place u) =
      ∑ u ∈ range.erase t, f (places u) := by
    apply sum_congr rfl
    intro u hu
    rw [update_of_ne (ne_of_mem_erase hu)]
  rw [← add_sum_erase range _ ht, hrest, update_self,
    ← add_sum_erase range (fun u => f (places u)) ht]
  ring

theorem countWhere_update :
    countWhere p (update places t place) + (if p (places t) = true then 1 else 0) =
      countWhere p places + (if p place = true then 1 else 0) := by
  rw [countWhere, countWhere, card_filter, card_filter]
  exact sum_update_add (fun value => if p value = true then 1 else 0) (mem_univ t)

theorem countWhere_update_same (hsame : p place = p (places t)) :
    countWhere p (update places t place) = countWhere p places := by
  have hupdate := @countWhere_update T V _ p places _ t place
  rw [hsame] at hupdate
  omega

theorem countWhere_update_enter (hleft : p (places t) = false) (hright : p place = true) :
    countWhere p (update places t place) = countWhere p places + 1 := by
  have hupdate := @countWhere_update T V _ p places _ t place
  rw [hleft, hright] at hupdate
  simpa using hupdate

theorem countWhere_update_leave (hleft : p (places t) = true) (hright : p place = false) :
    countWhere p (update places t place) = countWhere p places - 1 := by
  have hupdate := @countWhere_update T V _ p places _ t place
  rw [hleft, hright] at hupdate
  simp only [if_true, Bool.false_eq_true, if_false] at hupdate
  omega

end Soda
