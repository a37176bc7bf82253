import Mathlib

/-!
# Lists

Members of lists that are related position by position, what is left of a list
without duplicates, and ranges of sorted lists.
-/

namespace Soda

open List

variable {α β : Type}

section Related

variable {rel : α → β → Prop} {xs : List α} {ys : List β}

theorem exists_of_mem_left {x : α} (hrel : List.Forall₂ rel xs ys)
    (hmem : x ∈ xs) : ∃ y ∈ ys, rel x y := by
  induction hrel with
  | nil => exact absurd hmem not_mem_nil
  | cons hhead _ ih =>
    rcases mem_cons.mp hmem with rfl | hrest
    · exact ⟨_, mem_cons_self, hhead⟩
    · obtain ⟨y, hy, hrel⟩ := ih hrest
      exact ⟨y, mem_cons_of_mem _ hy, hrel⟩

theorem exists_of_mem_right {y : β} (hrel : List.Forall₂ rel xs ys)
    (hmem : y ∈ ys) : ∃ x ∈ xs, rel x y :=
  exists_of_mem_left hrel.flip hmem

end Related

theorem mem_drop_iff_notMem_take {xs : List α} (hnodup : xs.Nodup) (count : ℕ) (x : α) :
    x ∈ xs.drop count ↔ x ∈ xs ∧ x ∉ xs.take count := by
  have hdisjoint := disjoint_take_drop hnodup (le_refl count)
  constructor
  · intro hdrop
    exact ⟨mem_of_mem_drop hdrop, fun htake => hdisjoint htake hdrop⟩
  · rintro ⟨hmem, htake⟩
    rw [← take_append_drop count xs, mem_append] at hmem
    exact hmem.resolve_left htake

/-! ### Ranges of sorted lists -/

section Sorted

variable {κ : Type} [LinearOrder κ] {key : α → κ} {xs : List α}

variable {x : α}

variable (hsorted : xs.Pairwise fun left right => key left < key right)
include hsorted

/-- Skipping the small keys leaves exactly the others. -/
theorem mem_dropWhile_lt {bound : κ} :
    x ∈ xs.dropWhile (fun x => key x < bound) ↔ x ∈ xs ∧ bound ≤ key x := by
  induction xs with
  | nil => simp
  | cons y ys ih =>
    rw [pairwise_cons] at hsorted
    rw [dropWhile_cons]
    split
    · rename_i hlt
      rw [ih hsorted.2, mem_cons]
      constructor
      · rintro ⟨hmem, hle⟩
        exact ⟨.inr hmem, hle⟩
      · rintro ⟨rfl | hmem, hle⟩
        · exact absurd (of_decide_eq_true hlt) (not_lt.mpr hle)
        · exact ⟨hmem, hle⟩
    · rename_i hge
      have hle : bound ≤ key y := by simpa using hge
      constructor
      · intro hmem
        refine ⟨hmem, ?_⟩
        rcases mem_cons.mp hmem with rfl | hrest
        · exact hle
        · exact hle.trans (hsorted.1 x hrest).le
      · exact And.left

/-- Stopping at the first key out of range loses nothing in range, when the
range is closed downwards. -/
theorem mem_takeWhile_of_sorted {p : α → Bool}
    (hclosed : ∀ left ∈ xs, ∀ right ∈ xs, key left < key right → p right →
      p left) : x ∈ xs.takeWhile p ↔ x ∈ xs ∧ p x := by
  induction xs with
  | nil => simp
  | cons y ys ih =>
    rw [pairwise_cons] at hsorted
    rw [takeWhile_cons]
    split
    · rename_i hpy
      rw [mem_cons, ih hsorted.2, mem_cons]
      · constructor
        · rintro (rfl | ⟨hmem, hp⟩)
          · exact ⟨.inl rfl, hpy⟩
          · exact ⟨.inr hmem, hp⟩
        · rintro ⟨rfl | hmem, hp⟩
          · exact .inl rfl
          · exact .inr ⟨hmem, hp⟩
      · intro left hleft right hright
        exact hclosed left (.tail y hleft) right (.tail y hright)
    · rename_i hpy
      refine ⟨fun hmem => absurd hmem not_mem_nil, ?_⟩
      rintro ⟨hmem, hp⟩
      rcases mem_cons.mp hmem with rfl | hrest
      · exact absurd hp hpy
      · exact absurd (hclosed y mem_cons_self x hmem (hsorted.1 x hrest) hp) hpy

/-- The first elements of a sorted list are those up to the last of them. -/
theorem mem_take_of_le_getLast {n : ℕ} {last : α}
    (hlast : (xs.take n).getLast? = some last) (hmem : x ∈ xs)
    (hle : key x ≤ key last) : x ∈ xs.take n := by
  rw [← take_append_drop n xs, mem_append] at hmem
  rcases hmem with htake | hdrop
  · exact htake
  · rw [← take_append_drop n xs, pairwise_append] at hsorted
    have hlt := hsorted.2.2 last (mem_of_getLast? hlast) x hdrop
    exact absurd hle (not_le.mpr hlt)

end Sorted

end Soda
