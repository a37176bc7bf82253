import Mathlib

/-!
# Bisection

Bisection of an interval by a test that may fail to give a result.  If the test
is true up to some place and false from there on, that place is found.
-/

namespace Soda

/-- The first argument bounds the number of halvings; the length of the interval
is always enough. -/
def bisect (test : ℕ → Option Bool) : ℕ → ℕ → ℕ → Option ℕ
  | 0, low, _ => some low
  | fuel + 1, low, high =>
    if high > low then do
      let mid := low + (high - low) / 2
      if ← test mid then bisect test fuel (mid + 1) high
      else bisect test fuel low mid
    else some low

theorem bisect_eq_some (test : ℕ → Option Bool) (before : ℕ → Bool)
    (fuel low high : ℕ) (hle : low ≤ high) (hfuel : high - low ≤ fuel)
    (htest : ∀ place, low ≤ place → place < high → test place = some (before place))
    (hclosed : ∀ place later, low ≤ place → place ≤ later → later < high →
      before later = true → before place = true) :
    ∃ cut, bisect test fuel low high = some cut ∧ low ≤ cut ∧ cut ≤ high ∧
      (∀ place, low ≤ place → place < cut → before place = true) ∧
      (∀ place, cut ≤ place → place < high → before place = false) := by
  induction fuel generalizing low high with
  | zero => exact ⟨low, rfl, by omega, hle, by omega, by omega⟩
  | succ fuel ih =>
    rw [bisect]
    by_cases hlt : high > low
    · rw [if_pos hlt]
      generalize hmid : low + (high - low) / 2 = mid
      have hlow : low ≤ mid := by omega
      have hhigh : mid < high := by omega
      simp only [htest mid hlow hhigh, Option.bind_eq_bind, Option.bind_some]
      cases hbefore : before mid with
      | true =>
        obtain ⟨cut, hcut, hfrom, hto, hbelow, habove⟩ :=
          ih (mid + 1) high (by omega) (by omega) (fun place hplace => htest place (by omega))
            (fun place later hplace => hclosed place later (by omega))
        refine ⟨cut, hcut, by omega, hto, ?_, habove⟩
        intro place hplace hless
        by_cases hsmall : place ≤ mid
        · exact hclosed place mid hplace hsmall hhigh hbefore
        · exact hbelow place (by omega) hless
      | false =>
        obtain ⟨cut, hcut, hfrom, hto, hbelow, habove⟩ :=
          ih low mid (by omega) (by omega) (fun place hplace hless => htest place hplace (by omega))
            (fun place later hplace hle hless => hclosed place later hplace hle (by omega))
        refine ⟨cut, hcut, hfrom, by omega, hbelow, ?_⟩
        intro place hplace hless
        by_cases hsmall : place < mid
        · exact habove place hplace hsmall
        · -- a place past the middle that passed would make the middle pass
          apply Bool.eq_false_iff.mpr
          intro hpass
          have hmiddle := hclosed mid place hlow (by omega) hless hpass
          rw [hbefore] at hmiddle
          exact absurd hmiddle (by simp)
    · rw [if_neg hlt]
      exact ⟨low, rfl, by omega, hle, by omega, by omega⟩

end Soda
