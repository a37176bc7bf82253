import Mathlib

/-!
# Mixed-radix digits

The digits of a number for a list of bases, the least significant first.  The
digits of the numbers in any window as long as the product of the bases run
through every admissible list of digits exactly once.
-/

namespace Soda.MixedRadix

def digits : List ℕ → ℕ → List ℕ
  | [], _ => []
  | base :: bases, n => n % base :: digits bases (n / base)

def value : List ℕ → List ℕ → ℕ
  | base :: bases, digit :: rest => digit + base * value bases rest
  | _, _ => 0

variable {bases : List ℕ}

theorem digits_lt (hpos : ∀ base ∈ bases, 0 < base) (n : ℕ) :
    List.Forall₂ (· < ·) (digits bases n) bases := by
  induction bases generalizing n with
  | nil => exact List.Forall₂.nil
  | cons base bases ih =>
    have hbase : 0 < base := hpos base List.mem_cons_self
    have hrest : ∀ other ∈ bases, 0 < other := fun other hmem => hpos other (.tail _ hmem)
    exact List.Forall₂.cons (Nat.mod_lt _ hbase) (ih hrest _)

theorem value_digits (bases : List ℕ) (n : ℕ) : value bases (digits bases n) = n % bases.prod := by
  induction bases generalizing n with
  | nil => rw [List.prod_nil, Nat.mod_one, value.eq_def]
  | cons base bases ih =>
    calc
      value (base :: bases) (digits (base :: bases) n) =
          n % base + base * value bases (digits bases (n / base)) := rfl
      _ = n % base + base * (n / base % bases.prod) := by rw [ih]
      _ = n % (base :: bases).prod := by
        rw [List.prod_cons, Nat.mod_mul]

variable {ds : List ℕ}

theorem value_lt (hdigits : List.Forall₂ (· < ·) ds bases) : value bases ds < bases.prod := by
  induction hdigits with
  | nil => norm_num [value]
  | @cons digit base ds bases hdigit _ ih =>
    calc
      value (base :: bases) (digit :: ds) = digit + base * value bases ds := rfl
      _ < base + base * value bases ds := Nat.add_lt_add_right hdigit _
      _ = base * (value bases ds + 1) := by ring
      _ ≤ base * bases.prod := Nat.mul_le_mul_left _ ih
      _ = (base :: bases).prod := List.prod_cons.symm

theorem digits_value (hdigits : List.Forall₂ (· < ·) ds bases) :
    digits bases (value bases ds) = ds := by
  induction hdigits with
  | nil => rfl
  | @cons digit base ds bases hdigit _ ih =>
    have hpos : 0 < base := Nat.lt_of_le_of_lt (Nat.zero_le _) hdigit
    have hmod : (digit + base * value bases ds) % base = digit := by
      rw [Nat.add_mul_mod_self_left, Nat.mod_eq_of_lt hdigit]
    have hdiv : (digit + base * value bases ds) / base = value bases ds := by
      rw [Nat.add_mul_div_left _ _ hpos, Nat.div_eq_of_lt hdigit, Nat.zero_add]
    simp only [value, digits, hmod, hdiv, ih]

/-- Two numbers have the same digits when they agree modulo the product. -/
theorem digits_eq_iff (hpos : ∀ base ∈ bases, 0 < base) (n : ℕ)
    (hdigits : List.Forall₂ (· < ·) ds bases) :
    digits bases n = ds ↔ n % bases.prod = value bases ds := by
  constructor
  · intro heq
    rw [← value_digits, heq]
  · intro heq
    rw [← digits_value (digits_lt hpos n), value_digits, heq, digits_value hdigits]

/-- A window as long as the modulus meets every residue once. -/
theorem existsUnique_mod_eq (start : ℕ) {modulus residue : ℕ} (hlt : residue < modulus) :
    ∃! n, (start ≤ n ∧ n < start + modulus) ∧ n % modulus = residue := by
  have hpos : 0 < modulus := Nat.lt_of_le_of_lt (Nat.zero_le _) hlt
  have hstart : start % modulus < modulus := Nat.mod_lt _ hpos
  let gap := (residue + (modulus - start % modulus)) % modulus
  have hgap : gap < modulus := Nat.mod_lt _ hpos
  have hsum : start + (residue + (modulus - start % modulus)) =
      residue + modulus * (start / modulus + 1) := by
    have hsplit := Nat.div_add_mod start modulus
    rw [mul_add, mul_one]
    omega
  refine ⟨start + gap, ⟨⟨by omega, by omega⟩, ?_⟩, ?_⟩
  · calc
      (start + gap) % modulus = (start + (residue + (modulus - start % modulus))) % modulus :=
        Nat.add_mod_mod _ _ _
      _ = residue := by
        rw [hsum, Nat.add_mul_mod_self_left, Nat.mod_eq_of_lt hlt]
  · rintro other ⟨⟨hlow, hhigh⟩, hresidue⟩
    have hmod : start + gap ≡ other [MOD modulus] := by
      rw [Nat.ModEq, hresidue, Nat.add_mod_mod, hsum, Nat.add_mul_mod_self_left,
        Nat.mod_eq_of_lt hlt]
    rcases le_total (start + gap) other with hle | hle
    · have hdvd := (Nat.modEq_iff_dvd' hle).mp hmod
      have hzero := Nat.eq_zero_of_dvd_of_lt hdvd (by omega)
      omega
    · have hdvd := (Nat.modEq_iff_dvd' hle).mp hmod.symm
      have hzero := Nat.eq_zero_of_dvd_of_lt hdvd (by omega)
      omega

theorem existsUnique_digits_eq (hpos : ∀ base ∈ bases, 0 < base) (start : ℕ)
    (hdigits : List.Forall₂ (· < ·) ds bases) :
    ∃! n, (start ≤ n ∧ n < start + bases.prod) ∧ digits bases n = ds := by
  simp only [digits_eq_iff hpos _ hdigits]
  exact existsUnique_mod_eq start (value_lt hdigits)

end Soda.MixedRadix
