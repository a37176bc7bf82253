import Mathlib

/-!
# Logs written into a ring of slots

The entries of a growing log are written into a ring of `depth` slots, entry
`k` into slot `k % depth`.  Two entries less than `depth` apart have different
slots, so the ring holds the entries from `low` on as long as there are at most
`depth` of them.  A consumer that knows its own position alone can tell a new
entry from an old one by a phase bit that changes at every lap.
-/

namespace Soda

open Function

variable {α β : Type} {depth : ℕ}

theorem slot_injective {i j : ℕ} (hle : i ≤ j) (hlt : j < i + depth)
    (hslot : i % depth = j % depth) : i = j := by
  have hdvd : depth ∣ j - i := (Nat.modEq_iff_dvd' hle).mp hslot
  have hzero : j - i = 0 := Nat.eq_zero_of_dvd_of_lt hdvd (by omega)
  omega

variable {k low : ℕ} {cell : ℕ → β} {encode : α → β} {log : List α}

theorem succ_slot_of_lt (hlt : k % depth + 1 < depth) :
    (k + 1) / depth = k / depth ∧ (k + 1) % depth = k % depth + 1 := by
  rw [Nat.div_mod_unique (by omega)]
  have hk := Nat.mod_add_div k depth
  constructor
  · omega
  · exact hlt

theorem succ_slot_of_eq (heq : k % depth + 1 = depth) :
    (k + 1) / depth = k / depth + 1 ∧ (k + 1) % depth = 0 := by
  rw [Nat.div_mod_unique (by omega)]
  have hk := Nat.mod_add_div k depth
  constructor
  · rw [mul_add]
    omega
  · omega

/-- A position that is set back to zero where it reaches `depth`. -/
theorem succ_slot (hdepth : 0 < depth) (k : ℕ) :
    (k + 1) % depth = if k % depth + 1 = depth then 0 else k % depth + 1 := by
  have hlt := Nat.mod_lt k hdepth
  split_ifs with heq
  · exact (succ_slot_of_eq heq).2
  · exact (succ_slot_of_lt (by omega)).2

/-- The phase bit of entry `k`: 1 on the first lap, 0 on the second. -/
def lapPhase (depth k : ℕ) : ℕ := (k / depth + 1) % 2

theorem succ_mod_two (n : ℕ) : (n + 1) % 2 = (n % 2) ^^^ 1 := by
  rcases Nat.mod_two_eq_zero_or_one n with heven | hodd
  · rw [heven]
    show (n + 1) % 2 = 1
    omega
  · rw [hodd]
    show (n + 1) % 2 = 0
    omega

theorem lapPhase_succ (hdepth : 0 < depth) (k : ℕ) :
    lapPhase depth (k + 1) = if k % depth + 1 = depth then lapPhase depth k ^^^ 1
      else lapPhase depth k := by
  have hlt := Nat.mod_lt k hdepth
  split_ifs with heq
  · rw [lapPhase, (succ_slot_of_eq heq).1, succ_mod_two, lapPhase]
  · rw [lapPhase, (succ_slot_of_lt (by omega)).1, lapPhase]

theorem lapPhase_add_depth (hdepth : 0 < depth) (k : ℕ) :
    lapPhase depth (k + depth) = lapPhase depth k ^^^ 1 := by
  rw [lapPhase, Nat.add_div_right k hdepth, succ_mod_two, lapPhase]

theorem phase_flip_ne (depth k : ℕ) : lapPhase depth k ^^^ 1 ≠ lapPhase depth k := by
  rcases Nat.mod_two_eq_zero_or_one (k / depth + 1) with hphase | hphase
  · rw [lapPhase, hphase]
    decide
  · rw [lapPhase, hphase]
    decide

/-- The ring holds the entries of the log from `low` on. -/
def RingHolds (depth : ℕ) (cell : ℕ → β) (encode : α → β) (log : List α) (low : ℕ) : Prop :=
  ∀ k entry, low ≤ k → log[k]? = some entry → cell (k % depth) = encode entry

theorem RingHolds.mono {low' : ℕ} (hholds : RingHolds depth cell encode log low)
    (hle : low ≤ low') : RingHolds depth cell encode log low' := by
  intro k entry hk hentry
  exact hholds k entry (hle.trans hk) hentry

theorem RingHolds.push (hholds : RingHolds depth cell encode log low)
    (hroom : log.length < low + depth) (entry : α) :
    RingHolds depth (update cell (log.length % depth) (encode entry))
      encode (log ++ [entry]) low := by
  intro k found hk hfound
  rcases lt_trichotomy k log.length with hlt | heq | hgt
  · rw [List.getElem?_append_left hlt] at hfound
    have hslot : k % depth ≠ log.length % depth := by
      intro hslot
      have := slot_injective hlt.le (by omega) hslot
      omega
    rw [update_of_ne hslot]
    exact hholds k found hk hfound
  · subst heq
    rw [List.getElem?_append_right le_rfl, Nat.sub_self] at hfound
    rw [update_self, Option.some.inj hfound]
  · rw [List.getElem?_eq_none (by simpa using hgt)] at hfound
    cases hfound

end Soda
