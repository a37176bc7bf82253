import Mathlib

/-!
# Cursors

A cursor stands on one of `count` places or on none of them.  It moves one
place forward or backward, and moving off either end leaves it on no place, from
where it starts again.
-/

namespace Soda

namespace Cursor

/-- One place forward; a cursor on no place starts at the first one. -/
def forward (count : ℕ) : Option ℕ → Option ℕ
  | none => if 0 < count then some 0 else none
  | some place => if place + 1 < count then some (place + 1) else none

/-- One place backward; a cursor on no place starts at the last one. -/
def backward (count : ℕ) : Option ℕ → Option ℕ
  | none => if 0 < count then some (count - 1) else none
  | some 0 => none
  | some (place + 1) => some place

/-- The number of places a cursor has passed, its own included. -/
def passed : Option ℕ → ℕ
  | none => 0
  | some place => place + 1

@[simp] theorem passed_none : passed none = 0 := rfl

@[simp] theorem passed_some (place : ℕ) : passed (some place) = place + 1 := rfl

variable {count : ℕ} {cursor : Option ℕ}

theorem forward_of_lt (hlt : passed cursor < count) :
    forward count cursor = some (passed cursor) := by
  cases cursor with
  | none | some place => exact if_pos hlt

theorem forward_of_le (hle : count ≤ passed cursor) : forward count cursor = none := by
  cases cursor with
  | none | some place => exact if_neg (not_lt.mpr hle)

end Cursor

end Soda
