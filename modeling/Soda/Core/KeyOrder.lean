import Mathlib

/-!
# Truncated keys

Keys are lists of attributes, each attribute with a comparison of its own.
Nulls come after all values.  A key may be truncated, and a missing attribute is
less than any that is there.  A search key is a list of values; how it compares
with a key that starts with these values is left open.
-/

namespace Soda.KeyOrder

open Std (TransCmp OrientedCmp)

variable {D : Type}

/-- Nulls last. -/
def compareNull (cmp : D → D → Ordering) : Option D → Option D → Ordering
  | some left, some right => cmp left right
  | some _, none => .lt
  | none, some _ => .gt
  | none, none => .eq

/-- The order of keys, from attribute `n` on. -/
def compareKeys (cmp : ℕ → D → D → Ordering) :
    ℕ → List (Option D) → List (Option D) → Ordering
  | _, [], [] => .eq
  | _, [], _ :: _ => .lt
  | _, _ :: _, [] => .gt
  | n, left :: lefts, right :: rights =>
    (compareNull (cmp n) left right).then
      (compareKeys cmp (n + 1) lefts rights)

/-- A search key against a key, from attribute `n` on.  `finish` is the result
where all values are equal; it is told whether the key ends there too. -/
def compareArgs (cmp : ℕ → D → D → Ordering) (finish : Bool → Ordering) :
    ℕ → List D → List (Option D) → Ordering
  | _, [], attrs => finish attrs.isEmpty
  | _, _ :: _, [] => .gt
  | n, arg :: args, attr :: attrs =>
    (compareNull (cmp n) (some arg) attr).then
      (compareArgs cmp finish (n + 1) args attrs)

/-- The order less, equal, greater. -/
def AtMost (left right : Ordering) : Prop := (left = .gt → right = .gt) ∧ (left ≠ .lt → right ≠ .lt)

theorem AtMost.refl (result : Ordering) : AtMost result result := ⟨id, id⟩

theorem atMost_gt (result : Ordering) : AtMost result .gt := ⟨fun _ => rfl, fun _ => by decide⟩

theorem lt_atMost (result : Ordering) : AtMost .lt result :=
  ⟨fun h => absurd h (by decide), fun h => absurd rfl h⟩

instance (cmp : D → D → Ordering) [OrientedCmp cmp] : OrientedCmp (compareNull cmp) where
  eq_swap {left right} := by
    cases left <;> cases right <;> simp only [compareNull, Ordering.swap]
    exact OrientedCmp.eq_swap

instance (cmp : D → D → Ordering) [TransCmp cmp] : TransCmp (compareNull cmp) where
  isLE_trans {first second third} hleft hright := by
    cases third with
    | none => cases first <;> rfl
    | some third =>
      cases second with
      | none => exact absurd hright (by simp [compareNull])
      | some second =>
        cases first with
        | none => exact absurd hleft (by simp [compareNull])
        | some first => exact @TransCmp.isLE_trans D cmp _ first second third hleft hright

variable {cmp : ℕ → D → D → Ordering} [∀ n, TransCmp (cmp n)]

/-- A search key compares with a larger key as less or the same. -/
theorem compareArgs_atMost {small large : Bool → Ordering}
    (hlonger : AtMost (large false) (small false))
    (hshorter : AtMost (large false) (small true)) (n : ℕ) (args : List D)
    (lefts rights : List (Option D)) (hle : compareKeys cmp n lefts rights ≠ .gt)
    (hended : compareKeys cmp n lefts rights = .eq → AtMost (large true) (small true)) :
    AtMost (compareArgs cmp large n args rights) (compareArgs cmp small n args lefts) := by
  induction args generalizing n lefts rights with
  | nil =>
    cases lefts with
    | nil =>
      cases rights with
      | nil => exact hended rfl
      | cons right rights => exact hshorter
    | cons left lefts =>
      cases rights with
      | nil => exact absurd rfl hle
      | cons right rights => exact hlonger
  | cons arg args ih =>
    cases lefts with
    | nil => exact atMost_gt _
    | cons left lefts =>
      cases rights with
      | nil => exact absurd rfl hle
      | cons right rights =>
        rw [compareKeys] at hle hended
        rw [compareArgs, compareArgs]
        cases hattr : compareNull (cmp n) left right with
        | gt =>
          rw [hattr] at hle
          exact absurd rfl hle
        | eq =>
          rw [hattr] at hle hended
          rw [TransCmp.congr_right hattr]
          cases compareNull (cmp n) (some arg) right with
          | lt | gt => exact AtMost.refl _
          | eq => exact ih (n + 1) lefts rights hle hended
        | lt =>
          have hflip := OrientedCmp.gt_of_lt hattr
          cases harg : compareNull (cmp n) (some arg) right with
          | lt => exact lt_atMost _
          | gt =>
            rw [TransCmp.gt_trans harg hflip]
            exact atMost_gt _
          | eq =>
            rw [TransCmp.gt_of_eq_of_gt harg hflip]
            exact atMost_gt _

/-- Between a search key and a key that agree in their first attribute, the first
attribute makes no difference. -/
theorem compare_tail {last : Bool → Ordering} {n : ℕ} {arg : D}
    {args : List D} {left right : Option D} {lefts rights : List (Option D)}
    (hle : compareKeys cmp n (left :: lefts) (right :: rights) ≠ .gt)
    (harg : compareArgs cmp last n (arg :: args) (left :: lefts) ≠ .gt)
    (hequal : compareNull (cmp n) (some arg) right = .eq) :
    compareKeys cmp (n + 1) lefts rights ≠ .gt ∧ compareArgs cmp last (n + 1) args lefts ≠ .gt := by
  rw [compareKeys] at hle
  rw [compareArgs] at harg
  cases hattr : compareNull (cmp n) left right with
  | gt =>
    rw [hattr] at hle
    exact absurd rfl hle
  | lt =>
    have hless : compareNull (cmp n) left (some arg) = .lt :=
      TransCmp.lt_of_lt_of_eq hattr (OrientedCmp.eq_symm hequal)
    rw [OrientedCmp.gt_of_lt hless] at harg
    exact absurd rfl harg
  | eq =>
    rw [hattr] at hle
    rw [TransCmp.congr_right hattr, hequal] at harg
    exact ⟨hle, harg⟩

theorem compare_drop {last : Bool → Ordering} (count n : ℕ) (args : List D)
    (lefts rights : List (Option D)) (hle : compareKeys cmp n lefts rights ≠ .gt)
    (harg : compareArgs cmp last n args lefts ≠ .gt) (hlefts : count ≤ lefts.length)
    (hequal : ∀ place < count, ∃ arg ∈ args[place]?, ∃ right ∈ rights[place]?,
        compareNull (cmp (n + place)) (some arg) right = .eq) :
    compareKeys cmp (n + count) (lefts.drop count) (rights.drop count) ≠ .gt ∧
      compareArgs cmp last (n + count) (args.drop count) (lefts.drop count) ≠ .gt := by
  induction count generalizing n args lefts rights with
  | zero => exact ⟨hle, harg⟩
  | succ count ih =>
    obtain ⟨arg, harg0, right, hright0, hfirst⟩ := hequal 0 (Nat.succ_pos _)
    cases args with
    | nil => exact absurd harg0 (by simp)
    | cons head args =>
      cases rights with
      | nil => exact absurd hright0 (by simp)
      | cons front rights =>
        cases lefts with
        | nil => exact absurd hlefts (by simp)
        | cons left lefts =>
          rw [List.getElem?_cons_zero, Option.mem_some_iff] at harg0 hright0
          subst harg0 hright0
          obtain ⟨hkeys, hargs⟩ := compare_tail hle harg hfirst
          have hrest := ih (n + 1) args lefts rights hkeys hargs (Nat.le_of_succ_le_succ hlefts) (by
              intro place hplace
              have hnext := hequal (place + 1) (Nat.succ_lt_succ hplace)
              rwa [← add_assoc, add_right_comm] at hnext)
          rw [add_right_comm] at hrest
          exact hrest

end Soda.KeyOrder
