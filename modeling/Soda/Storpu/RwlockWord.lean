import Soda.Core.Words
import Soda.Storpu.Rwlock

/-!
# The fields of the lock word

The lock word holds two flags, a count of 29 bits and the bit of the writer.
Below the largest count each operation changes one of them.  Since the test of
a writer compares signed, it never fails.
-/

namespace Soda.Storpu

open BitVec

structure RwFields where
  pdWriters : Bool
  pdReaders : Bool
  readers : ℕ
  wrlocked : Bool
  deriving DecidableEq

def rwFields (state : BitVec 32) : RwFields where
  pdWriters := decide (state.toNat % 2 = 1)
  pdReaders := decide (state.toNat / 2 % 2 = 1)
  readers := state.toNat / 4 % 536870912
  wrlocked := decide (2147483648 ≤ state.toNat)

theorem rwsPd_reader_eq : rwsPd .reader = twoPow 32 1 := by
  decide

theorem rwsWrlocked_eq : rwsWrlocked = twoPow 32 31 := by
  decide

theorem rwWrlocked_eq (state : BitVec 32) : rwWrlocked state = (rwFields state).wrlocked := by
  have hlt := state.isLt
  rw [rwWrlocked, rwFields, decide_eq_decide, rwsWrlocked_eq, and_twoPow_ne_zero state (by decide)]
  omega

theorem canWrlock_eq_true (state : BitVec 32) : canWrlock state = true := by
  have hlt := state.isLt
  rw [canWrlock, rwWrlocked_eq, rwFields]
  have hsigned : rcntIncStep.sle state = decide (4 ≤ state.toInt) := rfl
  rw [hsigned, toInt_eq_toNat_cond]
  simp only [Bool.not_eq_true', Bool.and_eq_false_iff, decide_eq_false_iff_not]
  split <;> omega

theorem rwRdlocked_eq (state : BitVec 32) : rwRdlocked state = decide (4 ≤ state.toNat) := rfl

theorem pdReaders_iff (state : BitVec 32) :
    (state &&& rwsPd .reader) ≠ 0 ↔ (rwFields state).pdReaders = true := by
  rw [rwFields, decide_eq_true_eq, rwsPd_reader_eq, and_twoPow_ne_zero state (by decide), pow_one]

theorem rwFields_addReader {state : BitVec 32}
    (hreaders : (rwFields state).readers + 1 < 536870912) :
    rwFields (state + rcntIncStep) =
      { rwFields state with readers := (rwFields state).readers + 1 } := by
  have hlt := state.isLt
  have hadd : (state + rcntIncStep).toNat = (state.toNat + 4) % 2 ^ 32 :=
    toNat_add state rcntIncStep
  simp only [rwFields] at hreaders
  simp only [rwFields, hadd, RwFields.mk.injEq, decide_eq_decide]
  omega

theorem rwFields_subReader {state : BitVec 32} (hreaders : 0 < (rwFields state).readers) :
    rwFields (state - rcntIncStep) =
      { rwFields state with readers := (rwFields state).readers - 1 } := by
  have hlt := state.isLt
  have hsub : (state - rcntIncStep).toNat = (2 ^ 32 - 4 + state.toNat) % 2 ^ 32 :=
    toNat_sub state rcntIncStep
  simp only [rwFields] at hreaders
  simp only [rwFields, hsub, RwFields.mk.injEq, decide_eq_decide]
  omega

theorem rwFields_setPdReaders (state : BitVec 32) :
    rwFields (state ||| rwsPd .reader) = { rwFields state with pdReaders := true } := by
  have hlt := state.isLt
  have hor := toNat_or_twoPow state (i := 1) (by decide)
  rw [← rwsPd_reader_eq] at hor
  simp only [rwFields, RwFields.mk.injEq, decide_eq_decide, decide_eq_true_eq]
  split at hor <;> omega

theorem rwFields_clearPdReaders (state : BitVec 32) :
    rwFields (state &&& ~~~rwsPd .reader) = { rwFields state with pdReaders := false } := by
  have hlt := state.isLt
  have hand := toNat_and_not_twoPow state (i := 1) (by decide)
  rw [← rwsPd_reader_eq] at hand
  simp only [rwFields, RwFields.mk.injEq, decide_eq_decide, decide_eq_false_iff_not]
  split at hand <;> omega

theorem rwFields_setWrlocked (state : BitVec 32) :
    rwFields (state ||| rwsWrlocked) = { rwFields state with wrlocked := true } := by
  have hlt := state.isLt
  have hor := toNat_or_twoPow state (i := 31) (by decide)
  rw [← rwsWrlocked_eq] at hor
  simp only [rwFields, RwFields.mk.injEq, decide_eq_decide, decide_eq_true_eq]
  split at hor <;> omega

theorem rwFields_clearWrlocked (state : BitVec 32) :
    rwFields (state &&& ~~~rwsWrlocked) = { rwFields state with wrlocked := false } := by
  have hlt := state.isLt
  have hand := toNat_and_not_twoPow state (i := 31) (by decide)
  rw [← rwsWrlocked_eq] at hand
  simp only [rwFields, RwFields.mk.injEq, decide_eq_decide, decide_eq_false_iff_not]
  split at hand <;> omega

end Soda.Storpu
