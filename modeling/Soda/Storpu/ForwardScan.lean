import Soda.Storpu.HeapCursor

/-!
# Forward scans and the state of line pointers

The scan never looks at the state of a line pointer: a dead, redirected or
unused one is read as if a tuple were behind it.  Repeated forward calls return
the stored tuples exactly when no such reading passes the keys.
-/

namespace Soda.Storpu

open List Cursor HeapRel

variable {D : Type} {rel : HeapRel D} {keys : List (ScanKey D)} {scan : HeapScan D}

def forwardScan (rel : HeapRel D) :
    ℕ → HeapScan D → Option (List (Option HeapTuple))
  | 0, _ => some []
  | calls + 1, scan => do
      let (tuple, scan) ← heapGetnext rel scan .forward
      let rest ← forwardScan rel calls scan
      some (tuple :: rest)

/-- The tuples come one after another, and the call after the last one returns
`NULL`. -/
theorem forwardScan_eq {place : Option ℕ} (calls : ℕ) (hsits : Sits rel keys scan place)
    (hcalls : passed place + calls ≤ (rel.matching keys).length + 1) :
    forwardScan rel calls scan = some ((range' (passed place) calls).map
        fun index => (rel.matching keys)[index]?) := by
  induction calls generalizing scan place with
  | zero => rfl
  | succ calls ih =>
    obtain ⟨scan', hnext, hsits'⟩ := heapGetnext_forward hsits
    rw [forwardScan, hnext, Option.bind_eq_bind, Option.bind_some]
    dsimp only
    rw [range'_succ, map_cons]
    by_cases hlt : passed place < (rel.matching keys).length
    · rw [forward_of_lt hlt] at hsits' ⊢
      rw [ih hsits' (by rw [passed_some]; omega)]
      rfl
    · have hzero : calls = 0 := by omega
      have hend : (rel.matching keys)[passed place]? = none := getElem?_eq_none (not_lt.mp hlt)
      rw [forward_of_le (not_lt.mp hlt), hzero, hend]
      rfl

/-- The line pointer that a tuple was read from is in use. -/
def HeapRel.isNormal (rel : HeapRel D) (tuple : HeapTuple) : Bool :=
  ((rel.page tuple.tSelf.block).itemId tuple.tSelf.posid).lpFlags == .normal

/-- The tuples behind normal line pointers that satisfy all keys, in block and
line order. -/
def HeapRel.stored (rel : HeapRel D) (keys : List (ScanKey D)) : List HeapTuple :=
  rel.tuples.filter fun tuple => rel.isNormal tuple && tuple.passes rel keys

/-- Repeated forward calls return the stored tuples and then `NULL`. -/
def ReturnsStored (rel : HeapRel D) (keys : List (ScanKey D)) : Prop :=
  forwardScan rel ((rel.stored keys).length + 1) (heapBeginscan rel keys) =
    some ((rel.stored keys).map some ++ [none])

theorem map_getElem?_range {α : Type} (values : List α) :
    (range (values.length + 1)).map (fun index => values[index]?) = values.map some ++ [none] := by
  induction values with
  | nil => rfl
  | cons value values ih =>
    rw [length_cons, range_succ_eq_map, map_cons, map_map, map_cons, cons_append, ← ih]
    rfl

theorem forwardScan_heapBeginscan (rel : HeapRel D) (keys : List (ScanKey D))
    (calls : ℕ) (hcalls : calls ≤ (rel.matching keys).length + 1) :
    forwardScan rel calls (heapBeginscan rel keys) = some ((range calls).map
        fun index => (rel.matching keys)[index]?) := by
  rw [forwardScan_eq calls sits_heapBeginscan (by simpa using hcalls), range_eq_range', passed_none]

theorem stored_eq_filter_matching : rel.stored keys = (rel.matching keys).filter rel.isNormal := by
  rw [stored, matching, filter_filter]

theorem mem_tuples {tuple : HeapTuple} :
    tuple ∈ rel.tuples ↔ ∃ block < rel.relpages, ∃ off, 1 ≤ off ∧
      off ≤ rel.lines block ∧ tuple = rel.tupleAt block off := by
  simp only [tuples, blockTuples, mem_flatMap, mem_range, mem_map, mem_range'_1]
  constructor
  · rintro ⟨block, hblock, off, hoff, rfl⟩
    exact ⟨block, hblock, off, hoff.1, by omega, rfl⟩
  · rintro ⟨block, hblock, off, hfirst, hlast, rfl⟩
    exact ⟨block, hblock, off, ⟨hfirst, by omega⟩, rfl⟩

/-- The scan returns exactly the stored tuples if and only if the bytes behind
every line pointer that is not normal, read as a tuple, fail some key. -/
theorem returnsStored_iff (rel : HeapRel D) (keys : List (ScanKey D)) :
    ReturnsStored rel keys ↔ ∀ block < rel.relpages, ∀ off, 1 ≤ off → off ≤ rel.lines block →
        ((rel.page block).itemId off).lpFlags ≠ .normal →
          heapKeyTest rel ((rel.page block).bytes.drop
            ((rel.page block).itemId off).lpOff) keys = false := by
  rw [ReturnsStored, forwardScan_heapBeginscan rel keys _ (by
    rw [stored_eq_filter_matching]
    exact Nat.succ_le_succ (length_filter_le _ _)), Option.some.injEq]
  constructor
  · intro hreturns block hblock off hfirst hlast hstate
    by_contra hpass
    rw [Bool.not_eq_false] at hpass
    -- the call after the last stored tuple returns nothing, so that there is
    -- no further tuple that passes
    have hend := congrArg (fun results => results[(rel.stored keys).length]?) hreturns
    simp only [getElem?_map, getElem?_range (Nat.lt_succ_self _), Option.map_some] at hend
    have hlength : (rel.matching keys).length ≤ (rel.stored keys).length := by
      simpa using hend
    have hall : rel.stored keys = rel.matching keys := by
      rw [stored_eq_filter_matching] at hlength ⊢
      exact filter_sublist.eq_of_length_le hlength
    have hmem : rel.tupleAt block off ∈ rel.stored keys := by
      rw [hall]
      exact mem_filter.mpr ⟨mem_tuples.mpr ⟨block, hblock, off, hfirst, hlast, rfl⟩, hpass⟩
    have hnormal := (Bool.and_eq_true_iff.mp (mem_filter.mp hmem).2).1
    exact hstate (beq_iff_eq.mp hnormal)
  · intro hfails
    have hall : rel.stored keys = rel.matching keys := by
      rw [stored_eq_filter_matching]
      apply filter_eq_self.mpr
      intro tuple hmem
      obtain ⟨htuple, hpass⟩ := mem_filter.mp hmem
      obtain ⟨block, hblock, off, hfirst, hlast, rfl⟩ := mem_tuples.mp htuple
      by_contra hstate
      have hfail := hfails block hblock off hfirst hlast fun hnormal =>
        hstate (beq_iff_eq.mpr hnormal)
      exact absurd (hpass.symm.trans hfail) Bool.true_eq_false.mp
    rw [hall]
    exact map_getElem?_range _

def deadLine : HeapRel ℕ where
  pages := [⟨[7], [⟨0, .dead, 1⟩]⟩]
  getattr := fun _ _ => none

/-- Without keys the dead line pointer is returned as a tuple. -/
theorem not_returnsStored_deadLine : ¬ReturnsStored deadLine [] := by
  intro hreturns
  have hfirst : forwardScan deadLine 1 (heapBeginscan deadLine []) =
      some [some ⟨1, ⟨0, 1⟩, some [7]⟩] := rfl
  have hstored : forwardScan deadLine 1 (heapBeginscan deadLine []) = some [none] := hreturns
  rw [hfirst] at hstored
  exact absurd hstored (by decide)

end Soda.Storpu
