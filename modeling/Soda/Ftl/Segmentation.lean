import Soda.Ftl.Segments

/-!
# Segmentation in 32-bit counts

`segment_user_request` counts the sectors it has cut off in an `unsigned int`,
and a transaction is allocated in every round.  Where the last page boundary of
a request lies less than `2 ^ 32` sectors after its start, the count does not
wrap around and the loop computes `segments`.  Otherwise the test for the last
piece fails and the loop starts over.
-/

namespace Soda

open List Txn

variable {D : Type}

/-- Size of the next piece, with the 32-bit sum of the test. -/
def pieceSize (sectorCount count slba : ℕ) : ℕ :=
  let txnSize := sectorsPerFlashPg - slba % sectorsPerFlashPg
  if sectorCount < (count + txnSize) % 2 ^ 32 then sectorCount - count
  else txnSize

/-- The loop of `segment_user_request`, for so many rounds at most: the return
value and the transaction list.  `grants` says which allocations succeed. -/
def segmentRounds [Zero D] (req : Request D) (grants : ℕ → Bool) :
    ℕ → ℕ → ℕ → ℕ → List (Txn D) → Option (Status × List (Txn D))
  | 0, _, _, _, _ => none
  | rounds + 1, round, count, slba, txnList =>
    if count < req.sectorCount then
      let txnSize := pieceSize req.sectorCount count slba
      if grants round then
        segmentRounds req grants rounds (round + 1) ((count + txnSize) % 2 ^ 32)
          ((slba + txnSize) % 2 ^ 64) (txnList ++ [segmentTxn req slba txnSize])
      else some (some .enomem, [])
    else some (none, txnList)

def Txn.lbas (txn : Txn D) : List ℕ := txn.sectors.map (txn.lpa * sectorsPerFlashPg + ·)

/-- The transactions of a request cut it into pieces of one page each. -/
structure Partitions (req : Request D) (txns : List (Txn D)) : Prop where
  ascending : txns.Pairwise fun left right => left.lpa < right.lpa
  inPage : ∀ txn ∈ txns, 0 < txn.length ∧
    txn.offset + txn.length ≤ sectorsPerFlashPg <<< sectorShift
  aligned : ∀ txn ∈ txns, txn.Aligned
  exact : ∀ txn ∈ txns, txn.Exact
  disjoint : txns.Pairwise fun left right => left.lbas.Disjoint right.lbas
  covers : ∀ lba, (∃ txn ∈ txns, lba ∈ txn.lbas) ↔
    req.startLba ≤ lba ∧ lba < req.startLba + req.sectorCount

/-- What a return of `segment_user_request` says about the transaction list. -/
def Segmented (req : Request D) (grants : ℕ → Bool) :
    Status × List (Txn D) → Prop
  | (none, txns) => Partitions req txns
  | (some status, txns) => status = .enomem ∧ txns = [] ∧ ∃ round, grants round = false

/-- The request ends, rounded up to a page, less than `2 ^ 32` sectors after
its start. -/
def Request.EndsEarly (req : Request D) : Prop :=
  (req.startLba % sectorsPerFlashPg + req.sectorCount + (sectorsPerFlashPg - 1)) /
    sectorsPerFlashPg * sectorsPerFlashPg < 2 ^ 32 + req.startLba % sectorsPerFlashPg

instance (req : Request D) : Decidable req.EndsEarly := inferInstanceAs (Decidable (_ < _))

section Segmentation

variable [Zero D] {req : Request D} {grants : ℕ → Bool}

/-! ### The loop without a wrap -/

omit [Zero D] in
theorem pieceSize_eq_min {count slba : ℕ} (hearly : req.EndsEarly)
    (htypes : req.InTypes) (hcount : count < req.sectorCount) (hslba : slba % sectorsPerFlashPg =
      (req.startLba + count) % sectorsPerFlashPg) :
    pieceSize req.sectorCount count slba = min (sectorsPerFlashPg - slba % sectorsPerFlashPg)
        (req.sectorCount - count) := by
  have hlt := htypes.sectorCount_lt
  simp only [Request.EndsEarly, sectorsPerFlashPg] at *
  have hmod : (count + (4 - slba % 4)) % 2 ^ 32 = count + (4 - slba % 4) :=
    Nat.mod_eq_of_lt (by omega)
  simp only [pieceSize, sectorsPerFlashPg, hmod]
  by_cases hlast : req.sectorCount < count + (4 - slba % 4)
  · rw [if_pos hlast]
    omega
  · rw [if_neg hlast]
    omega

/-- The loop returns the transactions of `segments` when every allocation it
makes succeeds, and an empty list otherwise. -/
theorem segmentRounds_eq (rounds round : ℕ) {count slba : ℕ}
    (txnList : List (Txn D)) (hearly : req.EndsEarly)
    (htypes : req.InTypes) (hcount : count ≤ req.sectorCount) (hslba : slba % sectorsPerFlashPg =
      (req.startLba + count) % sectorsPerFlashPg) (hrounds : req.sectorCount - count ≤ rounds) :
    segmentRounds req grants (rounds + 1) round count slba txnList = some (none, txnList ++
        segmentLoop req rounds slba (req.sectorCount - count)) ∨
    (segmentRounds req grants (rounds + 1) round count slba txnList =
        some (some .enomem, []) ∧ ∃ failed, grants failed = false) := by
  have hlt := htypes.sectorCount_lt
  induction rounds generalizing round count slba txnList with
  | zero =>
    left
    rw [segmentRounds, if_neg (by omega), segmentLoop, append_nil]
  | succ rounds ih =>
    by_cases hmore : count < req.sectorCount
    · have hrest : req.sectorCount - count ≠ 0 := by omega
      have hsize := pieceSize_eq_min hearly htypes hmore hslba
      obtain ⟨size, hmin⟩ : ∃ size, size = min (sectorsPerFlashPg - slba % sectorsPerFlashPg)
          (req.sectorCount - count) := ⟨_, rfl⟩
      obtain ⟨-, hpos, hle, hboundary⟩ := segment_size hmin (by omega)
      simp only [segmentRounds, segmentLoop, if_pos hmore, if_neg hrest, hsize, ← hmin]
      cases hgrant : grants round with
      | false => exact .inr ⟨if_neg Bool.false_ne_true, round, hgrant⟩
      | true =>
        have hmod : (count + size) % 2 ^ 32 = count + size := Nat.mod_eq_of_lt (by omega)
        have hnext : (slba + size) % 2 ^ 64 % sectorsPerFlashPg =
            (req.startLba + (count + size)) % sectorsPerFlashPg := by
          simp only [sectorsPerFlashPg] at hslba ⊢
          omega
        rw [if_pos rfl, hmod]
        have hlater := ih (round + 1) (txnList ++ [segmentTxn req slba size])
          (show count + size ≤ req.sectorCount by omega) hnext (by omega)
        rw [append_assoc, singleton_append, ← Nat.sub_sub] at hlater
        exact hlater
    · left
      rw [segmentRounds, if_neg hmore, segmentLoop, if_pos (by omega), append_nil]

/-! ### The pieces -/

omit [Zero D] in
theorem lbas_eq_map_positions (txn : Txn D) :
    txn.lbas = txn.positions.map fun place =>
      place.2.1 * sectorsPerFlashPg + place.2.2 := by
  rw [lbas, positions, map_map]
  rfl

variable (htypes : req.InTypes)
include htypes

variable (hrange : req.startLba + req.sectorCount ≤ 2 ^ 64)
include hrange

theorem flatMap_lbas_segments :
    (segments req).flatMap lbas = (range req.sectorCount).map (req.startLba + ·) := by
  calc
    (segments req).flatMap lbas = ((segments req).flatMap positions).map (fun place =>
          place.2.1 * sectorsPerFlashPg + place.2.2) := by
      rw [map_flatMap]
      exact congrArg (flatMap · _) (funext lbas_eq_map_positions)
    _ = (range req.sectorCount).map fun index =>
        (position req.nsid (req.sectorAt index)).2.1 * sectorsPerFlashPg +
          (position req.nsid (req.sectorAt index)).2.2 := by
      rw [segments_positions htypes, map_map]
      rfl
    _ = (range req.sectorCount).map (req.startLba + ·) := by
      apply map_congr_left
      intro index hindex
      rw [mem_range] at hindex
      have hlt : req.startLba + index < 2 ^ 64 := by omega
      rw [position, Request.sectorAt, Nat.mod_eq_of_lt hlt, Nat.mul_comm]
      exact Nat.div_add_mod _ _

theorem segments_ascending : (segments req).Pairwise fun left right => left.lpa < right.lpa := by
  suffices hpages : ((segments req).map page).Pairwise fun left right => left.2 < right.2 by
    rw [pairwise_map] at hpages
    exact hpages
  rw [segments, segmentLoop_pages htypes.startLba_lt, pairwise_map, pairwise_iff_getElem]
  intro left right hleft hright hlt
  rw [length_range] at hleft hright
  rw [getElem_range, getElem_range]
  have hpos : 0 < req.sectorCount := by
    have hle : (segmentLoop req req.sectorCount req.startLba
      req.sectorCount).length ≤ req.sectorCount := length_segmentLoop_le
    omega
  rw [length_segmentLoop hpos le_rfl] at hleft hright
  have hstart := htypes.startLba_lt
  simp only [sectorsPerFlashPg] at *
  omega

theorem segments_partitions : Partitions req (segments req) := by
  have hlbas := flatMap_lbas_segments htypes hrange
  constructor
  case ascending => exact segments_ascending htypes hrange
  case inPage =>
    intro txn hmem
    obtain ⟨slba, size, hpage, hpos, rfl⟩ := segmentLoop_pieces hmem
    simp only [segmentTxn, Nat.shiftLeft_eq, InPage] at hpage ⊢
    exact ⟨Nat.mul_pos hpos (by norm_num),
      by rw [← Nat.add_mul]; exact Nat.mul_le_mul_right _ hpage⟩
  case aligned => exact fun txn hmem => (segments_pieces hmem).2.1
  case exact => exact fun txn hmem => (segments_pieces hmem).1
  case disjoint =>
    have hnodup : ((segments req).flatMap lbas).Nodup := by
      rw [hlbas]
      exact nodup_range.map (add_right_injective req.startLba)
    exact (nodup_flatMap.mp hnodup).2
  case covers =>
    intro lba
    rw [← mem_flatMap, hlbas, mem_map]
    constructor
    · rintro ⟨index, hindex, rfl⟩
      rw [mem_range] at hindex
      omega
    · rintro ⟨hlow, hhigh⟩
      exact ⟨lba - req.startLba, mem_range.mpr (by omega), by omega⟩

/-! ### The loop that wraps -/

omit hrange

/-- In a request that ends late the count comes to a page boundary whose next
one lies past `2 ^ 32`. -/
structure Looping (req : Request D) (last count slba : ℕ) : Prop where
  last_lt : last < req.sectorCount
  wraps : 2 ^ 32 ≤ last + sectorsPerFlashPg
  count_le : count ≤ last
  boundary : (count + (sectorsPerFlashPg - slba % sectorsPerFlashPg)) %
    sectorsPerFlashPg = last % sectorsPerFlashPg

omit [Zero D] in
theorem Looping.next {last count slba : ℕ} (hloop : Looping req last count slba) :
    Looping req last ((count + pieceSize req.sectorCount count slba) % 2 ^ 32)
      ((slba + pieceSize req.sectorCount count slba) % 2 ^ 64) := by
  have hlt := htypes.sectorCount_lt
  obtain ⟨hlast, hwraps, hcount, hboundary⟩ := hloop
  have hsize : pieceSize req.sectorCount count slba =
      sectorsPerFlashPg - slba % sectorsPerFlashPg := by
    rw [pieceSize, if_neg]
    simp only [sectorsPerFlashPg] at *
    omega
  rw [hsize]
  constructor
  case last_lt => exact hlast
  case wraps => exact hwraps
  case count_le | boundary =>
    simp only [sectorsPerFlashPg] at *
    omega

theorem segmentRounds_eq_none {last : ℕ}
    (rounds : ℕ) {round count slba : ℕ} {txnList : List (Txn D)}
    (hloop : Looping req last count slba) :
    segmentRounds req (fun _ => true) rounds round count slba txnList = none := by
  induction rounds generalizing round count slba txnList with
  | zero => rfl
  | succ rounds ih =>
    rw [segmentRounds, if_pos (hloop.count_le.trans_lt hloop.last_lt), if_pos rfl]
    exact ih (hloop.next htypes)

omit htypes

omit [Zero D] in
theorem looping_of_not_endsEarly (hlate : ¬ req.EndsEarly) :
    ∃ last, Looping req last 0 req.startLba := by
  refine ⟨(req.startLba % sectorsPerFlashPg + req.sectorCount +
    (sectorsPerFlashPg - 1)) / sectorsPerFlashPg * sectorsPerFlashPg -
      req.startLba % sectorsPerFlashPg - sectorsPerFlashPg, ?_⟩
  constructor <;>
    simp only [Request.EndsEarly, sectorsPerFlashPg] at * <;> omega

/-- A request is cut into pieces that partition it, whatever allocations fail,
exactly when its last page ends less than `2 ^ 32` sectors after its start. -/
theorem segmentRounds_partitions_iff (req : Request D) (htypes : req.InTypes)
    (hrange : req.startLba + req.sectorCount ≤ 2 ^ 64) :
    (∀ grants, ∃ rounds result, segmentRounds req grants rounds 0 0 req.startLba [] = some result ∧
        Segmented req grants result) ↔ req.EndsEarly := by
  constructor
  · intro hall
    by_contra hlate
    obtain ⟨last, hloop⟩ := looping_of_not_endsEarly hlate
    obtain ⟨rounds, result, hreturns, -⟩ := hall fun _ => true
    rw [segmentRounds_eq_none htypes rounds hloop] at hreturns
    cases hreturns
  · intro hearly grants
    have hpartitions := segments_partitions htypes hrange
    have hloop : segmentRounds req grants (req.sectorCount + 1) 0 0
        req.startLba [] = some (none, segments req) ∨
          (segmentRounds req grants (req.sectorCount + 1) 0 0 req.startLba [] =
            some (some .enomem, []) ∧ ∃ failed, grants failed = false) :=
      segmentRounds_eq req.sectorCount 0 [] hearly htypes (Nat.zero_le _) rfl (Nat.sub_le _ _)
    rcases hloop with hdone | ⟨hfail, hgrant⟩
    · exact ⟨_, _, hdone, hpartitions⟩
    · exact ⟨_, _, hfail, rfl, rfl, hgrant⟩

end Segmentation

def unalignedRead : Request ℕ :=
  { type := .read, nsid := 1, startLba := 3, sectorCount := 5,
    data := fun _ => 0 }

theorem segmentRounds_partitions_unaligned :
    unalignedRead.EndsEarly ∧ ∀ grants, ∃ rounds result,
        segmentRounds unalignedRead grants rounds 0 0 3 [] = some result ∧
          Segmented unalignedRead grants result := by
  have hearly : unalignedRead.EndsEarly := by decide
  exact ⟨hearly, (segmentRounds_partitions_iff unalignedRead
    ⟨by norm_num [unalignedRead], by norm_num [unalignedRead]⟩
    (by norm_num [unalignedRead])).mpr hearly⟩

def longestRead : Request ℕ :=
  { type := .read, nsid := 1, startLba := 0, sectorCount := 2 ^ 32 - 1,
    data := fun _ => 0 }

theorem not_segmentRounds_partitions :
    longestRead.InTypes ∧ longestRead.startLba + longestRead.sectorCount ≤ 2 ^ 64 ∧
      ¬ ∀ grants, ∃ rounds result,
        segmentRounds longestRead grants rounds 0 0 longestRead.startLba [] =
          some result ∧ Segmented longestRead grants result := by
  have htypes : longestRead.InTypes := ⟨by norm_num [longestRead], by norm_num [longestRead]⟩
  refine ⟨htypes, by norm_num [longestRead], fun hall => ?_⟩
  have hloop : Looping longestRead (2 ^ 32 - 4) 0 longestRead.startLba := by
    constructor <;> norm_num [longestRead, sectorsPerFlashPg]
  obtain ⟨rounds, result, hreturns, -⟩ := hall fun _ => true
  rw [segmentRounds_eq_none htypes rounds hloop] at hreturns
  cases hreturns

end Soda
