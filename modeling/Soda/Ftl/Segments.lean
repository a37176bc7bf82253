import Soda.Ftl.CacheFlush

/-!
# Requests as transactions

`segment_user_request` cuts a request at page boundaries: the transactions are
for different pages, and their sectors in order are the sectors of the request,
whose numbers wrap around at `2 ^ 64`.
-/

namespace Soda

open List BitVec Txn Store

variable {D : Type}

/-- The fields of a request fit the types of `struct user_request`. -/
structure Request.InTypes (req : Request D) : Prop where
  startLba_lt : req.startLba < 2 ^ 64
  sectorCount_lt : req.sectorCount < 2 ^ 32

def Request.sectorAt (req : Request D) (index : ℕ) : ℕ := (req.startLba + index) % 2 ^ 64

def position (nsid sector : ℕ) : ℕ × ℕ × ℕ :=
  (nsid, sector / sectorsPerFlashPg, sector % sectorsPerFlashPg)

def Txn.Aligned (txn : Txn D) : Prop :=
  (txn.offset + txn.length) >>> sectorShift =
    txn.offset >>> sectorShift + txn.length >>> sectorShift

theorem Txn.Aligned.mem_sectors {txn : Txn D} (haligned : txn.Aligned)
    {sector : ℕ} (hcovers : txn.covers sector) : sector ∈ txn.sectors := by
  obtain ⟨hle, hlt⟩ := hcovers
  rw [haligned] at hlt
  refine mem_map.mpr ⟨sector - txn.offset >>> sectorShift, ?_, ?_⟩
  · rw [mem_range]
    omega
  · omega

/-! ### One transaction -/

section One

variable [Zero D] {req : Request D} {slba size : ℕ}

def InPage (slba size : ℕ) : Prop := slba % sectorsPerFlashPg + size ≤ sectorsPerFlashPg

theorem offset_segmentTxn :
    (segmentTxn req slba size).offset >>> sectorShift = slba % sectorsPerFlashPg := by
  rw [segmentTxn, Nat.shiftLeft_shiftRight]

theorem length_segmentTxn : (segmentTxn req slba size).length >>> sectorShift = size := by
  rw [segmentTxn, Nat.shiftLeft_shiftRight]

theorem end_segmentTxn :
    ((segmentTxn req slba size).offset + (segmentTxn req slba size).length) >>>
      sectorShift = slba % sectorsPerFlashPg + size := by
  rw [segmentTxn]
  simp only [Nat.shiftLeft_eq, ← Nat.add_mul, Nat.shiftRight_eq_div_pow]
  exact Nat.mul_div_cancel _ (by decide)

theorem segmentTxn_aligned : (segmentTxn req slba size).Aligned := by
  rw [Txn.Aligned, end_segmentTxn, offset_segmentTxn, length_segmentTxn]

theorem covers_segmentTxn {sector : ℕ} :
    (segmentTxn req slba size).covers sector ↔ slba % sectorsPerFlashPg ≤ sector ∧
        sector < slba % sectorsPerFlashPg + size := by
  rw [covers, offset_segmentTxn, end_segmentTxn]

theorem segmentTxn_exact (hpage : InPage slba size) : (segmentTxn req slba size).Exact := by
  intro sector
  rw [covers_segmentTxn]
  have hlt : sectorsPerFlashPg = 4 := rfl
  rw [InPage] at hpage
  have hzero : (0 : PageBitmap).getLsbD (sector - slba % sectorsPerFlashPg - size) =
      false := getLsbD_zero
  simp only [segmentTxn, getLsbD_shiftLeft, getLsbD_not, hzero,
    Bool.not_and, Bool.not_not, Bool.not_false, Bool.and_eq_true,
    Bool.not_eq_true', Bool.or_eq_true, decide_eq_true_eq, decide_eq_false_iff_not, Bool.and_true]
  omega

theorem segmentTxn_fits (hpage : InPage slba size) (hpos : 0 < size) :
    BitmapFits (segmentTxn req slba size).bitmap := by
  have hexact : (segmentTxn req slba size).Exact := segmentTxn_exact hpage
  constructor
  · intro hzero
    have hbit := (hexact (slba % sectorsPerFlashPg)).mpr (covers_segmentTxn.mpr ⟨le_rfl, by omega⟩)
    rw [hzero] at hbit
    simp at hbit
  · intro sector hbit
    have hcovers := covers_segmentTxn.mp ((hexact sector).mp hbit)
    rw [InPage] at hpage
    omega

theorem positions_segmentTxn (hpage : InPage slba size) :
    (segmentTxn req slba size).positions =
      (range size).map fun index => position req.nsid (slba + index) := by
  rw [positions, sectors, offset_segmentTxn, length_segmentTxn, map_map]
  apply map_congr_left
  intro index hindex
  rw [mem_range] at hindex
  have hdiv : (slba + index) / sectorsPerFlashPg = slba / sectorsPerFlashPg := by
    simp only [InPage, sectorsPerFlashPg] at hpage ⊢
    omega
  have hmod : (slba + index) % sectorsPerFlashPg = slba % sectorsPerFlashPg + index := by
    simp only [InPage, sectorsPerFlashPg] at hpage ⊢
    omega
  rw [position, hdiv, hmod]
  rfl

end One

/-! ### All transactions -/

section Loop

variable [Zero D] {req : Request D}

variable {slba remaining rounds : ℕ}

/-- What one round of the loop takes. -/
theorem segment_size {size : ℕ} (hsize : size =
      min (sectorsPerFlashPg - slba % sectorsPerFlashPg) remaining) (hremaining : remaining ≠ 0) :
    InPage slba size ∧ 0 < size ∧ size ≤ remaining ∧
      (size < remaining → (slba + size) % sectorsPerFlashPg = 0) := by
  simp only [InPage, sectorsPerFlashPg] at hsize ⊢
  omega

/-- Every transaction is a piece of one page. -/
theorem segmentLoop_pieces {txn : Txn D} (hmem : txn ∈ segmentLoop req rounds slba remaining) :
    ∃ slba' size, InPage slba' size ∧ 0 < size ∧ txn = segmentTxn req slba' size := by
  induction rounds generalizing slba remaining with
  | zero => exact absurd hmem not_mem_nil
  | succ rounds ih =>
    rw [segmentLoop] at hmem
    by_cases hdone : remaining = 0
    · rw [if_pos hdone] at hmem
      exact absurd hmem not_mem_nil
    · rw [if_neg hdone] at hmem
      rcases mem_cons.mp hmem with rfl | hrest
      · exact ⟨slba, _, (segment_size rfl hdone).1, (segment_size rfl hdone).2.1, rfl⟩
      · exact ih hrest

/-- The sectors of the transactions are the sectors of the request. -/
theorem segmentLoop_positions (hrounds : remaining ≤ rounds) (hslba : slba < 2 ^ 64) :
    (segmentLoop req rounds slba remaining).flatMap positions = (range remaining).map fun index =>
        position req.nsid ((slba + index) % 2 ^ 64) := by
  induction rounds generalizing slba remaining with
  | zero =>
    obtain rfl : remaining = 0 := Nat.le_zero.mp hrounds
    rfl
  | succ rounds ih =>
    rw [segmentLoop]
    by_cases hdone : remaining = 0
    · rw [if_pos hdone, hdone]
      rfl
    · rw [if_neg hdone]
      obtain ⟨size, hsize⟩ : ∃ size, size =
        min (sectorsPerFlashPg - slba % sectorsPerFlashPg) remaining := ⟨_, rfl⟩
      obtain ⟨hpage, hpos, hle, -⟩ := segment_size hsize hdone
      simp only [← hsize]
      rw [flatMap_cons, positions_segmentTxn hpage, ih (by omega) (Nat.mod_lt _ (by norm_num))]
      obtain ⟨rest, rfl⟩ := Nat.exists_eq_add_of_le hle
      rw [Nat.add_sub_cancel_left, range_add, map_append, map_map]
      congr 1
      · apply map_congr_left
        intro index hindex
        rw [mem_range] at hindex
        have hlt : slba + index < 2 ^ 64 := by
          simp only [InPage, sectorsPerFlashPg] at hpage
          omega
        rw [Nat.mod_eq_of_lt hlt]
      · apply map_congr_left
        intro index _
        rw [Function.comp_apply, Nat.mod_add_mod, Nat.add_assoc]

theorem length_segmentLoop_le : (segmentLoop req rounds slba remaining).length ≤ remaining := by
  induction rounds generalizing slba remaining with
  | zero => exact Nat.zero_le _
  | succ rounds ih =>
    rw [segmentLoop]
    by_cases hdone : remaining = 0
    · rw [if_pos hdone]
      exact Nat.zero_le _
    · rw [if_neg hdone]
      obtain ⟨size, hsize⟩ : ∃ size, size =
        min (sectorsPerFlashPg - slba % sectorsPerFlashPg) remaining := ⟨_, rfl⟩
      obtain ⟨-, hpos, hle, -⟩ := segment_size hsize hdone
      simp only [← hsize, length_cons]
      exact (Nat.succ_le_succ ih).trans (by omega)

/-- One transaction for each page that the sectors touch. -/
theorem length_segmentLoop (hpos : 0 < remaining) (hrounds : remaining ≤ rounds) :
    (segmentLoop req rounds slba remaining).length =
      (slba % sectorsPerFlashPg + remaining + (sectorsPerFlashPg - 1)) / sectorsPerFlashPg := by
  induction rounds generalizing slba remaining with
  | zero => omega
  | succ rounds ih =>
    rw [segmentLoop, if_neg hpos.ne']
    obtain ⟨size, hsize⟩ : ∃ size, size =
      min (sectorsPerFlashPg - slba % sectorsPerFlashPg) remaining := ⟨_, rfl⟩
    obtain ⟨-, hsome, hle, hboundary⟩ := segment_size hsize hpos.ne'
    simp only [← hsize, length_cons]
    by_cases hlast : size = remaining
    · have hnil : segmentLoop req rounds ((slba + size) % 2 ^ 64) (remaining - size) = [] := by
        rw [hlast, Nat.sub_self]
        cases rounds with
        | zero | succ rounds => rfl
      rw [hnil, length_nil]
      simp only [sectorsPerFlashPg] at hsize ⊢
      omega
    · rw [ih (by omega) (by omega)]
      have hmod := hboundary (by omega)
      simp only [sectorsPerFlashPg] at hsize hmod ⊢
      omega

/-- The transactions are for consecutive pages. -/
theorem segmentLoop_pages (hslba : slba < 2 ^ 64) :
    (segmentLoop req rounds slba remaining).map page =
      (range (segmentLoop req rounds slba remaining).length).map fun index =>
        (req.nsid, (slba / sectorsPerFlashPg + index) % 2 ^ 62) := by
  induction rounds generalizing slba remaining with
  | zero => rfl
  | succ rounds ih =>
    rw [segmentLoop]
    by_cases hdone : remaining = 0
    · rw [if_pos hdone]
      rfl
    · rw [if_neg hdone]
      obtain ⟨size, hsize⟩ : ∃ size, size =
        min (sectorsPerFlashPg - slba % sectorsPerFlashPg) remaining := ⟨_, rfl⟩
      obtain ⟨-, -, hle, hboundary⟩ := segment_size hsize hdone
      simp only [← hsize]
      rw [map_cons, length_cons, range_succ_eq_map, map_cons,
        map_map, ih (Nat.mod_lt _ (by norm_num))]
      congr 1
      · rw [Nat.add_zero, Nat.mod_eq_of_lt]
        · rfl
        · simp only [sectorsPerFlashPg]
          omega
      · by_cases hlast : size = remaining
        · rw [hlast, Nat.sub_self]
          cases rounds with
          | zero | succ rounds => rfl
        · -- another round starts at the next page
          have hnext : (slba + size) % 2 ^ 64 / sectorsPerFlashPg =
              (slba / sectorsPerFlashPg + 1) % 2 ^ 62 := by
            have hmod := hboundary (by omega)
            simp only [sectorsPerFlashPg] at hsize hmod ⊢
            omega
          apply map_congr_left
          intro index _
          rw [hnext, Function.comp_apply, Nat.mod_add_mod, Nat.succ_eq_add_one,
            add_assoc, add_comm 1 index]

end Loop

/-! ### Data of the host -/

section Host

variable {txns : List (Txn D)} {data : ℕ → D} {nsid lpa sector : ℕ}

theorem length_positions (txn : Txn D) : txn.positions.length = txn.length >>> sectorShift := by
  rw [positions, sectors, length_map, length_map, length_range]

/-- The `index`-th sector of the request gets the `index`-th sector sent. -/
theorem absorbAll_hostTxns_at {store : Store D} {base index : ℕ}
    (hpages : (txns.map page).Nodup) (hexact : ∀ txn ∈ txns, txn.Exact)
    (hat : (txns.flatMap positions)[index]? = some (nsid, lpa, sector)) :
    store.absorbAll (hostTxns data base txns) nsid lpa sector = some (data (base + index)) := by
  induction txns generalizing store base index with
  | nil => exact absurd hat (by simp)
  | cons txn txns ih =>
    rw [map_cons, nodup_cons] at hpages
    rw [flatMap_cons] at hat
    by_cases hfirst : index < txn.positions.length
    · rw [getElem?_append_left hfirst] at hat
      rw [length_positions] at hfirst
      have hvalue : (nsid, lpa, sector) =
          (txn.nsid, txn.lpa, txn.offset >>> sectorShift + index) := by
        simpa [positions, sectors, hfirst] using hat.symm
      obtain ⟨rfl, rfl, rfl⟩ : nsid = txn.nsid ∧ lpa = txn.lpa ∧
          sector = txn.offset >>> sectorShift + index := by
        simpa using hvalue
      have hmem : txn.offset >>> sectorShift + index ∈ txn.sectors :=
        mem_map.mpr ⟨index, mem_range.mpr hfirst, rfl⟩
      have hbit := (hexact txn mem_cons_self _).mpr (covers_of_mem_sectors hmem)
      rw [hostTxns, absorbAll, foldl_cons, ← absorbAll, absorbAll_of_clear]
      · rw [absorb, if_pos ⟨rfl, rfl, hbit⟩]
        simp only [Nat.add_sub_cancel_left]
      · intro item hitem hpage _
        refine hpages.1 ?_
        rw [← map_page_of_sameButData (hostTxns_sameButData data _ txns)]
        exact mem_map.mpr ⟨item, hitem, hpage⟩
    · rw [getElem?_append_right (not_lt.mp hfirst)] at hat
      rw [hostTxns, absorbAll, foldl_cons, ← absorbAll,
        ih hpages.2 (fun item hitem => hexact item (.tail txn hitem)) hat]
      rw [length_positions] at hfirst ⊢
      congr 2
      omega

/-- Other sectors keep their contents. -/
theorem absorbAll_hostTxns_off {store : Store D} {base : ℕ}
    (hexact : ∀ txn ∈ txns, txn.Exact) (haligned : ∀ txn ∈ txns, txn.Aligned)
    (hoff : (nsid, lpa, sector) ∉ txns.flatMap positions) :
    store.absorbAll (hostTxns data base txns) nsid lpa sector = store nsid lpa sector := by
  apply absorbAll_of_clear
  intro item hitem hpage hbit
  obtain ⟨txn, htxn, hsame⟩ := exists_of_mem_right (hostTxns_sameButData data base txns) hitem
  rw [hsame] at hpage hbit
  refine hoff (mem_flatMap.mpr ⟨txn, htxn, mem_map.mpr ⟨sector, ?_, ?_⟩⟩)
  · exact (haligned txn htxn).mem_sectors ((hexact txn htxn sector).mp hbit)
  · obtain ⟨hnsid, hlpa⟩ := Prod.ext_iff.mp hpage
    exact Prod.ext hnsid (Prod.ext hlpa rfl)

end Host

/-! ### A whole request -/

section Request

variable [Zero D] {req : Request D}

theorem segments_pieces {txn : Txn D} (hmem : txn ∈ segments req) :
    txn.Exact ∧ txn.Aligned ∧ txn.nsid = req.nsid ∧
      txn.type = (if req.type = .read then .read else .write) ∧
      BitmapFits txn.bitmap ∧ txn.entry = none := by
  obtain ⟨slba, size, hpage, hpos, rfl⟩ := segmentLoop_pieces hmem
  exact ⟨segmentTxn_exact hpage, segmentTxn_aligned, rfl, rfl, segmentTxn_fits hpage hpos, rfl⟩

theorem segments_positions (htypes : req.InTypes) :
    (segments req).flatMap positions = (range req.sectorCount).map fun index =>
        position req.nsid (req.sectorAt index) :=
  segmentLoop_positions le_rfl htypes.startLba_lt

theorem segments_pages_nodup (htypes : req.InTypes) : ((segments req).map page).Nodup := by
  rw [segments, segmentLoop_pages htypes.startLba_lt]
  refine List.Nodup.map_on ?_ nodup_range
  intro left hleft right hright hsame
  have hle : (segments req).length ≤ req.sectorCount := length_segmentLoop_le
  have hlt := htypes.sectorCount_lt
  rw [mem_range] at hleft hright
  have hmod := (Prod.ext_iff.mp hsame).2
  simp only [segments] at hle
  simp only [sectorsPerFlashPg] at hmod
  omega

end Request

end Soda
