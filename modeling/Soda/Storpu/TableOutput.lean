import Soda.Storpu.ForwardScan
import Soda.Storpu.Records

/-!
# Table scans in buffers

`storpu_table_getnext` fills one buffer with as many tuples as fit.  It notices
that a tuple does not fit only after having fetched it, and then steps the scan
back.  Over all calls the buffers still hold every tuple of the scan once.
-/

namespace Soda.Storpu

open List Option

/-- The state of a table scan; `buf` is empty before the first call. -/
structure TableScanState (D : Type) where
  scan : HeapScan D
  buf : List UInt8
  totalCount : ℕ
  finished : Bool

variable {D : Type}

def storpuTableBeginscan (rel : HeapRel D) (keys : List (ScanKey D)) : TableScanState D where
  scan := heapRescan rel (heapBeginscan rel keys) none
  buf := []
  totalCount := 0
  finished := false

/-- A tuple that has been fetched goes into the buffer. -/
def TableScanState.put (state : TableScanState D) (scan : HeapScan D)
    (htup : HeapTuple) (count : ℕ) : TableScanState D :=
  { state with
    scan := scan
    totalCount := state.totalCount + 1
    buf := htup.put state.buf count }

/-- The loop of `storpu_table_getnext`; it gives the number of bytes in the
buffer. -/
def tableFill (rel : HeapRel D) (bufSize : ℕ) :
    ℕ → TableScanState D → ℕ → Option (ℕ × TableScanState D)
  | 0, _, _ => none
  | fuel + 1, state, count => do
      let (htup, scan) ← heapGetnext rel state.scan .forward
      match htup with
      | none => some (count, { state with scan := scan, finished := true })
      | some htup =>
        if count + 2 + htup.tLen > bufSize then do
          let (_, scan) ← heapGetnext rel scan .backward
          some (count, { state with scan := scan })
        else
          let state := state.put scan htup count
          let count := count + 2 + htup.tLen
          if count ≥ bufSize then some (count, state)
          else tableFill rel bufSize fuel state count

/-- One call with a buffer size.  The results are the byte count and what is
written to the buffer of the host. -/
def storpuTableGetnext (rel : HeapRel D) (bufSize : ℕ) (state : TableScanState D) :
    Option (ℕ × List UInt8 × TableScanState D) := do
  let state :=
    if state.buf.length = bufSize then state
    else { state with buf := replicate bufSize 0 }
  if state.finished then some (0, [], state)
  else do
    let (count, state) ← tableFill rel bufSize (rel.tuples.length + 1) state 0
    if count > 0 then
      some (count, state.buf.take (min (roundup count 64) bufSize), state)
    else some (count, [], state)

/-- The buffers of repeated calls until one returns zero. -/
def tableBuffers (rel : HeapRel D) (bufSize : ℕ) :
    ℕ → TableScanState D → Option (List (List UInt8))
  | 0, _ => none
  | calls + 1, state => do
      let (count, host, state) ← storpuTableGetnext rel bufSize state
      if count = 0 then some []
      else do
        let rest ← tableBuffers rel bufSize calls state
        some (host.take count :: rest)

variable {rel : HeapRel D} {keys : List (ScanKey D)} {bufSize : ℕ} {state : TableScanState D}

/-- What one run of the loop does: it puts tuples that follow one another into
the buffer and leaves the scan right behind the last of them. -/
theorem tableFill_spec (fuel : ℕ) (out : List UInt8) {before rest : List HeapTuple}
    (hahead : Ahead rel keys state.scan before rest)
    (hfinished : state.finished = false) (hfuel : rest.length < fuel)
    (hholds : Holds bufSize state.buf out) (hout : out ≠ [] → before ≠ [])
    (hsize : ∀ htup ∈ rest, htup.tLen + 2 ≤ bufSize) :
    ∃ taken rest' state', rest = taken ++ rest' ∧ tableFill rel bufSize fuel state out.length =
        some ((out ++ records taken).length, state') ∧
      Holds bufSize state'.buf (out ++ records taken) ∧ (out = [] → rest ≠ [] → taken ≠ []) ∧
      (state'.finished = true ∧ rest' = [] ∨ state'.finished = false ∧
          Ahead rel keys state'.scan (before ++ taken) rest') := by
  induction fuel generalizing state out before rest with
  | zero => exact absurd hfuel (Nat.not_lt_zero _)
  | succ fuel ih =>
    rw [tableFill]
    cases rest with
    | nil =>
      obtain ⟨scan', hnext, _⟩ := hahead.forward_nil
      rw [hnext, bind_eq_bind, bind_some]
      refine ⟨[], [], _, rfl, by rw [records_nil, append_nil], ?_,
        fun _ hne => absurd rfl hne, .inl ⟨rfl, rfl⟩⟩
      rw [records_nil, append_nil]
      exact ⟨hholds.size, hholds.bytes⟩
    | cons htup rest =>
      obtain ⟨scan', hnext, hahead'⟩ := hahead.forward_cons
      rw [hnext, bind_eq_bind, bind_some]
      dsimp only
      by_cases hfits : out.length + 2 + htup.tLen ≤ bufSize
      · rw [if_neg (not_lt.mpr hfits)]
        have hholds' := hholds.put hfits
        have hcount : out.length + 2 + htup.tLen = (out ++ htup.record).length := by
          rw [length_append, HeapTuple.length_record, add_assoc]
        by_cases hfull : out.length + 2 + htup.tLen ≥ bufSize
        · rw [if_pos hfull]
          refine ⟨[htup], rest, state.put scan' htup out.length, rfl, ?_, ?_,
            fun _ _ => cons_ne_nil _ _, .inr ⟨hfinished, hahead'⟩⟩
          · rw [hcount, records_cons, records_nil, append_nil]
          · rw [records_cons, records_nil, append_nil]
            exact hholds'
        · rw [if_neg hfull, hcount]
          obtain ⟨taken, rest', state', hrest, hfill, hfilled, _, hend⟩ :=
            @ih (state.put scan' htup out.length) (out ++ htup.record)
              (before ++ [htup]) rest hahead' hfinished (Nat.lt_of_succ_lt_succ hfuel) hholds'
              (fun _ => append_ne_nil_of_right_ne_nil _ (cons_ne_nil _ _))
              (fun other hmem => hsize other (.tail _ hmem))
          have hout' : out ++ records (htup :: taken) = out ++ htup.record ++ records taken := by
            rw [records_cons, append_assoc]
          refine ⟨htup :: taken, rest', state', by rw [hrest]; rfl, ?_, ?_,
            fun _ _ => cons_ne_nil _ _, ?_⟩
          · rw [hout']
            exact hfill
          · rw [hout']
            exact hfilled
          · rw [append_assoc] at hend
            exact hend
      · -- only a tuple that follows another one in this buffer can be too
        -- long, so that the step back does not fall off the start
        rw [if_pos (not_le.mp hfits)]
        have hne : out ≠ [] := by
          rintro rfl
          have := hsize htup mem_cons_self
          exact hfits (by rw [length_nil]; omega)
        obtain ⟨found, scan'', hback, hahead''⟩ := hahead'.backward (hout hne)
        rw [hback]
        refine ⟨[], htup :: rest, { state with scan := scan'' }, rfl,
          by rw [records_nil, append_nil]; rfl, ?_,
          fun hnil => absurd hnil hne, .inr ⟨hfinished, ?_⟩⟩
        · rw [records_nil, append_nil]
          exact ⟨hholds.size, hholds.bytes⟩
        · rw [append_nil]
          exact hahead''

/-! ### Calls -/

theorem Ahead.length_le {scan : HeapScan D} {before rest : List HeapTuple}
    (hahead : Ahead rel keys scan before rest) : rest.length ≤ rel.tuples.length := by
  obtain ⟨place, _, hmatching, _⟩ := hahead
  have hle : (rel.matching keys).length ≤ rel.tuples.length := length_filter_le _ _
  rw [hmatching, length_append] at hle
  omega

/-- One call: the host gets the records of the next tuples, at least one if
there is any. -/
theorem storpuTableGetnext_spec {before rest : List HeapTuple}
    (hahead : Ahead rel keys state.scan before rest) (hfinished : state.finished = false)
    (hsize : ∀ htup ∈ rest, htup.tLen + 2 ≤ bufSize) :
    ∃ taken rest' host state', rest = taken ++ rest' ∧ storpuTableGetnext rel bufSize state =
        some ((records taken).length, host, state') ∧
      host.take (records taken).length = records taken ∧ (rest ≠ [] → taken ≠ []) ∧
      (state'.finished = true ∧ rest' = [] ∨ state'.finished = false ∧
          Ahead rel keys state'.scan (before ++ taken) rest') := by
  obtain ⟨fresh, hfresh, hscan, hopen, hholds⟩ : ∃ fresh,
      fresh = (if state.buf.length = bufSize then state
        else { state with buf := replicate bufSize 0 }) ∧
      fresh.scan = state.scan ∧ fresh.finished = false ∧
      Holds bufSize fresh.buf [] := by
    by_cases hlength : state.buf.length = bufSize
    · exact ⟨state, (if_pos hlength).symm, rfl, hfinished, hlength, rfl⟩
    · exact ⟨_, (if_neg hlength).symm, rfl, hfinished, length_replicate, rfl⟩
  rw [← hscan] at hahead
  obtain ⟨taken, rest', state', hrest, hfill, hfilled, htaken, hend⟩ :=
    tableFill_spec (rel.tuples.length + 1) [] hahead hopen
      (Nat.lt_succ_of_le hahead.length_le) hholds (fun hne => absurd rfl hne) hsize
  rw [nil_append] at hfill hfilled
  rw [storpuTableGetnext, ← hfresh]
  dsimp only
  rw [hopen, if_neg Bool.false_ne_true]
  change tableFill rel bufSize (rel.tuples.length + 1) fresh 0 = _ at hfill
  rw [hfill, bind_eq_bind, bind_some]
  dsimp only
  by_cases hcount : (records taken).length > 0
  · rw [if_pos hcount]
    refine ⟨taken, rest', _, state', hrest, rfl, ?_, htaken rfl, hend⟩
    rw [take_take, Nat.min_eq_left, hfilled.bytes]
    exact Nat.le_min.mpr ⟨le_roundup _ 64 (by decide), hfilled.length_le⟩
  · rw [if_neg hcount]
    have hnil : records taken = [] := eq_nil_of_length_eq_zero (Nat.eq_zero_of_not_pos hcount)
    refine ⟨taken, rest', _, state', hrest, rfl, ?_, htaken rfl, hend⟩
    rw [hnil]
    rfl

theorem tableBuffers_of_finished (calls : ℕ) (hfinished : state.finished = true) :
    tableBuffers rel bufSize (calls + 1) state = some [] := by
  have hcall : ∃ state', storpuTableGetnext rel bufSize state = some (0, [], state') := by
    have hsame : (if state.buf.length = bufSize then state
        else { state with buf := replicate bufSize 0 }).finished = true := by
      split
      · exact hfinished
      · exact hfinished
    exact ⟨_, if_pos hsame⟩
  obtain ⟨state', hcall⟩ := hcall
  rw [tableBuffers, hcall]
  rfl

theorem tableBuffers_spec (calls : ℕ) {before rest : List HeapTuple}
    (hahead : Ahead rel keys state.scan before rest) (hfinished : state.finished = false)
    (hsize : ∀ htup ∈ rest, htup.tLen + 2 ≤ bufSize) (hcalls : rest.length < calls) :
    ∃ buffers, tableBuffers rel bufSize calls state = some buffers ∧
      buffers.flatten = records rest := by
  induction calls generalizing state before rest with
  | zero => exact absurd hcalls (Nat.not_lt_zero _)
  | succ calls ih =>
    obtain ⟨taken, rest', host, state', hrest, hcall, hhost, htaken, hend⟩ :=
      storpuTableGetnext_spec hahead hfinished hsize
    rw [tableBuffers, hcall, bind_eq_bind, bind_some]
    dsimp only
    by_cases hzero : (records taken).length = 0
    · rw [if_pos hzero]
      have hnil := records_eq_nil (eq_nil_of_length_eq_zero hzero)
      have hempty : rest = [] := by
        by_contra hne
        exact htaken hne hnil
      exact ⟨[], rfl, by rw [hempty]; rfl⟩
    · rw [if_neg hzero, hhost]
      have hlength : rest'.length < calls := by
        have hpos : taken.length ≠ 0 := by
          intro hlength
          rw [eq_nil_of_length_eq_zero hlength] at hzero
          exact hzero rfl
        rw [hrest, length_append] at hcalls
        omega
      obtain ⟨buffers, hbuffers, hflatten⟩ : ∃ buffers,
          tableBuffers rel bufSize calls state' = some buffers ∧
            buffers.flatten = records rest' := by
        rcases hend with ⟨hdone, hnil⟩ | ⟨hopen, hahead'⟩
        · obtain ⟨fewer, rfl⟩ : ∃ fewer, calls = fewer + 1 :=
            Nat.exists_eq_add_of_le' (Nat.lt_of_le_of_lt (Nat.zero_le _) hlength)
          refine ⟨[], tableBuffers_of_finished fewer hdone, ?_⟩
          rw [hnil]
          rfl
        · apply ih hahead' hopen _ hlength
          intro htup hmem
          exact hsize htup (by
            rw [hrest]
            exact mem_append_right _ hmem)
      rw [hbuffers]
      refine ⟨records taken :: buffers, rfl, ?_⟩
      rw [flatten_cons, hflatten, hrest, records_append]

/-- For every buffer size that has room for each tuple of the scan and its
length, the buffers of repeated calls are together the records of the tuples
that an uninterrupted forward scan yields. -/
theorem tableBuffers_eq_records_forwardScan (rel : HeapRel D)
    (keys : List (ScanKey D)) (bufSize : ℕ)
    (hsize : ∀ htup ∈ rel.matching keys, htup.tLen + 2 ≤ bufSize) :
    ∃ tuples, forwardScan rel (tuples.length + 1) (heapBeginscan rel keys) =
        some (tuples.map some ++ [none]) ∧ ∀ calls > tuples.length, ∃ buffers,
        tableBuffers rel bufSize calls (storpuTableBeginscan rel keys) = some buffers ∧
        buffers.flatten = records tuples := by
  refine ⟨rel.matching keys, ?_, ?_⟩
  · rw [forwardScan_heapBeginscan rel keys _ le_rfl]
    rw [map_getElem?_range]
  · intro calls hcalls
    have hsits : Sits rel keys (storpuTableBeginscan rel keys).scan none :=
      sits_initscan (heapBeginscan rel keys) none
    exact tableBuffers_spec calls (ahead_of_sits_none hsits) rfl hsize hcalls

def threeTuples : HeapRel ℕ where
  pages := [⟨[7, 8, 9], [⟨0, .normal, 1⟩, ⟨1, .normal, 2⟩]⟩, ⟨[5], [⟨0, .normal, 1⟩]⟩]
  getattr := fun _ _ => none

/-- Buffers of four bytes hold one tuple each. -/
theorem tableBuffers_threeTuples :
    tableBuffers threeTuples 4 4 (storpuTableBeginscan threeTuples []) =
        some [[1, 0, 7], [2, 0, 8, 9], [1, 0, 5]] ∧ ∃ tuples,
        forwardScan threeTuples (tuples.length + 1) (heapBeginscan threeTuples []) =
          some (tuples.map some ++ [none]) ∧ ∀ calls > tuples.length, ∃ buffers,
          tableBuffers threeTuples 4 calls (storpuTableBeginscan threeTuples []) = some buffers ∧
          buffers.flatten = records tuples :=
  ⟨by decide, tableBuffers_eq_records_forwardScan threeTuples [] 4 (by decide)⟩

end Soda.Storpu
