import Soda.Storpu.IndexFetch
import Soda.Storpu.Records

/-!
# Index scans in buffers

`storpu_index_getnext` fills one buffer with tuples of an index scan, up to a
limit.  A tuple that does not fit stays under the pointer of the scan for the
next call.  Every tuple that is fetched is deformed for a trace before the test
for the end of the scan, so that a call which reaches the end reads through a
null pointer.
-/

namespace Soda.Storpu

open List Option

/-- The state of an index scan; `lastHtup` says whether the pointer to a tuple
that did not fit is set. -/
structure IndexScanState (S : Type) where
  scan : IndexScan S
  buf : List UInt8
  finished : Bool
  lastHtup : Bool

variable {D S : Type}

/-- The pointer to the next tuple: the one that is kept, or a new one. -/
def nextHtup (rel : HeapRel D) (gettuple : S → Option (Option ItemPointer × S)) (fuel : ℕ)
    (state : IndexScanState S) : Option (Bool × IndexScanState S) :=
  if state.lastHtup then some (true, { state with lastHtup := false })
  else do
    let (htup, scan) ← indexGetnextSlot rel gettuple fuel state.scan
    some (htup, { state with scan := scan })

/-- Deforming reads the header of the tuple; there is no result for a null
pointer. -/
def heapDeformTuple (htup : Bool) : Option Unit :=
  if htup then some () else none

/-- The loop of `storpu_index_getnext`, with the limit that is left. -/
def indexFill (rel : HeapRel D)
    (gettuple : S → Option (Option ItemPointer × S)) (fuel bufSize : ℕ) :
    ℕ → IndexScanState S → ℕ → Option (ℕ × IndexScanState S)
  | 0, state, count => some (count, state)
  | limit + 1, state, count => do
      let (htup, state) ← nextHtup rel gettuple fuel state
      heapDeformTuple htup
      if htup = false then some (count, { state with finished := true })
      else
        let tuple := state.scan.xsHeapfetch.htup
        if count + 2 + tuple.tLen > bufSize then
          some (count, { state with lastHtup := true })
        else
          let state := { state with buf := tuple.put state.buf count }
          let count := count + 2 + tuple.tLen
          if count ≥ bufSize then some (count, state)
          else indexFill rel gettuple fuel bufSize limit state count

/-- One call with a buffer size and a limit: the byte count and what is written
to the buffer of the host. -/
def storpuIndexGetnext (rel : HeapRel D)
    (gettuple : S → Option (Option ItemPointer × S)) (fuel bufSize limit : ℕ)
    (state : IndexScanState S) :
    Option (ℕ × List UInt8 × IndexScanState S) := do
  let state :=
    if state.buf.length = bufSize then state
    else { state with buf := replicate bufSize 0 }
  if state.finished then some (0, [], state)
  else do
    let (count, state) ← indexFill rel gettuple fuel bufSize limit state 0
    if count > 0 then some (count, state.buf.take count, state)
    else some (count, [], state)

structure IndexCall where
  bufSize : ℕ
  limit : ℕ
  deriving DecidableEq, Repr

/-- The buffers that a sequence of calls hands to the host. -/
def indexBuffers (rel : HeapRel D) (gettuple : S → Option (Option ItemPointer × S)) (fuel : ℕ) :
    List IndexCall → IndexScanState S → Option (List (List UInt8))
  | [], _ => some []
  | call :: calls, state => do
      let (count, host, state) ← storpuIndexGetnext rel gettuple fuel call.bufSize call.limit state
      let rest ← indexBuffers rel gettuple fuel calls state
      some (host.take count :: rest)

/-! ### What the calls should deliver -/

/-- The tuples that `index_getnext_slot` yields when it is called again and
again, up to the end of the scan. -/
inductive Yields (rel : HeapRel D)
    (gettuple : S → Option (Option ItemPointer × S)) (fuel : ℕ) :
    IndexScan S → List HeapTuple → Prop
  | done {scan scan' : IndexScan S}
      (hslot : indexGetnextSlot rel gettuple fuel scan = some (false, scan')) :
      Yields rel gettuple fuel scan []
  | more {scan scan' : IndexScan S} {tuples : List HeapTuple}
      (hslot : indexGetnextSlot rel gettuple fuel scan = some (true, scan'))
      (hrest : Yields rel gettuple fuel scan' tuples) :
      Yields rel gettuple fuel scan (scan'.xsHeapfetch.htup :: tuples)

/-- Every call hands out tuples that follow those of the calls before it, never
more than its limit, and none at all only when there are no more. -/
inductive Delivers : List IndexCall → List HeapTuple → List (List UInt8) → Prop
  | nil {rest : List HeapTuple} : Delivers [] rest []
  | cons {call : IndexCall} {calls : List IndexCall}
      {taken rest : List HeapTuple} {buffers : List (List UInt8)}
      (hlimit : taken.length ≤ call.limit) (hprogress : taken = [] → rest = [])
      (hrest : Delivers calls rest buffers) :
      Delivers (call :: calls) (taken ++ rest) (records taken :: buffers)

def fitting (bufSize : ℕ) : ℕ → ℕ → List HeapTuple → ℕ
  | 0, _, _ => 0
  | _ + 1, _, [] => 0
  | limit + 1, count, htup :: rest =>
    if count + 2 + htup.tLen > bufSize then 0
    else fitting bufSize limit (count + 2 + htup.tLen) rest + 1

/-- The limit is not above the number of tuples that are left, or these fill
the buffer. -/
def StopsBeforeEnd (call : IndexCall) (rest : List HeapTuple) : Prop :=
  call.limit ≤ rest.length ∨ call.bufSize ≤ (records rest).length

def NeverReachesEnd : List IndexCall → List HeapTuple → Prop
  | [], _ => True
  | call :: calls, rest =>
    StopsBeforeEnd call rest ∧ NeverReachesEnd calls
        (rest.drop (fitting call.bufSize call.limit 0 rest))

theorem fitting_le (bufSize limit count : ℕ) (rest : List HeapTuple) :
    fitting bufSize limit count rest ≤ limit := by
  induction limit generalizing count rest with
  | zero => exact le_rfl
  | succ limit ih =>
    cases rest with
    | nil => exact Nat.zero_le _
    | cons htup rest =>
      rw [fitting]
      split
      · exact Nat.zero_le _
      · exact Nat.succ_le_succ (ih _ _)

variable {bufSize : ℕ}

theorem fitting_of_full {count : ℕ} (limit : ℕ) (rest : List HeapTuple)
    (hfull : bufSize ≤ count) : fitting bufSize limit count rest = 0 := by
  cases limit with
  | zero => rfl
  | succ limit =>
    cases rest with
    | nil => rfl
    | cons htup rest => exact if_pos (by omega)

/-! ### The tuple under the pointer -/

variable {rel : HeapRel D} {gettuple : S → Option (Option ItemPointer × S)}
  {fuel : ℕ} {state : IndexScanState S}

/-- The tuples that a state still has to hand out, the one that is kept first.
It lies in the buffer of the scan, which nothing has changed since. -/
structure Carries (rel : HeapRel D)
    (gettuple : S → Option (Option ItemPointer × S)) (fuel : ℕ)
    (state : IndexScanState S) (rest : List HeapTuple) : Prop where
  finished : state.finished = false
  tuples : if state.lastHtup then ∃ rest', rest = state.scan.xsHeapfetch.htup :: rest' ∧
        Yields rel gettuple fuel state.scan rest'
    else Yields rel gettuple fuel state.scan rest

theorem Carries.next_nil (hcarries : Carries rel gettuple fuel state []) :
    ∃ state', nextHtup rel gettuple fuel state = some (false, state') := by
  have htuples := hcarries.tuples
  cases hlast : state.lastHtup with
  | true =>
    rw [hlast, if_pos rfl] at htuples
    obtain ⟨rest', hrest, _⟩ := htuples
    exact absurd hrest.symm (cons_ne_nil _ _)
  | false =>
    rw [hlast, if_neg Bool.false_ne_true] at htuples
    cases htuples with
    | done hslot =>
      rw [nextHtup, hlast, if_neg Bool.false_ne_true, hslot]
      exact ⟨_, rfl⟩

variable {htup : HeapTuple} {rest : List HeapTuple}

theorem Carries.next_cons (hcarries : Carries rel gettuple fuel state (htup :: rest)) :
    ∃ state', nextHtup rel gettuple fuel state = some (true, state') ∧
      state'.buf = state.buf ∧ state'.finished = false ∧
      state'.lastHtup = false ∧ state'.scan.xsHeapfetch.htup = htup ∧
      Yields rel gettuple fuel state'.scan rest := by
  have htuples := hcarries.tuples
  cases hlast : state.lastHtup with
  | true =>
    rw [hlast, if_pos rfl] at htuples
    obtain ⟨rest', hrest, hyields⟩ := htuples
    rw [nextHtup, if_pos hlast]
    rw [List.cons.injEq] at hrest
    refine ⟨_, rfl, rfl, hcarries.finished, rfl, hrest.1.symm, ?_⟩
    rw [hrest.2]
    exact hyields
  | false =>
    rw [hlast, if_neg Bool.false_ne_true] at htuples
    cases htuples with
    | more hslot hrest =>
      rw [nextHtup, if_neg (by rw [hlast]; exact Bool.false_ne_true), hslot]
      exact ⟨_, rfl, rfl, hcarries.finished, hlast, rfl, hrest⟩

/-! ### One call -/

/-- One round of the loop with a tuple in hand. -/
theorem indexFill_succ {limit count : ℕ} {state' : IndexScanState S}
    (hnext : nextHtup rel gettuple fuel state = some (true, state'))
    (hhtup : state'.scan.xsHeapfetch.htup = htup) :
    indexFill rel gettuple fuel bufSize (limit + 1) state count =
      if count + 2 + htup.tLen > bufSize then
        some (count, { state' with lastHtup := true })
      else if count + 2 + htup.tLen ≥ bufSize then
        some (count + 2 + htup.tLen, { state' with buf := htup.put state'.buf count })
      else
        indexFill rel gettuple fuel bufSize limit { state' with buf := htup.put state'.buf count }
          (count + 2 + htup.tLen) := by
  rw [indexFill, hnext, ← hhtup]
  rfl

/-- A call that stops before the end hands out what fits. -/
theorem indexFill_of_stops (limit : ℕ) (out : List UInt8)
    {rest : List HeapTuple} (hcarries : Carries rel gettuple fuel state rest)
    (hholds : Holds bufSize state.buf out) (hroom : out.length < bufSize)
    (hstops : limit ≤ rest.length ∨ bufSize ≤ out.length + (records rest).length) :
    ∃ state', indexFill rel gettuple fuel bufSize limit state out.length = some ((out ++ records
          (rest.take (fitting bufSize limit out.length rest))).length, state') ∧
      Carries rel gettuple fuel state' (rest.drop (fitting bufSize limit out.length rest)) ∧
      Holds bufSize state'.buf (out ++ records
        (rest.take (fitting bufSize limit out.length rest))) := by
  induction limit generalizing state out rest with
  | zero =>
    rw [fitting, take_zero, drop_zero, records_nil, append_nil]
    exact ⟨state, rfl, hcarries, hholds⟩
  | succ limit ih =>
    cases rest with
    | nil =>
      rcases hstops with hlimit | hfull
      · exact absurd hlimit (Nat.not_succ_le_zero _)
      · rw [records_nil, length_nil] at hfull
        exact absurd hroom (not_lt.mpr hfull)
    | cons htup rest =>
      obtain ⟨state', hnext, hbuf, hopen, hlast, hhtup, hyields⟩ := hcarries.next_cons
      have hcount : out.length + 2 + htup.tLen = (out ++ htup.record).length := by
        rw [length_append, HeapTuple.length_record, add_assoc]
      rw [indexFill_succ hnext hhtup, fitting]
      by_cases hlong : out.length + 2 + htup.tLen > bufSize
      · rw [if_pos hlong, if_pos hlong, take_zero, drop_zero, records_nil, append_nil]
        refine ⟨_, rfl, ⟨hopen, ?_⟩, by rw [hbuf]; exact hholds⟩
        rw [if_pos rfl, ← hhtup]
        exact ⟨rest, rfl, hyields⟩
      · have hholds' := hholds.put (not_lt.mp hlong)
        rw [if_neg hlong, if_neg hlong, take_succ_cons,
          drop_succ_cons, records_cons, ← append_assoc, hbuf, hcount]
        have hcarries' : Carries rel gettuple fuel
            { state' with buf := htup.put state.buf out.length } rest := by
          refine ⟨hopen, ?_⟩
          rw [hlast, if_neg Bool.false_ne_true]
          exact hyields
        by_cases hfull : (out ++ htup.record).length ≥ bufSize
        · rw [if_pos hfull, fitting_of_full _ _ hfull, take_zero,
            drop_zero, records_nil, append_nil]
          exact ⟨_, rfl, hcarries', hholds'⟩
        · rw [if_neg hfull]
          refine ih (out ++ htup.record) hcarries' hholds' (not_le.mp hfull) ?_
          rw [length_cons, records_cons, length_append] at hstops
          rw [length_append]
          omega

/-- Any other call reads through a null pointer. -/
theorem indexFill_of_reaches (limit count : ℕ) {rest : List HeapTuple}
    (hcarries : Carries rel gettuple fuel state rest) (hlimit : rest.length < limit)
    (hroom : count + (records rest).length < bufSize) :
    indexFill rel gettuple fuel bufSize limit state count = none := by
  induction limit generalizing state count rest with
  | zero => exact absurd hlimit (Nat.not_lt_zero _)
  | succ limit ih =>
    cases rest with
    | nil =>
      obtain ⟨state', hnext⟩ := hcarries.next_nil
      rw [indexFill, hnext]
      rfl
    | cons htup rest =>
      obtain ⟨state', hnext, hbuf, hopen, hlast, hhtup, hyields⟩ := hcarries.next_cons
      rw [records_cons, length_append, HeapTuple.length_record] at hroom
      rw [indexFill_succ hnext hhtup]
      rw [if_neg (by omega), if_neg (by omega)]
      refine ih (count + 2 + htup.tLen) ⟨hopen, ?_⟩ (Nat.lt_of_succ_lt_succ hlimit) (by omega)
      rw [hlast, if_neg Bool.false_ne_true]
      exact hyields

/-- The buffer of the device has the size of the call. -/
theorem exists_fresh (bufSize : ℕ) {rest : List HeapTuple}
    (hcarries : Carries rel gettuple fuel state rest) :
    ∃ fresh, fresh = (if state.buf.length = bufSize then state
        else { state with buf := replicate bufSize 0 }) ∧
      Carries rel gettuple fuel fresh rest ∧ Holds bufSize fresh.buf [] := by
  by_cases hlength : state.buf.length = bufSize
  · exact ⟨state, (if_pos hlength).symm, hcarries, hlength, rfl⟩
  · exact ⟨_, (if_neg hlength).symm, ⟨hcarries.finished, hcarries.tuples⟩, length_replicate, rfl⟩

variable {call : IndexCall}

theorem storpuIndexGetnext_of_stops
    (hcarries : Carries rel gettuple fuel state rest) (hsize : 0 < call.bufSize)
    (hstops : StopsBeforeEnd call rest) :
    ∃ count host state', storpuIndexGetnext rel gettuple fuel call.bufSize call.limit state =
        some (count, host, state') ∧ host.take count =
        records (rest.take (fitting call.bufSize call.limit 0 rest)) ∧
      Carries rel gettuple fuel state' (rest.drop (fitting call.bufSize call.limit 0 rest)) := by
  obtain ⟨fresh, hfresh, hcarries', hholds⟩ := exists_fresh call.bufSize hcarries
  obtain ⟨state', hfill, hafter, hfilled⟩ :=
    indexFill_of_stops call.limit [] hcarries' hholds hsize (by
      rw [length_nil, zero_add]
      exact hstops)
  rw [nil_append, length_nil] at hfill hfilled
  rw [storpuIndexGetnext, ← hfresh]
  dsimp only
  rw [hcarries'.finished, if_neg Bool.false_ne_true, hfill, bind_eq_bind, bind_some]
  dsimp only
  by_cases hcount : (records (rest.take (fitting call.bufSize call.limit 0 rest))).length > 0
  · rw [if_pos hcount]
    refine ⟨_, _, state', rfl, ?_, hafter⟩
    rw [take_take, min_self]
    exact hfilled.bytes
  · rw [if_neg hcount]
    have hnil := eq_nil_of_length_eq_zero (Nat.eq_zero_of_not_pos hcount)
    refine ⟨_, _, state', rfl, ?_, hafter⟩
    rw [hnil]
    rfl

theorem storpuIndexGetnext_of_reaches (hcarries : Carries rel gettuple fuel state rest)
    (hreaches : ¬StopsBeforeEnd call rest) :
    storpuIndexGetnext rel gettuple fuel call.bufSize call.limit state = none := by
  obtain ⟨fresh, hfresh, hcarries', _⟩ := exists_fresh call.bufSize hcarries
  rw [StopsBeforeEnd, not_or, not_le, not_le] at hreaches
  rw [storpuIndexGetnext, ← hfresh]
  dsimp only
  rw [hcarries'.finished, if_neg Bool.false_ne_true,
    indexFill_of_reaches call.limit 0 hcarries' hreaches.1 (by
      rw [zero_add]
      exact hreaches.2)]
  rfl

theorem fitting_pos (hlimit : 0 < call.limit) (hsize : htup.tLen + 2 ≤ call.bufSize) :
    0 < fitting call.bufSize call.limit 0 (htup :: rest) := by
  obtain ⟨limit, hlimit'⟩ := Nat.exists_eq_add_of_le' hlimit
  rw [hlimit', fitting, if_neg (by omega)]
  exact Nat.succ_pos _

/-! ### Sequences of calls -/

structure LargeEnough (tuples : List HeapTuple) (call : IndexCall) : Prop where
  limit : 0 < call.limit
  size : 2 ≤ call.bufSize
  fits : ∀ htup ∈ tuples, htup.tLen + 2 ≤ call.bufSize

theorem LargeEnough.drop {tuples : List HeapTuple} (hlarge : LargeEnough tuples call) (count : ℕ) :
    LargeEnough (tuples.drop count) call where
  limit := hlarge.limit
  size := hlarge.size
  fits := fun htup hmem => hlarge.fits htup (mem_of_mem_drop hmem)

theorem delivers_of_neverReachesEnd (calls : List IndexCall)
    {rest : List HeapTuple} (hcarries : Carries rel gettuple fuel state rest)
    (hlarge : ∀ call ∈ calls, LargeEnough rest call) (hnever : NeverReachesEnd calls rest) :
    ∃ buffers, indexBuffers rel gettuple fuel calls state = some buffers ∧
      Delivers calls rest buffers := by
  induction calls generalizing state rest with
  | nil => exact ⟨[], rfl, Delivers.nil⟩
  | cons call calls ih =>
    have hcall := hlarge call mem_cons_self
    obtain ⟨count, host, state', hgetnext, hhost, hcarries'⟩ :=
      storpuIndexGetnext_of_stops hcarries (lt_of_lt_of_le (by decide) hcall.size) hnever.1
    obtain ⟨buffers, hbuffers, hdelivers⟩ := ih hcarries' (fun other hmem =>
        (hlarge other (.tail _ hmem)).drop _) hnever.2
    refine ⟨records (rest.take (fitting call.bufSize call.limit 0 rest)) :: buffers, ?_, ?_⟩
    · rw [indexBuffers, hgetnext, bind_eq_bind, bind_some]
      dsimp only
      rw [hbuffers, hhost]
      rfl
    · have hsplit := take_append_drop (fitting call.bufSize call.limit 0 rest) rest
      have hstep : Delivers (call :: calls) (rest.take (fitting call.bufSize call.limit 0 rest) ++
            rest.drop (fitting call.bufSize call.limit 0 rest)) (records (rest.take
            (fitting call.bufSize call.limit 0 rest)) :: buffers) := by
        refine Delivers.cons ?_ ?_ hdelivers
        · rw [length_take]
          exact le_trans (min_le_left _ _) (fitting_le _ _ _ _)
        · intro hnil
          cases rest with
          | nil => exact drop_nil
          | cons htup rest =>
            have hpos := @fitting_pos htup rest call hcall.limit (hcall.fits htup mem_cons_self)
            rw [take_eq_nil_iff] at hnil
            rcases hnil with hzero | hempty
            · exact absurd hpos (by rw [hzero]; exact lt_irrefl 0)
            · exact absurd hempty (cons_ne_nil _ _)
      rw [hsplit] at hstep
      exact hstep

theorem neverReachesEnd_of_buffers (calls : List IndexCall)
    {rest : List HeapTuple} {buffers : List (List UInt8)}
    (hcarries : Carries rel gettuple fuel state rest)
    (hlarge : ∀ call ∈ calls, LargeEnough rest call)
    (hbuffers : indexBuffers rel gettuple fuel calls state = some buffers) :
    NeverReachesEnd calls rest := by
  induction calls generalizing state rest buffers with
  | nil => exact trivial
  | cons call calls ih =>
    have hcall := hlarge call mem_cons_self
    have hstops : StopsBeforeEnd call rest := by
      by_contra hreaches
      rw [indexBuffers, storpuIndexGetnext_of_reaches hcarries hreaches] at hbuffers
      exact absurd hbuffers (some_ne_none _).symm
    obtain ⟨count, host, state', hgetnext, _, hcarries'⟩ :=
      storpuIndexGetnext_of_stops hcarries (lt_of_lt_of_le (by decide) hcall.size) hstops
    rw [indexBuffers, hgetnext, bind_eq_bind, bind_some] at hbuffers
    dsimp only at hbuffers
    obtain ⟨later, hlater, _⟩ := Option.bind_eq_some_iff.mp hbuffers
    exact ⟨hstops, ih hcarries' (fun other hmem => (hlarge other (.tail _ hmem)).drop _) hlater⟩

def indexRescanned (scan : IndexScan S) : IndexScanState S where
  scan := scan
  buf := []
  finished := false
  lastHtup := false

/-- For every index scan and every sequence of calls with positive limits and
buffers that have room for each tuple, the calls hand out the tuples of the scan
in order and once if and only if none of them reaches the end of the scan. -/
theorem indexBuffers_deliver_iff (rel : HeapRel D)
    (gettuple : S → Option (Option ItemPointer × S)) (fuel : ℕ)
    (scan : IndexScan S) (tuples : List HeapTuple) (calls : List IndexCall)
    (hyields : Yields rel gettuple fuel scan tuples)
    (hlarge : ∀ call ∈ calls, LargeEnough tuples call) :
    (∃ buffers, indexBuffers rel gettuple fuel calls (indexRescanned scan) =
        some buffers ∧ Delivers calls tuples buffers) ↔ NeverReachesEnd calls tuples := by
  have hcarries : Carries rel gettuple fuel (indexRescanned scan) tuples := ⟨rfl, hyields⟩
  constructor
  · rintro ⟨buffers, hbuffers, _⟩
    exact neverReachesEnd_of_buffers calls hcarries hlarge hbuffers
  · intro hnever
    exact delivers_of_neverReachesEnd calls hcarries hlarge hnever

/-! ### A scan of one tuple -/

def oneTuple : HeapRel ℕ where
  pages := [⟨[7, 8, 9], [⟨0, .normal, 3⟩]⟩]
  getattr := fun _ _ => none

def fromList : List ItemPointer → Option (Option ItemPointer × List ItemPointer)
  | [] => some (none, [])
  | tid :: tids => some (some tid, tids)

def oneTupleScan : IndexScan (List ItemPointer) where
  am := [⟨0, 1⟩]
  xsHeaptid := ⟨0, 0⟩
  xsHeapContinue := false
  xsHeapfetch := ⟨none, ⟨[], []⟩, ⟨0, ⟨0, 0⟩, 0⟩⟩

/-- The same scan after the tuple has been fetched. -/
def oneTupleFetched : IndexScan (List ItemPointer) where
  am := []
  xsHeaptid := ⟨0, 1⟩
  xsHeapContinue := false
  xsHeapfetch := ⟨some 0, oneTuple.pages.headD ⟨[], []⟩, ⟨3, ⟨0, 1⟩, 0⟩⟩

theorem yields_oneTuple :
    Yields oneTuple fromList 1 oneTupleScan [⟨3, ⟨0, 1⟩, some [7, 8, 9]⟩] := by
  have hslot : indexGetnextSlot oneTuple fromList 1 oneTupleScan =
      some (true, oneTupleFetched) := rfl
  exact Yields.more hslot (Yields.done rfl)

theorem indexBuffers_deliver_oneTuple :
    (∃ buffers, indexBuffers oneTuple fromList 1 [⟨64, 1⟩]
        (indexRescanned oneTupleScan) = some buffers ∧
      Delivers [⟨64, 1⟩] [⟨3, ⟨0, 1⟩, some [7, 8, 9]⟩] buffers) :=
  (indexBuffers_deliver_iff oneTuple fromList 1 oneTupleScan _ [⟨64, 1⟩] yields_oneTuple (by
      intro call hmem
      rw [mem_singleton] at hmem
      subst hmem
      exact ⟨by decide, by decide, by decide⟩)).mpr
    ⟨.inl (by decide), trivial⟩

/-- The call after the last tuple reads through a null pointer. -/
theorem not_indexBuffers_deliver :
    ¬∃ buffers, indexBuffers oneTuple fromList 1 [⟨64, 1⟩, ⟨64, 1⟩]
        (indexRescanned oneTupleScan) = some buffers ∧
      Delivers [⟨64, 1⟩, ⟨64, 1⟩] [⟨3, ⟨0, 1⟩, some [7, 8, 9]⟩] buffers := by
  rintro ⟨buffers, hbuffers, _⟩
  have hnone : indexBuffers oneTuple fromList 1 [⟨64, 1⟩, ⟨64, 1⟩]
      (indexRescanned oneTupleScan) = none := by
    decide
  rw [hnone] at hbuffers
  exact absurd hbuffers (some_ne_none _).symm

end Soda.Storpu
