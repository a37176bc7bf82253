import Soda.Storpu.HeapScan

/-!
# The heap scan is a cursor over the tuples that pass the keys

Position by position, a step of the scan in either direction goes to the next
line pointer whose tuple passes the keys, across as many pages as it takes.
Counted in passing tuples it is therefore one step of a cursor.
-/

namespace Soda.Storpu

variable {D : Type}

namespace HeapRel

open List Option

variable (rel : HeapRel D)

/-- The page of a block, empty past the end of the file. -/
def page (block : ℕ) : Page := rel.pages.getD block ⟨[], []⟩

def lines (block : ℕ) : ℕ := (rel.page block).maxOffsetNumber

def tupleAt (rel : HeapRel D) (block off : ℕ) : HeapTuple := (rel.page block).tupleAt block off

def blockTuples (block : ℕ) : List HeapTuple := (range' 1 (rel.lines block)).map (rel.tupleAt block)

/-- The tuples behind all line pointers of the file, in block and line
order. -/
def tuples : List HeapTuple := (range rel.relpages).flatMap rel.blockTuples

/-- The tuples in front of a line pointer. -/
def upTo (block off : ℕ) : List HeapTuple :=
  (range block).flatMap rel.blockTuples ++ (range' 1 (off - 1)).map (rel.tupleAt block)

/-- What a scan with these keys goes through. -/
def matching (keys : List (ScanKey D)) : List HeapTuple :=
  rel.tuples.filter (HeapTuple.passes rel keys)

/-- The part of it in front of a line pointer. -/
def seen (keys : List (ScanKey D)) (block off : ℕ) : List HeapTuple :=
  (rel.upTo block off).filter (HeapTuple.passes rel keys)

variable {rel : HeapRel D} {keys : List (ScanKey D)} {block off : ℕ}

theorem upTo_succ (hoff : 1 ≤ off) :
    rel.upTo block (off + 1) = rel.upTo block off ++ [rel.tupleAt block off] := by
  obtain ⟨before, rfl⟩ := Nat.exists_eq_add_of_le' hoff
  simp only [upTo, Nat.add_sub_cancel, range'_1_concat, map_append,
    map_cons, map_nil, append_assoc, Nat.add_comm 1 before]

theorem upTo_next_block : rel.upTo (block + 1) 1 = rel.upTo block (rel.lines block + 1) := by
  simp only [upTo, range_succ, flatMap_append, flatMap_cons, flatMap_nil,
    append_nil, Nat.sub_self, range'_zero, map_nil, Nat.add_sub_cancel]
  rfl

theorem upTo_relpages : rel.upTo rel.relpages 1 = rel.tuples := by
  simp [upTo, tuples]

theorem seen_next_block :
    rel.seen keys (block + 1) 1 = rel.seen keys block (rel.lines block + 1) := by
  rw [seen, seen, upTo_next_block]

theorem seen_succ_of_passes (hoff : 1 ≤ off)
    (hpass : (rel.tupleAt block off).passes rel keys = true) :
    rel.seen keys block (off + 1) = rel.seen keys block off ++ [rel.tupleAt block off] := by
  rw [seen, upTo_succ hoff, filter_append, seen]
  rw [filter_cons_of_pos hpass, filter_nil]

theorem seen_succ_of_fails (hoff : 1 ≤ off)
    (hfail : (rel.tupleAt block off).passes rel keys = false) :
    rel.seen keys block (off + 1) = rel.seen keys block off := by
  rw [seen, upTo_succ hoff, filter_append, seen]
  rw [filter_cons_of_neg (by rw [hfail]; exact Bool.false_ne_true)]
  rw [filter_nil, append_nil]

theorem seen_first : rel.seen keys 0 1 = [] := by
  simp [seen, upTo]

theorem upTo_isPrefix_next (hle : off ≤ rel.lines block + 1) :
    rel.upTo block off <+: rel.upTo (block + 1) 1 := by
  rw [upTo_next_block, upTo, upTo, prefix_append_right_inj]
  apply List.IsPrefix.map
  obtain ⟨rest, hrest⟩ : ∃ rest, rel.lines block = off - 1 + rest :=
    Nat.exists_eq_add_of_le (by omega)
  rw [Nat.add_sub_cancel, hrest, ← range'_append_1]
  exact prefix_append _ _

theorem upTo_isPrefix_add (rest : ℕ) : rel.upTo block 1 <+: rel.upTo (block + rest) 1 := by
  induction rest with
  | zero => exact prefix_rfl
  | succ rest ih => exact ih.trans (upTo_isPrefix_next (by omega))

variable (hblock : block < rel.relpages)
include hblock

theorem pages_get : rel.pages[block]? = some (rel.page block) := by
  rw [page, getD_eq_getElem?_getD]
  rw [getElem?_eq_getElem hblock, getD_some]

theorem upTo_isPrefix_records
    (hle : off ≤ rel.lines block + 1) : rel.upTo block off <+: rel.tuples := by
  obtain ⟨rest, hrest⟩ : ∃ rest, rel.relpages = block + 1 + rest := Nat.exists_eq_add_of_le hblock
  have hblocks : rel.upTo (block + 1) 1 <+: rel.upTo (block + 1 + rest) 1 := upTo_isPrefix_add rest
  rw [← hrest, upTo_relpages] at hblocks
  exact (upTo_isPrefix_next hle).trans hblocks

theorem seen_prefix (hle : off ≤ rel.lines block + 1) :
    rel.seen keys block off <+: rel.matching keys :=
  (upTo_isPrefix_records hblock hle).filter _

/-- A line pointer whose tuple passes is the one with the number of passing
tuples in front of it. -/
theorem matching_get (hoff : 1 ≤ off) (hle : off ≤ rel.lines block)
    (hpass : (rel.tupleAt block off).passes rel keys = true) :
    (rel.matching keys)[(rel.seen keys block off).length]? = some (rel.tupleAt block off) := by
  have hinitial : rel.seen keys block (off + 1) <+: rel.matching keys :=
    seen_prefix hblock (by omega)
  rw [seen_succ_of_passes hoff hpass] at hinitial
  obtain ⟨rest, hrest⟩ := hinitial
  rw [← hrest, append_assoc]
  rw [getElem?_append_right le_rfl, Nat.sub_self]
  rfl

end HeapRel

/-! ### Where a scan stands -/

/-- What `initscan` sets up and no step changes. -/
structure Opened (rel : HeapRel D) (keys : List (ScanKey D))
    (scan : HeapScan D) : Prop where
  key : scan.rsKey = keys
  nblocks : scan.rsNblocks = rel.relpages
  startblock : scan.rsStartblock = 0
  numblocks : scan.rsNumblocks = none

structure OnBlock (rel : HeapRel D) (scan : HeapScan D) (block : ℕ) : Prop where
  inited : scan.rsInited = true
  cblock : scan.rsCblock = some block
  cbuf : scan.rsCbuf = some (rel.page block)
  inFile : block < rel.relpages

/-- The scan stands on a line pointer and has its tuple in hand. -/
structure AtTuple (rel : HeapRel D) (keys : List (ScanKey D))
    (scan : HeapScan D) (block off : ℕ) : Prop where
  onBlock : OnBlock rel scan block
  first : 1 ≤ off
  last : off ≤ rel.lines block
  ctup : scan.rsCtup = rel.tupleAt block off
  passes : (rel.tupleAt block off).passes rel keys = true

structure Idle (scan : HeapScan D) : Prop where
  inited : scan.rsInited = false
  ctup : scan.rsCtup.tData = none

/-- The place of a scan among the tuples that pass its keys. -/
def Sits (rel : HeapRel D) (keys : List (ScanKey D)) (scan : HeapScan D) :
    Option ℕ → Prop
  | none => Opened rel keys scan ∧ Idle scan
  | some place => Opened rel keys scan ∧ ∃ block off, AtTuple rel keys scan block off ∧
        (rel.seen keys block off).length = place

variable {rel : HeapRel D} {keys : List (ScanKey D)} {scan : HeapScan D}

theorem sits_initscan (scan : HeapScan D) (key : Option (List (ScanKey D))) :
    Sits rel (key.getD scan.rsKey) (initscan rel scan key) none :=
  ⟨⟨rfl, rfl, rfl, rfl⟩, ⟨rfl, rfl⟩⟩

theorem sits_heapBeginscan : Sits rel keys (heapBeginscan rel keys) none :=
  sits_initscan HeapScan.blank (some keys)

/-! ### The lines of one page -/

theorem heapgetlines_of_fails {back : Bool} {block linesleft lineoff : ℕ} {tuple : HeapTuple}
    (hfails : (rel.tupleAt block lineoff).passes rel keys = false) :
    heapgetlines rel keys back block (rel.page block) (linesleft + 1) lineoff tuple =
      heapgetlines rel keys back block (rel.page block) linesleft
        (if back then lineoff - 1 else lineoff + 1) (rel.tupleAt block lineoff) := by
  apply if_neg
  rw [← HeapRel.tupleAt, hfails]
  exact Bool.false_ne_true

/-- What the loop over the lines of a page finds when it goes forward. -/
theorem heapgetlines_forward (rel : HeapRel D) (keys : List (ScanKey D))
    (block linesleft lineoff : ℕ) (tuple : HeapTuple)
    (hfirst : 1 ≤ lineoff) (hlast : linesleft + lineoff = rel.lines block + 1) :
    (∃ off, lineoff ≤ off ∧ off ≤ rel.lines block ∧
      heapgetlines rel keys false block (rel.page block) linesleft lineoff
        tuple = (rel.tupleAt block off, true) ∧ (rel.tupleAt block off).passes rel keys = true ∧
      rel.seen keys block off = rel.seen keys block lineoff) ∨ ∃ last,
      heapgetlines rel keys false block (rel.page block) linesleft lineoff tuple = (last, false) ∧
      rel.seen keys block (rel.lines block + 1) = rel.seen keys block lineoff := by
  induction linesleft generalizing lineoff tuple with
  | zero =>
    right
    rw [zero_add] at hlast
    rw [← hlast]
    exact ⟨tuple, rfl, rfl⟩
  | succ linesleft ih =>
    cases hpass : (rel.tupleAt block lineoff).passes rel keys with
    | true =>
      left
      exact ⟨lineoff, le_refl _, by omega, if_pos hpass, hpass, rfl⟩
    | false =>
      rw [heapgetlines_of_fails hpass, ← HeapRel.seen_succ_of_fails hfirst hpass]
      rcases ih (lineoff + 1) (rel.tupleAt block lineoff) (by omega)
        (by omega) with ⟨off, hge, hrest⟩ | hnone
      · exact .inl ⟨off, by omega, hrest⟩
      · exact .inr hnone

/-- The same when it goes backward. -/
theorem heapgetlines_backward (rel : HeapRel D) (keys : List (ScanKey D))
    (block lineoff : ℕ) (tuple : HeapTuple) :
    (∃ off, 1 ≤ off ∧ off ≤ lineoff ∧
      heapgetlines rel keys true block (rel.page block) lineoff lineoff
        tuple = (rel.tupleAt block off, true) ∧ (rel.tupleAt block off).passes rel keys = true ∧
      rel.seen keys block (lineoff + 1) = rel.seen keys block (off + 1)) ∨ ∃ last,
      heapgetlines rel keys true block (rel.page block) lineoff lineoff tuple = (last, false) ∧
      rel.seen keys block (lineoff + 1) = rel.seen keys block 1 := by
  induction lineoff generalizing tuple with
  | zero => exact .inr ⟨tuple, rfl, rfl⟩
  | succ lineoff ih =>
    cases hpass : (rel.tupleAt block (lineoff + 1)).passes rel keys with
    | true =>
      left
      exact ⟨lineoff + 1, by omega, le_refl _, if_pos hpass, hpass, rfl⟩
    | false =>
      rw [heapgetlines_of_fails hpass, HeapRel.seen_succ_of_fails (by omega) hpass]
      rcases ih (rel.tupleAt block (lineoff + 1)) with
        ⟨off, hfirst, hle, hrest⟩ | hnone
      · exact .inl ⟨off, hfirst, by omega, hrest⟩
      · exact .inr hnone

/-! ### The pages -/

variable {block : ℕ} {place : Option ℕ} {before : List HeapTuple}

theorem nextBlock_backward_succ (block : ℕ) (hopen : Opened rel keys scan) :
    nextBlock scan true (block + 1) = (block, false, none) := by
  simp [nextBlock, finishedAt, hopen.startblock, hopen.numblocks]

variable (hopen : Opened rel keys scan)
include hopen

theorem Opened.not_empty (hsome : rel.relpages ≠ 0) :
    ¬(scan.rsNblocks = 0 ∨ scan.rsNumblocks = some 0) := by
  rw [hopen.nblocks, hopen.numblocks]
  simp [hsome]

theorem nextBlock_forward :
    nextBlock scan false block = if block + 1 < rel.relpages then (block + 1, false, none)
      else (0, true, none) := by
  simp only [nextBlock, finishedAt, hopen.nblocks, hopen.startblock,
    hopen.numblocks, Bool.false_eq_true, if_false]
  by_cases hnext : block + 1 < rel.relpages
  · rw [if_neg (not_le.mpr hnext), if_pos hnext]
    rw [if_neg (Nat.succ_ne_zero block)]
  · rw [if_pos (not_lt.mp hnext), if_neg hnext, if_pos rfl]

theorem nextBlock_backward_zero : nextBlock scan true 0 = (rel.relpages - 1, true, none) := by
  simp [nextBlock, finishedAt, hopen.startblock, hopen.numblocks, hopen.nblocks]

omit hopen

/-- A step that finds nothing more leaves the scan idle. -/
theorem heapgetpages_forward (fuel block lineoff : ℕ)
    (hopen : Opened rel keys scan) (hblock : OnBlock rel scan block)
    (hfirst : 1 ≤ lineoff) (hle : lineoff ≤ rel.lines block + 1)
    (hfuel : rel.relpages ≤ fuel + block) :
    ∃ scan', heapgetpages rel false fuel scan block (rel.page block)
        (rel.lines block + 1 - lineoff) lineoff = some scan' ∧ Opened rel keys scan' ∧
      ((∃ block' off, AtTuple rel keys scan' block' off ∧
          rel.seen keys block' off = rel.seen keys block lineoff) ∨
        Idle scan' ∧ rel.matching keys = rel.seen keys block lineoff) := by
  induction fuel generalizing scan block lineoff with
  | zero => exact absurd hblock.inFile (by omega)
  | succ fuel ih =>
    rw [heapgetpages, hopen.key]
    rcases heapgetlines_forward rel keys block
      (rel.lines block + 1 - lineoff) lineoff scan.rsCtup hfirst (by omega) with
      ⟨off, hge, hlast, hlines, hpass, hseen⟩ | ⟨last, hlines, hseen⟩
    · rw [hlines]
      refine ⟨_, rfl, ⟨rfl, hopen.nblocks, hopen.startblock,
        hopen.numblocks⟩, .inl ⟨block, off, ?_, hseen⟩⟩
      exact ⟨⟨hblock.inited, hblock.cblock, hblock.cbuf, hblock.inFile⟩,
        by omega, hlast, rfl, hpass⟩
    · rw [hlines]
      rw [nextBlock_forward hopen]
      by_cases hnext : block + 1 < rel.relpages
      · rw [if_pos hnext]
        dsimp only [heapgetpage]
        rw [HeapRel.pages_get hnext]
        dsimp only
        rw [← hseen, ← HeapRel.seen_next_block]
        have hlines' : (rel.page (block + 1)).maxOffsetNumber = rel.lines (block + 1) + 1 - 1 := rfl
        apply ih (block + 1) 1
        · exact ⟨rfl, hopen.nblocks, hopen.startblock, rfl⟩
        · exact ⟨hblock.inited, rfl, rfl, hnext⟩
        · exact le_rfl
        · omega
        · omega
      · rw [if_neg hnext]
        have hlastBlock : rel.relpages = block + 1 := by
          have := hblock.inFile
          omega
        refine ⟨_, rfl, ⟨rfl, hopen.nblocks, hopen.startblock, rfl⟩, .inr ⟨⟨rfl, rfl⟩, ?_⟩⟩
        rw [← hseen, ← HeapRel.seen_next_block, ← hlastBlock]
        rw [HeapRel.seen, HeapRel.upTo_relpages, HeapRel.matching]

theorem heapgetpages_backward (fuel block lineoff : ℕ)
    (hopen : Opened rel keys scan) (hblock : OnBlock rel scan block)
    (hle : lineoff ≤ rel.lines block) (hfuel : block < fuel) :
    ∃ scan', heapgetpages rel true fuel scan block (rel.page block) lineoff lineoff = some scan' ∧
      Opened rel keys scan' ∧ ((∃ block' off, AtTuple rel keys scan' block' off ∧
          rel.seen keys block (lineoff + 1) = rel.seen keys block' (off + 1)) ∨
        Idle scan' ∧ rel.seen keys block (lineoff + 1) = []) := by
  induction fuel generalizing scan block lineoff with
  | zero => exact absurd hfuel (by omega)
  | succ fuel ih =>
    rw [heapgetpages, hopen.key]
    rcases heapgetlines_backward rel keys block lineoff scan.rsCtup with
      ⟨off, hfirst, hlast, hlines, hpass, hseen⟩ | ⟨last, hlines, hseen⟩
    · rw [hlines]
      refine ⟨_, rfl, ⟨rfl, hopen.nblocks, hopen.startblock,
        hopen.numblocks⟩, .inl ⟨block, off, ?_, hseen⟩⟩
      exact ⟨⟨hblock.inited, hblock.cblock, hblock.cbuf, hblock.inFile⟩,
        hfirst, by omega, rfl, hpass⟩
    · rw [hlines]
      cases block with
      | zero =>
        rw [nextBlock_backward_zero hopen]
        refine ⟨_, rfl, ⟨rfl, hopen.nblocks, hopen.startblock, rfl⟩, .inr ⟨⟨rfl, rfl⟩, ?_⟩⟩
        rw [hseen, HeapRel.seen_first]
      | succ block =>
        have hfile : block < rel.relpages := by
          have := hblock.inFile
          omega
        rw [nextBlock_backward_succ block hopen]
        dsimp only [heapgetpage]
        rw [HeapRel.pages_get hfile]
        dsimp only
        rw [hseen, HeapRel.seen_next_block, if_pos rfl]
        apply ih block (rel.lines block)
        · exact ⟨rfl, hopen.nblocks, hopen.startblock, rfl⟩
        · exact ⟨hblock.inited, rfl, rfl, hfile⟩
        · exact le_rfl
        · omega

/-! ### Steps of the scan -/

def HeapRel.under (rel : HeapRel D) (keys : List (ScanKey D))
    (place : Option ℕ) : Option HeapTuple :=
  place.bind fun index => (rel.matching keys)[index]?

/-- A fetch returns the tuple at a place and leaves the scan there. -/
def Fetches (rel : HeapRel D) (keys : List (ScanKey D)) (scan : HeapScan D)
    (dir : ScanDirection) (place : Option ℕ) : Prop :=
  ∃ scan', heapGetnext rel scan dir = some (rel.under keys place, scan') ∧ Sits rel keys scan' place

variable {scan' : HeapScan D} {dir : ScanDirection}

theorem fetches_of_atTuple {off : ℕ} (hstep : heapgettup rel scan dir = some scan')
    (hopen : Opened rel keys scan') (hat : AtTuple rel keys scan' block off) :
    Fetches rel keys scan dir (some (rel.seen keys block off).length) := by
  have hget : rel.under keys (some (rel.seen keys block off).length) =
      some (rel.tupleAt block off) :=
    HeapRel.matching_get hat.onBlock.inFile hat.first hat.last hat.passes
  refine ⟨scan', ?_, hopen, block, off, hat, rfl⟩
  rw [hget, heapGetnext, hstep, Option.bind_eq_bind, Option.bind_some, hat.ctup]
  rfl

theorem fetches_of_idle (hstep : heapgettup rel scan dir = some scan')
    (hopen : Opened rel keys scan') (hidle : Idle scan') : Fetches rel keys scan dir none := by
  refine ⟨scan', ?_, hopen, hidle⟩
  rw [heapGetnext, hstep, Option.bind_eq_bind, Option.bind_some, hidle.ctup]
  rfl

/-- An empty file has no first page to read. -/
theorem fetches_of_empty (hopen : Opened rel keys scan) (hidle : Idle scan)
    (hempty : rel.relpages = 0) (hdir : dir ≠ .noMovement) :
    rel.matching keys = [] ∧ Fetches rel keys scan dir none := by
  constructor
  · simp [HeapRel.matching, HeapRel.tuples, hempty]
  · have hend : heapgettup rel scan dir =
        some { scan with rsCtup := { scan.rsCtup with tData := none } } := by
      cases dir with
      | noMovement => exact absurd rfl hdir
      | forward | backward =>
        rw [heapgettup, hidle.inited, if_neg Bool.false_ne_true]
        exact if_pos (.inl (hopen.nblocks.trans hempty))
    exact fetches_of_idle hend ⟨hopen.key, hopen.nblocks, hopen.startblock,
      hopen.numblocks⟩ ⟨hidle.inited, rfl⟩

theorem AtTuple.length_lt {off : ℕ} (hat : AtTuple rel keys scan block off) :
    (rel.seen keys block off).length < (rel.matching keys).length := by
  have hget := HeapRel.matching_get hat.onBlock.inFile hat.first hat.last hat.passes
  exact (getElem?_eq_some_iff.mp hget).1

/-- The scan goes forward from a line: to the next passing tuple, or to the
end. -/
theorem heapGetnext_of_pages_forward (scan₀ : HeapScan D) (block lineoff : ℕ)
    (hopen : Opened rel keys scan₀) (hblock : OnBlock rel scan₀ block)
    (hfirst : 1 ≤ lineoff) (hle : lineoff ≤ rel.lines block + 1)
    (hplace : (rel.seen keys block lineoff).length = Cursor.passed place)
    (hstep : heapgettup rel scan .forward =
      heapgetpages rel false scan₀.rsNblocks scan₀ block (rel.page block)
        (rel.lines block + 1 - lineoff) lineoff) :
    Fetches rel keys scan .forward (Cursor.forward (rel.matching keys).length place) := by
  obtain ⟨scan', hpages, hopen', hfound | ⟨hidle, hall⟩⟩ :=
    heapgetpages_forward scan₀.rsNblocks block lineoff hopen hblock hfirst hle
      (by rw [hopen.nblocks]; omega)
  · obtain ⟨block', off, hat, hseen⟩ := hfound
    have hlength : (rel.seen keys block' off).length = Cursor.passed place := by
      rw [hseen, hplace]
    have hlt : Cursor.passed place < (rel.matching keys).length := by
      rw [← hlength]
      exact hat.length_lt
    rw [Cursor.forward_of_lt hlt, ← hlength]
    exact fetches_of_atTuple (hstep.trans hpages) hopen' hat
  · have hle' : (rel.matching keys).length ≤ Cursor.passed place :=
      le_of_eq ((congrArg List.length hall).trans hplace)
    rw [Cursor.forward_of_le hle']
    exact fetches_of_idle (hstep.trans hpages) hopen' hidle

theorem heapGetnext_forward (hsits : Sits rel keys scan place) :
    Fetches rel keys scan .forward (Cursor.forward (rel.matching keys).length place) := by
  cases place with
  | none =>
    obtain ⟨hopen, hidle⟩ := hsits
    by_cases hempty : rel.relpages = 0
    · have hdir : ScanDirection.forward ≠ .noMovement := by simp
      obtain ⟨hnone, hfetches⟩ := fetches_of_empty hopen hidle hempty hdir
      rw [hnone]
      exact hfetches
    · have hfile : 0 < rel.relpages := pos_of_ne_zero hempty
      have hnot := hopen.not_empty hempty
      refine heapGetnext_of_pages_forward { heapgetpage rel scan 0 with rsInited := true } 0 1
        ⟨hopen.key, hopen.nblocks, hopen.startblock, hopen.numblocks⟩
        ⟨rfl, rfl, HeapRel.pages_get hfile, hfile⟩ le_rfl
        (by omega) (by rw [HeapRel.seen_first]; rfl) ?_
      rw [heapgettup, hidle.inited, if_neg Bool.false_ne_true, if_neg hnot]
      dsimp only [heapgetpage]
      rw [hopen.startblock, HeapRel.pages_get hfile]
      rfl
  | some index =>
    obtain ⟨hopen, block, off, hat, hindex⟩ := hsits
    refine heapGetnext_of_pages_forward scan block (off + 1) hopen hat.onBlock
      (by omega) (by have := hat.last; omega) ?_ ?_
    · rw [HeapRel.seen_succ_of_passes hat.first hat.passes]
      rw [List.length_append, hindex]
      rfl
    · rw [heapgettup, if_pos hat.onBlock.inited, hat.onBlock.cblock, hat.onBlock.cbuf, hat.ctup]
      rfl

/-- The scan goes backward from a line: to the passing tuple in front of it, or
off the start. -/
theorem heapGetnext_of_pages_backward (scan₀ : HeapScan D) (block lineoff : ℕ)
    (hopen : Opened rel keys scan₀) (hblock : OnBlock rel scan₀ block)
    (hle : lineoff ≤ rel.lines block)
    (hplace : ∀ count, (rel.seen keys block (lineoff + 1)).length = count →
      Cursor.backward (rel.matching keys).length place =
        if 0 < count then some (count - 1) else none) (hstep : heapgettup rel scan .backward =
      heapgetpages rel true scan₀.rsNblocks scan₀ block (rel.page block) lineoff lineoff) :
    Fetches rel keys scan .backward (Cursor.backward (rel.matching keys).length place) := by
  obtain ⟨scan', hpages, hopen', hfound | ⟨hidle, hall⟩⟩ :=
    heapgetpages_backward scan₀.rsNblocks block lineoff hopen hblock hle
      (by rw [hopen.nblocks]; exact hblock.inFile)
  · obtain ⟨block', off, hat, hseen⟩ := hfound
    have hlength : (rel.seen keys block (lineoff + 1)).length =
        (rel.seen keys block' off).length + 1 := by
      rw [hseen, HeapRel.seen_succ_of_passes hat.first hat.passes]
      rw [List.length_append]
      rfl
    rw [hplace _ hlength, if_pos (Nat.succ_pos _), Nat.add_sub_cancel]
    exact fetches_of_atTuple (hstep.trans hpages) hopen' hat
  · rw [hplace 0 (by rw [hall]; rfl), if_neg (lt_irrefl 0)]
    exact fetches_of_idle (hstep.trans hpages) hopen' hidle

theorem heapGetnext_backward (hsits : Sits rel keys scan place) :
    Fetches rel keys scan .backward (Cursor.backward (rel.matching keys).length place) := by
  cases place with
  | none =>
    obtain ⟨hopen, hidle⟩ := hsits
    by_cases hempty : rel.relpages = 0
    · have hdir : ScanDirection.backward ≠ .noMovement := by simp
      obtain ⟨hnone, hfetches⟩ := fetches_of_empty hopen hidle hempty hdir
      rw [hnone]
      exact hfetches
    · have hnot := hopen.not_empty hempty
      have hlast : lastBlock scan = rel.relpages - 1 := by
        simp [lastBlock, hopen.numblocks, hopen.startblock, hopen.nblocks]
      have hfile : rel.relpages - 1 < rel.relpages := by omega
      refine heapGetnext_of_pages_backward
        { heapgetpage rel scan (rel.relpages - 1) with rsInited := true } (rel.relpages - 1)
        (rel.lines (rel.relpages - 1)) ⟨hopen.key, hopen.nblocks, hopen.startblock, hopen.numblocks⟩
        ⟨rfl, rfl, HeapRel.pages_get hfile, hfile⟩ le_rfl ?_ ?_
      · intro count hcount
        rw [← HeapRel.seen_next_block, Nat.sub_add_cancel (Nat.pos_of_ne_zero hempty)] at hcount
        rw [HeapRel.seen, HeapRel.upTo_relpages, ← HeapRel.matching] at hcount
        rw [hcount]
        rfl
      · rw [heapgettup, hidle.inited, if_neg Bool.false_ne_true, if_neg hnot]
        dsimp only [heapgetpage]
        rw [hlast, HeapRel.pages_get hfile]
        rfl
  | some index =>
    obtain ⟨hopen, block, off, hat, hindex⟩ := hsits
    obtain ⟨before, rfl⟩ := Nat.exists_eq_add_of_le' hat.first
    refine heapGetnext_of_pages_backward scan block before hopen
      hat.onBlock (by have := hat.last; omega) ?_ ?_
    · intro count hcount
      rw [hcount] at hindex
      rw [← hindex]
      cases count with
      | zero | succ count => rfl
    · rw [heapgettup, if_pos hat.onBlock.inited, hat.onBlock.cblock, hat.onBlock.cbuf, hat.ctup]
      rfl

/-! ### What is behind a scan and what is ahead of it -/

/-- The passing tuples up to the one in hand, and those that are still to
come. -/
def Ahead (rel : HeapRel D) (keys : List (ScanKey D)) (scan : HeapScan D)
    (before rest : List HeapTuple) : Prop :=
  ∃ place, Sits rel keys scan place ∧ rel.matching keys = before ++ rest ∧
    before.length = Cursor.passed place

theorem ahead_of_sits_none (hsits : Sits rel keys scan none) :
    Ahead rel keys scan [] (rel.matching keys) :=
  ⟨none, hsits, rfl, rfl⟩

theorem Ahead.forward_nil (hahead : Ahead rel keys scan before []) :
    ∃ scan', heapGetnext rel scan .forward = some (none, scan') ∧ Sits rel keys scan' none := by
  obtain ⟨place, hsits, hmatching, hlength⟩ := hahead
  have hle : (rel.matching keys).length ≤ Cursor.passed place := by
    rw [hmatching, List.append_nil]
    exact le_of_eq hlength
  have hnext := heapGetnext_forward hsits
  rw [Cursor.forward_of_le hle] at hnext
  exact hnext

variable {rest : List HeapTuple} {tuple : HeapTuple}

theorem Ahead.forward_cons (hahead : Ahead rel keys scan before (tuple :: rest)) :
    ∃ scan', heapGetnext rel scan .forward = some (some tuple, scan') ∧
      Ahead rel keys scan' (before ++ [tuple]) rest := by
  obtain ⟨place, hsits, hmatching, hlength⟩ := hahead
  have hlt : Cursor.passed place < (rel.matching keys).length := by
    rw [hmatching, ← hlength, List.length_append, List.length_cons]
    omega
  have hunder : rel.under keys (some (Cursor.passed place)) = some tuple := by
    rw [HeapRel.under, Option.bind_some, hmatching, ← hlength]
    rw [List.getElem?_append_right le_rfl, Nat.sub_self]
    rfl
  obtain ⟨scan', hnext, hsits'⟩ := heapGetnext_forward hsits
  rw [Cursor.forward_of_lt hlt] at hnext hsits'
  rw [hunder] at hnext
  refine ⟨scan', hnext, some (Cursor.passed place), hsits', ?_, ?_⟩
  · rw [hmatching, List.append_assoc]
    rfl
  · rw [List.length_append, hlength]
    rfl

/-- Going backward undoes the last fetch, if it was not the first one. -/
theorem Ahead.backward
    (hahead : Ahead rel keys scan (before ++ [tuple]) rest) (hbefore : before ≠ []) :
    ∃ found scan', heapGetnext rel scan .backward = some (found, scan') ∧
      Ahead rel keys scan' before (tuple :: rest) := by
  obtain ⟨place, hsits, hmatching, hlength⟩ := hahead
  obtain ⟨earlier, hearlier⟩ : ∃ earlier, before.length = earlier + 1 :=
    Nat.exists_eq_add_of_le' (List.length_pos_iff.mpr hbefore)
  rw [List.length_append, hearlier, List.length_singleton] at hlength
  cases place with
  | none => exact absurd hlength (Nat.succ_ne_zero _)
  | some index =>
    have hindex : index = earlier + 1 := (Nat.succ.inj hlength).symm
    subst hindex
    obtain ⟨scan', hnext, hsits'⟩ := heapGetnext_backward hsits
    refine ⟨_, scan', hnext, some earlier, hsits', ?_, hearlier⟩
    rw [hmatching, List.append_assoc]
    rfl

/-! ### Calls in any order -/

theorem heapGetnext_noMovement (hsits : Sits rel keys scan place) :
    Fetches rel keys scan .noMovement place := by
  cases place with
  | none =>
    obtain ⟨hopen, hidle⟩ := hsits
    refine fetches_of_idle ?_ hopen hidle
    rw [heapgettup, if_neg (Bool.not_eq_true _ ▸ hidle.inited), ← hidle.ctup]
  | some index =>
    obtain ⟨hopen, block, off, hat, rfl⟩ := hsits
    refine fetches_of_atTuple ?_ hopen hat
    obtain ⟨⟨hinited, hcblock, hcbuf, -⟩, -, -, hctup, -⟩ := hat
    obtain ⟨_, _, _, _, _, _, _, _⟩ := scan
    cases hinited
    cases hcblock
    cases hcbuf
    cases hctup
    dsimp only [heapgettup]
    rw [if_pos rfl, if_pos rfl]
    rfl

/-- A call on a scan; a rescan without keys keeps those it has. -/
inductive ScanCall (D : Type)
  | getnext (dir : ScanDirection)
  | rescan (key : Option (List (ScanKey D)))

def scanCalls (rel : HeapRel D) : List (ScanCall D) → HeapScan D → Option (List (Option HeapTuple))
  | [], _ => some []
  | .getnext dir :: calls, scan => do
      let (tuple, scan) ← heapGetnext rel scan dir
      let rest ← scanCalls rel calls scan
      some (tuple :: rest)
  | .rescan key :: calls, scan => scanCalls rel calls (heapRescan rel scan key)

def ScanDirection.move (count : ℕ) (place : Option ℕ) : ScanDirection → Option ℕ
  | .forward => Cursor.forward count place
  | .backward => Cursor.backward count place
  | .noMovement => place

/-- What a cursor over the tuples that pass the keys returns. -/
def cursorCalls (rel : HeapRel D) :
    List (ScanCall D) → List (ScanKey D) → Option ℕ → List (Option HeapTuple)
  | [], _, _ => []
  | .getnext dir :: calls, keys, place =>
    let next := dir.move (rel.matching keys).length place
    rel.under keys next :: cursorCalls rel calls keys next
  | .rescan key :: calls, keys, _ => cursorCalls rel calls (key.getD keys) none

theorem heapGetnext_move (dir : ScanDirection) (hsits : Sits rel keys scan place) :
    Fetches rel keys scan dir (dir.move (rel.matching keys).length place) := by
  cases dir with
  | forward => exact heapGetnext_forward hsits
  | backward => exact heapGetnext_backward hsits
  | noMovement => exact heapGetnext_noMovement hsits

theorem Sits.opened (hsits : Sits rel keys scan place) : Opened rel keys scan := by
  cases place with
  | none | some index => exact hsits.1

theorem scanCalls_of_sits (calls : List (ScanCall D)) (hsits : Sits rel keys scan place) :
    scanCalls rel calls scan = some (cursorCalls rel calls keys place) := by
  induction calls generalizing scan keys place with
  | nil => rfl
  | cons call calls ih =>
    cases call with
    | getnext dir =>
      obtain ⟨scan', hnext, hsits'⟩ := heapGetnext_move dir hsits
      rw [scanCalls, hnext, Option.bind_eq_bind, Option.bind_some]
      dsimp only
      rw [ih hsits']
      rfl
    | rescan key =>
      rw [scanCalls, heapRescan]
      exact ih (hsits.opened.key ▸ sits_initscan scan key)

end Soda.Storpu
