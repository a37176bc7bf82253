import Soda.Core.Cursor

/-!
# The heap scan on the device

A heap file is a list of pages, a page is an array of line pointers over its
bytes.  `heapgettup` walks the line pointers of one page after another, in
either direction, and keeps its position in the scan descriptor between calls.
-/

namespace Soda.Storpu

/-- The state of a line pointer, `lp_flags`. -/
inductive LpFlags
  | unused
  | normal
  | redirect
  | dead
  deriving DecidableEq, Repr, Inhabited

instance neZeroLp : NeZero (2 ^ 15) := ⟨by decide⟩

/-- The offset and the length have fifteen bits each. -/
structure ItemId where
  lpOff : Fin (2 ^ 15)
  lpFlags : LpFlags
  lpLen : Fin (2 ^ 15)
  deriving DecidableEq, Repr, Inhabited

/-- A page: its bytes, and the line pointers up to `pd_lower`. -/
structure Page where
  bytes : List UInt8
  linp : List ItemId
  deriving DecidableEq, Repr

def Page.maxOffsetNumber (page : Page) : ℕ := page.linp.length

/-- The line pointer at an offset number, counted from one. -/
def Page.itemId (page : Page) (off : ℕ) : ItemId := page.linp.getD (off - 1) default

structure ItemPointer where
  block : ℕ
  posid : ℕ
  deriving DecidableEq, Repr

/-- `tData` is the memory from the first byte of the tuple on. -/
structure HeapTuple where
  tLen : ℕ
  tSelf : ItemPointer
  tData : Option (List UInt8)
  deriving DecidableEq, Repr

/-- The tuple that `PageGetItem` reads behind a line pointer, whatever the state
of the line pointer is. -/
def Page.tupleAt (page : Page) (block off : ℕ) : HeapTuple where
  tLen := (page.itemId off).lpLen
  tSelf := ⟨block, off⟩
  tData := some (page.bytes.drop (page.itemId off).lpOff)

structure ScanKey (D : Type) where
  skAttno : ℕ
  skFunc : D → D → Bool
  skArgument : D

/-- A heap relation: its file, and how an attribute is read out of a tuple. -/
structure HeapRel (D : Type) where
  pages : List Page
  getattr : List UInt8 → ℕ → Option D

inductive ScanDirection
  | backward
  | noMovement
  | forward
  deriving DecidableEq, Repr

/-- The scan descriptor; `none` is the invalid block number and the invalid
buffer. -/
structure HeapScan (D : Type) where
  rsKey : List (ScanKey D)
  rsNblocks : ℕ
  rsStartblock : ℕ
  rsNumblocks : Option ℕ
  rsInited : Bool
  rsCblock : Option ℕ
  rsCbuf : Option Page
  rsCtup : HeapTuple

variable {D : Type}

variable (rel : HeapRel D)

def HeapRel.relpages : ℕ := rel.pages.length

variable (scan : HeapScan D)

def initscan (key : Option (List (ScanKey D))) : HeapScan D :=
  { scan with
    rsStartblock := 0
    rsNblocks := rel.relpages
    rsNumblocks := none
    rsInited := false
    rsCtup := { scan.rsCtup with tData := none }
    rsCblock := none
    rsCbuf := none
    rsKey := key.getD scan.rsKey }

/-- The descriptor before `initscan`, as it comes from `malloc`. -/
def HeapScan.blank : HeapScan D where
  rsKey := []
  rsNblocks := 0
  rsStartblock := 0
  rsNumblocks := none
  rsInited := false
  rsCblock := none
  rsCbuf := none
  rsCtup := ⟨0, ⟨0, 0⟩, none⟩

def heapBeginscan (keys : List (ScanKey D)) : HeapScan D := initscan rel HeapScan.blank (some keys)

def heapRescan (key : Option (List (ScanKey D))) : HeapScan D := initscan rel scan key

def heapgetpage (page : ℕ) : HeapScan D :=
  { scan with rsCbuf := rel.pages[page]?, rsCblock := some page }

/-- A null attribute fails every key. -/
def heapKeyTest (rel : HeapRel D) (data : List UInt8) :
    List (ScanKey D) → Bool
  | [] => true
  | key :: keys =>
    match rel.getattr data key.skAttno with
    | none => false
    | some atp =>
      if key.skFunc atp key.skArgument then heapKeyTest rel data keys
      else false

def HeapTuple.passes (keys : List (ScanKey D)) (tuple : HeapTuple) : Bool :=
  match tuple.tData with
  | none => false
  | some data => heapKeyTest rel data keys

/-- The loop over the lines of one page.  The tuple in hand is overwritten by
every line that is looked at. -/
def heapgetlines (rel : HeapRel D) (keys : List (ScanKey D)) (back : Bool)
    (page : ℕ) (dp : Page) : ℕ → ℕ → HeapTuple → HeapTuple × Bool
  | 0, _, tuple => (tuple, false)
  | linesleft + 1, lineoff, _ =>
    let tuple := dp.tupleAt page lineoff
    if tuple.passes rel keys then (tuple, true)
    else
      heapgetlines rel keys back page dp linesleft (if back then lineoff - 1 else lineoff + 1) tuple

/-- Whether the scan ends at a block, and the number of blocks that are left
afterwards.  The counter goes down only where the first test fails. -/
def finishedAt (page : ℕ) : Bool × Option ℕ :=
  if page = scan.rsStartblock then (true, scan.rsNumblocks)
  else
    match scan.rsNumblocks with
    | none => (false, none)
    | some count => (count - 1 == 0, some (count - 1))

/-- The block after this one, and the test for the end: before the step when
the scan goes backward, after it when the scan goes forward. -/
def nextBlock (back : Bool) (page : ℕ) : ℕ × Bool × Option ℕ :=
  if back then
    ((if page = 0 then scan.rsNblocks else page) - 1, finishedAt scan page)
  else
    let next := if page + 1 ≥ scan.rsNblocks then 0 else page + 1
    (next, finishedAt scan next)

def heapgetpages (rel : HeapRel D) (back : Bool) :
    ℕ → HeapScan D → ℕ → Page → ℕ → ℕ → Option (HeapScan D)
  | 0, _, _, _, _, _ => none
  | fuel + 1, scan, page, dp, linesleft, lineoff =>
    match heapgetlines rel scan.rsKey back page dp linesleft lineoff scan.rsCtup with
    | (tuple, true) => some { scan with rsCtup := tuple }
    | (tuple, false) =>
      match nextBlock scan back page with
      | (_, true, left) =>
        some { scan with
          rsNumblocks := left
          rsCbuf := none
          rsCblock := none
          rsCtup := { tuple with tData := none }
          rsInited := false }
      | (next, false, left) =>
        let scan := heapgetpage rel
          { scan with rsNumblocks := left, rsCtup := tuple } next
        match scan.rsCbuf with
        | none => none
        | some dp =>
          let lines := dp.maxOffsetNumber
          heapgetpages rel back fuel scan next dp lines (if back then lines else 1)

def lastBlock : ℕ :=
  match scan.rsNumblocks with
  | some count => (scan.rsStartblock + count - 1) % scan.rsNblocks
  | none =>
    if scan.rsStartblock > 0 then scan.rsStartblock - 1
    else scan.rsNblocks - 1

/-- No result means that a page could not be read or that the loop over the
pages did not end. -/
def heapgettup :
    ScanDirection → Option (HeapScan D)
  | .forward =>
    if scan.rsInited then do
      let page ← scan.rsCblock
      let dp ← scan.rsCbuf
      let lineoff := scan.rsCtup.tSelf.posid + 1
      heapgetpages rel false scan.rsNblocks scan page dp (dp.maxOffsetNumber + 1 - lineoff) lineoff
    else if scan.rsNblocks = 0 ∨ scan.rsNumblocks = some 0 then
      some { scan with rsCtup := { scan.rsCtup with tData := none } }
    else do
      let page := scan.rsStartblock
      let scan := { heapgetpage rel scan page with rsInited := true }
      let dp ← scan.rsCbuf
      heapgetpages rel false scan.rsNblocks scan page dp dp.maxOffsetNumber 1
  | .backward =>
    if scan.rsInited then do
      let page ← scan.rsCblock
      let dp ← scan.rsCbuf
      let lineoff := scan.rsCtup.tSelf.posid - 1
      heapgetpages rel true scan.rsNblocks scan page dp lineoff lineoff
    else if scan.rsNblocks = 0 ∨ scan.rsNumblocks = some 0 then
      some { scan with rsCtup := { scan.rsCtup with tData := none } }
    else do
      let page := lastBlock scan
      let scan := { heapgetpage rel scan page with rsInited := true }
      let dp ← scan.rsCbuf
      let lines := dp.maxOffsetNumber
      heapgetpages rel true scan.rsNblocks scan page dp lines lines
  | .noMovement =>
    if scan.rsInited then do
      let page := scan.rsCtup.tSelf.block
      let scan :=
        if scan.rsCblock = some page then scan else heapgetpage rel scan page
      let dp ← scan.rsCbuf
      let lpp := dp.itemId scan.rsCtup.tSelf.posid
      some { scan with
        rsCtup := { scan.rsCtup with
          tLen := lpp.lpLen, tData := some (dp.bytes.drop lpp.lpOff) } }
    else some { scan with rsCtup := { scan.rsCtup with tData := none } }

/-- The tuple is `none` at the end of the scan, where the source returns
`NULL`. -/
def heapGetnext (dir : ScanDirection) : Option (Option HeapTuple × HeapScan D) := do
  let scan ← heapgettup rel scan dir
  match scan.rsCtup.tData with
  | none => some (none, scan)
  | some _ => some (some scan.rsCtup, scan)

end Soda.Storpu
