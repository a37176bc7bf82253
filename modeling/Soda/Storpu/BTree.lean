import Soda.Core.Bisect
import Soda.Storpu.HeapScan

/-!
# Searching a B-tree

The pages of a B-tree and `_bt_search`: the descent starts at the page that the
metapage, or a copy of it kept with the relation, gives as the root.  On every
level it moves right over pages that end before the search key, and bisects the
page it stops at for the downlink to follow.

A result is missing where the source reads an item or a block that is not
there, or goes round in a circle of links.
-/

namespace Soda.Storpu

/-! ### Index tuples -/

/-- An index tuple: the attributes that are stored, null ones without a value,
and the heap address that a pivot tuple may have at its end. -/
structure IndexTuple (D : Type) where
  tTid : ItemPointer
  tInfo : ℕ
  attrs : List (Option D)
  tailTid : ItemPointer
  deriving DecidableEq

namespace IndexTuple

variable {D : Type}

variable (itup : IndexTuple D)

/-- `INDEX_ALT_TID_MASK` without `BT_IS_POSTING`. -/
def isPivot : Bool := itup.tInfo &&& 0x2000 != 0 && itup.tTid.posid &&& 0x2000 == 0

/-- `BTreeTupleGetNAtts`: a pivot tuple has `BT_OFFSET_MASK` of its offset. -/
def getNAtts (natts : ℕ) (itup : IndexTuple D) : ℕ :=
  if itup.isPivot then itup.tTid.posid &&& 0x0FFF else natts

/-- `BTreeTupleGetHeapTID`: pivot tuples have one with
`BT_PIVOT_HEAP_TID_ATTR` only. -/
def getHeapTID : Option ItemPointer :=
  if itup.isPivot then
    if itup.tTid.posid &&& 0x1000 ≠ 0 then some itup.tailTid else none
  else some itup.tTid

def getDownLink : ℕ := itup.tTid.block

def getattr (attno : ℕ) : Option D := itup.attrs.getD (attno - 1) none

end IndexTuple

/-! ### Pages -/

structure BTPage (D : Type) where
  btpoPrev : ℕ
  btpoNext : ℕ
  btpoFlags : ℕ
  items : List (IndexTuple D)

namespace BTPage

variable {D : Type}

def btpLeaf : ℕ := 0x01
def btpDeleted : ℕ := 0x04
def btpMeta : ℕ := 0x08
def btpHalfDead : ℕ := 0x10

/-- `P_NONE`, the block number of no page. -/
def pNone : ℕ := 0

variable (page : BTPage D)

def leftmost : Bool := page.btpoPrev == pNone

def rightmost : Bool := page.btpoNext == pNone

def isLeaf : Bool := page.btpoFlags &&& btpLeaf != 0

def ignore : Bool := page.btpoFlags &&& (btpDeleted ||| btpHalfDead) != 0

def pHikey : ℕ := 1
def pFirstkey : ℕ := 2

/-- The first item of a page is its high key, except on a rightmost page. -/
def firstDataKey : ℕ :=
  if page.rightmost then pHikey else pFirstkey

def maxOffsetNumber : ℕ := page.items.length

/-- Offset numbers start at one. -/
def item (offnum : ℕ) : Option (IndexTuple D) :=
  if offnum = 0 then none else page.items[offnum - 1]?

end BTPage

open BTPage (pNone pHikey)

structure BTMetaPageData where
  btmRoot : ℕ
  btmFastroot : ℕ
  btmFastlevel : ℕ
  deriving DecidableEq

/-- An index: the number of its attributes with the comparison function of each,
the contents of its metapage, and its blocks.  Block 0 is the metapage. -/
structure BTRel (D : Type) where
  natts : ℕ
  cmpProc : ℕ → D → D → Ordering
  metad : BTMetaPageData
  pages : List (BTPage D)

structure BTBuffer (D : Type) where
  blkno : ℕ
  bufpage : BTPage D

variable {D : Type}

variable (rel : BTRel D)

def BTRel.readBuffer (blkno : ℕ) : Option (BTBuffer D) := do
  let page ← rel.pages[blkno]?
  some ⟨blkno, page⟩

/-! ### Search keys -/

structure InsertKey (D : Type) where
  skAttno : ℕ
  skArgument : D

structure BTScanInsert (D : Type) where
  heapkeyspace : Bool
  pivotsearch : Bool
  nextkey : Bool
  scantid : Option ItemPointer
  scankeys : List (InsertKey D)

def itemPointerCompare (left right : ItemPointer) : Ordering :=
  (compare left.block right.block).then (compare left.posid right.posid)

/-- The loop over the attributes of a tuple that a search key has values for. -/
def btCompareKeys (rel : BTRel D) (itup : IndexTuple D) :
    List (InsertKey D) → Ordering
  | [] => .eq
  | scankey :: scankeys =>
    let result :=
      match itup.getattr scankey.skAttno with
      | none => Ordering.lt
      | some datum => (rel.cmpProc scankey.skAttno datum scankey.skArgument).swap
    match result with
    | .eq => btCompareKeys rel itup scankeys
    | result => result

variable (key : BTScanInsert D)

def btCompareTuple (itup : IndexTuple D) : Ordering :=
  let ntupatts := itup.getNAtts rel.natts
  let keysz := key.scankeys.length
  match btCompareKeys rel itup (key.scankeys.take (min keysz ntupatts)) with
  | .eq =>
    if keysz > ntupatts then .gt
    else
      match key.scantid with
      | none =>
        if key.heapkeyspace && !key.pivotsearch && keysz == ntupatts && itup.getHeapTID.isNone then
          .gt
        else .eq
      | some scantid =>
        match itup.getHeapTID with
        | none => .gt
        | some heapTid => itemPointerCompare scantid heapTid
  | result => result

/-- The first downlink of an inner page is below every key. -/
def btCompare (page : BTPage D) (offnum : ℕ) : Option Ordering :=
  if !page.isLeaf && offnum == page.firstDataKey then some .gt
  else (page.item offnum).map (btCompareTuple rel key)

/-- The comparison with `cmpval`. -/
def reachesCmpval (nextkey : Bool) (result : Ordering) : Bool :=
  if nextkey then result.isGE else result.isGT

def BTScanInsert.passes (result : Ordering) : Bool := reachesCmpval key.nextkey result

/-! ### The descent -/

def btBinsrch (page : BTPage D) : Option ℕ :=
  let low := page.firstDataKey
  let high := page.maxOffsetNumber
  if high < low then some low
  else do
    let low ← bisect
      (fun mid => (btCompare rel key page mid).map key.passes) (high + 1 - low) low (high + 1)
    if page.isLeaf then some low else some (low - 1)

/-- Whether `_bt_moveright` steps right: not from a rightmost page, and else over
a page that is to be ignored or that ends before the key. -/
def btStepsRight (page : BTPage D) : Option Bool :=
  if page.rightmost then some false
  else if page.ignore then some true
  else (btCompare rel key page pHikey).map key.passes

def btMoveright (rel : BTRel D) (key : BTScanInsert D) :
    ℕ → BTBuffer D → Option (BTBuffer D)
  | 0, _ => none
  | fuel + 1, buf => do
      if ← btStepsRight rel key buf.bufpage then
        let buf ← rel.readBuffer buf.bufpage.btpoNext
        btMoveright rel key fuel buf
      else some buf

/-- Pages that are to be ignored are no root. -/
def btSkipIgnored (rel : BTRel D) : ℕ → ℕ → Option (BTBuffer D)
  | 0, _ => none
  | fuel + 1, rootblkno => do
      let rootbuf ← rel.readBuffer rootblkno
      if !rootbuf.bufpage.ignore then some rootbuf
      else btSkipIgnored rel fuel rootbuf.bufpage.btpoNext

/-- The root by the metapage on disk, which is then cached.  An empty tree has no
root. -/
def btGetrootMeta : Option (Option (BTBuffer D) × Option BTMetaPageData) := do
  let _ ← rel.readBuffer 0
  if rel.metad.btmRoot = pNone then some (none, none)
  else do
    let rootbuf ← btSkipIgnored rel rel.pages.length rel.metad.btmFastroot
    some (some rootbuf, some rel.metad)

/-- `rd_amcache` is the cached metapage.  The block that is read for it has the
number `btm_fastlevel`. -/
def btGetroot (rdAmcache : Option BTMetaPageData) :
    Option (Option (BTBuffer D) × Option BTMetaPageData) :=
  match rdAmcache with
  | some metad => do
      let rootbuf ← rel.readBuffer metad.btmFastlevel
      let page := rootbuf.bufpage
      if !page.ignore && page.leftmost && page.rightmost then
        some (some rootbuf, rdAmcache)
      else btGetrootMeta rel
  | none => btGetrootMeta rel

def btDescend (rel : BTRel D) (key : BTScanInsert D) :
    ℕ → BTBuffer D → Option (BTBuffer D)
  | 0, _ => none
  | fuel + 1, buf => do
      let buf ← btMoveright rel key rel.pages.length buf
      if buf.bufpage.isLeaf then some buf
      else do
        let offnum ← btBinsrch rel key buf.bufpage
        let itup ← buf.bufpage.item offnum
        let buf ← rel.readBuffer itup.getDownLink
        btDescend rel key fuel buf

/-- The leaf page that the search ends on, if the tree has one, and the cached
metapage. -/
def btSearch (rdAmcache : Option BTMetaPageData) :
    Option (Option (BTBuffer D) × Option BTMetaPageData) := do
  let (rootbuf, rdAmcache) ← btGetroot rel rdAmcache
  match rootbuf with
  | none => some (none, rdAmcache)
  | some rootbuf => do
      let leaf ← btDescend rel key rel.pages.length rootbuf
      some (some leaf, rdAmcache)

end Soda.Storpu
