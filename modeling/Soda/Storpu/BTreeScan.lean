import Soda.Storpu.BTree

/-!
# Index scans

`btgettuple` and what is below it.  The first call chooses start keys, searches
for them and saves the matching items of the leaf page it arrives at.  Further
calls hand out saved items, and step to the next page when there are no more.
-/

namespace Soda.Storpu

open BTPage (pNone pHikey)

inductive BTStrategy
  | less
  | lessEqual
  | equal
  | greaterEqual
  | greater
  deriving DecidableEq, Repr

structure BTScanKey (D : Type) extends ScanKey D where
  skFlags : ℕ
  skStrategy : BTStrategy

structure BTScanPosItem where
  heapTid : ItemPointer
  indexOffset : ℕ

/-- `currPage` is missing where the position is invalid. -/
structure BTScanPos where
  currPage : Option ℕ
  nextPage : Option ℕ
  moreLeft : Bool
  moreRight : Bool
  firstItem : ℤ
  lastItem : ℤ
  itemIndex : ℤ
  items : ℤ → BTScanPosItem

def BTScanPos.invalidate (pos : BTScanPos) : BTScanPos :=
  { pos with currPage := none, nextPage := none }

/-- `itemIndex` one step in the direction of the scan. -/
def BTScanPos.advance (pos : BTScanPos) (dir : ScanDirection) : BTScanPos :=
  if dir = .forward then { pos with itemIndex := pos.itemIndex + 1 }
  else { pos with itemIndex := pos.itemIndex - 1 }

/-- `itemIndex` has left the saved items. -/
def BTScanPos.passed (pos : BTScanPos) (dir : ScanDirection) : Bool :=
  if dir = .forward then decide (pos.itemIndex > pos.lastItem)
  else decide (pos.itemIndex < pos.firstItem)

/-- A scan, with the metapage that is cached for its index. -/
structure BTScan (D : Type) where
  numberOfKeys : ℕ
  keyData : List (BTScanKey D)
  currPos : BTScanPos
  rdAmcache : Option BTMetaPageData

variable {D : Type}

/-! ### Choosing start keys -/

/-- The `switch` on the strategy of a key of the current attribute. -/
def btConsider (dir : ScanDirection) (chosen : Option (BTScanKey D))
    (cur : BTScanKey D) : Option (BTScanKey D) :=
  match cur.skStrategy with
  | .less | .lessEqual =>
    if chosen.isNone ∧ dir = .backward then some cur else chosen
  | .equal => some cur
  | .greaterEqual | .greater =>
    if chosen.isNone ∧ dir = .forward then some cur else chosen

/-- `strat_total` after a key has been chosen. -/
def btStratTotal (chosen : BTScanKey D) (stratTotal : BTStrategy) : BTStrategy :=
  if chosen.skStrategy ≠ .equal then chosen.skStrategy else stratTotal

/-- The loop over the keys that are left, with the current attribute and the key
chosen for it: the start keys from that attribute on, and `strat_total`. -/
def btStartKeys (dir : ScanDirection) :
    List (BTScanKey D) → ℕ → Option (BTScanKey D) → BTStrategy → List (BTScanKey D) × BTStrategy
  | [], _, chosen, stratTotal =>
    match chosen with
    | none => ([], stratTotal)
    | some chosen => ([chosen], btStratTotal chosen stratTotal)
  | cur :: keys, curattr, chosen, stratTotal =>
    if cur.skAttno = curattr then
      btStartKeys dir keys curattr (btConsider dir chosen cur) stratTotal
    else
      match chosen with
      | none => ([], stratTotal)
      | some chosen =>
        let stratTotal := btStratTotal chosen stratTotal
        if chosen.skStrategy = .greater ∨ chosen.skStrategy = .less ∨ cur.skAttno ≠ curattr + 1 then
          ([chosen], stratTotal)
        else
          let (startKeys, stratTotal) := btStartKeys dir keys
            cur.skAttno (btConsider dir none cur) stratTotal
          (chosen :: startKeys, stratTotal)

def btNextkey (dir : ScanDirection) : BTStrategy → Bool
  | .less => false
  | .lessEqual => true
  | .equal => dir = .backward
  | .greaterEqual => false
  | .greater => true

def btGoback (dir : ScanDirection) : BTStrategy → Bool
  | .less => true
  | .lessEqual => true
  | .equal => dir = .backward
  | .greaterEqual => false
  | .greater => false

def btInsertKey (startKeys : List (BTScanKey D)) (nextkey : Bool) : BTScanInsert D where
  heapkeyspace := true
  pivotsearch := false
  nextkey := nextkey
  scantid := none
  scankeys := startKeys.map fun cur => ⟨cur.skAttno, cur.skArgument⟩

/-! ### Reading a page -/

/-- `SK_BT_REQFWD` for forward scans and `SK_BT_REQBKWD` for backward ones. -/
def BTScanKey.required (key : BTScanKey D) (dir : ScanDirection) : Bool :=
  (key.skFlags &&& 0x10000 != 0 && dir = .forward) ||
    (key.skFlags &&& 0x20000 != 0 && dir = .backward)

/-- Whether a tuple satisfies the keys, and whether the scan is to go on.  Null
attributes abort the scan. -/
def btCheckkeys (dir : ScanDirection) (itup : IndexTuple D) (tupnatts : ℕ) :
    List (BTScanKey D) → Option (Bool × Bool)
  | [] => some (true, true)
  | key :: keys =>
    if key.skAttno > tupnatts then btCheckkeys dir itup tupnatts keys
    else do
      let datum ← itup.getattr key.skAttno
      if key.skFunc datum key.skArgument then
        btCheckkeys dir itup tupnatts keys
      else some (false, !key.required dir)

structure BTSaved where
  items : ℤ → BTScanPosItem
  itemIndex : ℤ

/-- The forward loop of `_bt_readpage` over the next `count` offsets, and whether
the scan is to go on. -/
def btReadForward (natts : ℕ) (keys : List (BTScanKey D)) (page : BTPage D) :
    ℕ → ℕ → BTSaved → Option (BTSaved × Bool)
  | 0, _, saved => some (saved, true)
  | count + 1, offnum, saved => do
      let itup ← page.item offnum
      let (satisfied, continuescan) ← btCheckkeys .forward itup natts keys
      let saved : BTSaved :=
        if satisfied then
          ⟨Function.update saved.items saved.itemIndex ⟨itup.tTid, offnum⟩, saved.itemIndex + 1⟩
        else saved
      if continuescan then
        btReadForward natts keys page count (offnum + 1) saved
      else some (saved, false)

/-- The backward loop, which fills the items from the end. -/
def btReadBackward (natts : ℕ) (keys : List (BTScanKey D)) (page : BTPage D)
    (dir : ScanDirection) : ℕ → ℕ → BTSaved → Option (BTSaved × Bool)
  | 0, _, saved => some (saved, true)
  | count + 1, offnum, saved => do
      let itup ← page.item offnum
      let (satisfied, continuescan) ← btCheckkeys dir itup natts keys
      let saved : BTSaved :=
        if satisfied then
          ⟨Function.update saved.items (saved.itemIndex - 1)
            ⟨itup.tTid, offnum⟩, saved.itemIndex - 1⟩
        else saved
      if continuescan then
        btReadBackward natts keys page dir count (offnum - 1) saved
      else some (saved, false)

/-- `MaxTIDsPerBTreePage` for blocks of 16384 bytes. -/
def maxTIDsPerBTreePage : ℤ := (16384 - 24 - 16) / 6

/-- The high key tells whether the next page can have matches. -/
def btCheckHikey (natts : ℕ) (keys : List (BTScanKey D)) (page : BTPage D) : Option Bool := do
  let itup ← page.item pHikey
  let (_, continuescan) ← btCheckkeys .forward itup (itup.getNAtts natts) keys
  some continuescan

variable (rel : BTRel D)

/-- Whether items were saved, and the position with them. -/
def btReadpage (keys : List (BTScanKey D))
    (dir : ScanDirection) (buf : BTBuffer D) (offnum : ℕ) (pos : BTScanPos) :
    Option (Bool × BTScanPos) := do
  let page := buf.bufpage
  let minoff := page.firstDataKey
  let maxoff := page.maxOffsetNumber
  let pos := { pos with
    currPage := some buf.blkno
    nextPage := some page.btpoNext }
  let pos ←
    if dir = .forward then do
      let offnum := max offnum minoff
      let (saved, continuescan) ← btReadForward rel.natts keys page
        (maxoff + 1 - offnum) offnum ⟨pos.items, 0⟩
      let continuescan ←
        if continuescan && !page.rightmost then
          btCheckHikey rel.natts keys page
        else some continuescan
      some { pos with
        items := saved.items
        moreRight := pos.moreRight && continuescan
        firstItem := 0
        lastItem := saved.itemIndex - 1
        itemIndex := 0 }
    else do
      let offnum := min offnum maxoff
      let (saved, continuescan) ← btReadBackward rel.natts keys page dir
        (offnum + 1 - minoff) offnum ⟨pos.items, maxTIDsPerBTreePage⟩
      some { pos with
        items := saved.items
        moreLeft := pos.moreLeft && continuescan
        firstItem := saved.itemIndex
        lastItem := maxTIDsPerBTreePage - 1
        itemIndex := maxTIDsPerBTreePage - 1 }
  some (pos.firstItem ≤ pos.lastItem, pos)

/-! ### Stepping to the next page -/

/-- Only forward scans get to another page. -/
def btReadnextpage (rel : BTRel D) (keys : List (BTScanKey D)) (dir : ScanDirection) :
    ℕ → ℕ → BTScanPos → Option (Bool × BTScanPos)
  | 0, _, _ => none
  | fuel + 1, blkno, pos =>
    if dir = .forward then
      if blkno = pNone ∨ pos.moreRight = false then
        some (false, pos.invalidate)
      else do
        let buf ← rel.readBuffer blkno
        if buf.bufpage.ignore then
          btReadnextpage rel keys dir fuel buf.bufpage.btpoNext pos
        else do
          let (found, pos) ← btReadpage rel keys dir buf buf.bufpage.firstDataKey pos
          if found then some (true, pos)
          else btReadnextpage rel keys dir fuel buf.bufpage.btpoNext pos
    else none

def btSteppage (keys : List (BTScanKey D))
    (dir : ScanDirection) (pos : BTScanPos) : Option (Bool × BTScanPos) := do
  let blkno ← if dir = .forward then pos.nextPage else pos.currPage
  let pos :=
    if dir = .forward then { pos with moreLeft := true }
    else { pos with moreRight := true }
  btReadnextpage rel keys dir (rel.pages.length + 1) blkno pos

/-! ### The calls -/

variable (scan : BTScan D)

/-- The item that `itemIndex` stands on, or none at the end. -/
def BTScan.fetched (found : Bool) (pos : BTScanPos) : Option ItemPointer × BTScan D :=
  (if found then some (pos.items pos.itemIndex).heapTid else none, { scan with currPos := pos })

def btFirst (dir : ScanDirection) : Option (Option ItemPointer × BTScan D) := do
  let keys := scan.keyData
  let (startKeys, stratTotal) := btStartKeys dir keys 1 none .equal
  if startKeys = [] then none
  else do
    let inskey := btInsertKey startKeys (btNextkey dir stratTotal)
    let (buf, rdAmcache) ← btSearch rel inskey scan.rdAmcache
    let scan := { scan with rdAmcache }
    match buf with
    | none => some (scan.fetched false scan.currPos.invalidate)
    | some buf => do
        let pos := { scan.currPos with
          moreLeft := decide (dir ≠ .forward)
          moreRight := decide (dir = .forward) }
        let offnum ← btBinsrch rel inskey buf.bufpage
        let offnum := if btGoback dir stratTotal then offnum - 1 else offnum
        let (found, pos) ← btReadpage rel keys dir buf offnum pos
        let (found, pos) ←
          if found then some (true, pos) else btSteppage rel keys dir pos
        some (scan.fetched found pos)

def btNext (dir : ScanDirection) : Option (Option ItemPointer × BTScan D) := do
  let pos := scan.currPos.advance dir
  let (found, pos) ←
    if pos.passed dir then btSteppage rel scan.keyData dir pos
    else some (true, pos)
  some (scan.fetched found pos)

def btgettuple (dir : ScanDirection) (scan : BTScan D) : Option (Option ItemPointer × BTScan D) :=
  if scan.currPos.currPage.isNone then btFirst rel scan dir
  else btNext rel scan dir

/-- A new scan, in zeroed memory. -/
def btbeginscan (nkeys : ℕ) (rdAmcache : Option BTMetaPageData) : BTScan D where
  numberOfKeys := nkeys
  keyData := []
  currPos := ⟨none, none, false, false, 0, 0, 0, fun _ => ⟨⟨0, 0⟩, 0⟩⟩
  rdAmcache := rdAmcache

def btrescan (scankey : Option (List (BTScanKey D))) : BTScan D :=
  { scan with
    currPos := scan.currPos.invalidate
    keyData := (scankey.map (List.take scan.numberOfKeys)).getD scan.keyData }

end Soda.Storpu
