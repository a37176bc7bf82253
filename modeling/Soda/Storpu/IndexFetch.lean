import Soda.Storpu.HeapScan

/-!
# Heap tuples behind index entries

An index scan yields heap addresses.  `heapam_index_fetch_tuple` reads the page
of an address into the one buffer of the scan, follows the chain of tuple
versions from there and leaves a pointer into the buffer: the tuple is what the
buffer holds when it is looked at.
-/

namespace Soda.Storpu

/-! ### Tuple headers -/

def word16 (data : List UInt8) (off : ℕ) : ℕ :=
  (data.getD off 0).toNat + 256 * (data.getD (off + 1) 0).toNat

def word32 (data : List UInt8) (off : ℕ) : ℕ := word16 data off + 65536 * word16 data (off + 2)

def infomask2 (header : List UInt8) : ℕ := word16 header 18

def infomask (header : List UInt8) : ℕ := word16 header 20

def headerIsHeapOnly (header : List UInt8) : Bool := infomask2 header &&& 0x8000 != 0

def headerXminInvalid (header : List UInt8) : Bool := infomask header &&& 0x0300 == 0x0200

def headerIsHotUpdated (header : List UInt8) : Bool :=
  infomask2 header &&& 0x4000 != 0 && infomask header &&& 0x0800 == 0 && !headerXminInvalid header

/-- A frozen inserting transaction counts as number two. -/
def headerXmin (header : List UInt8) : ℕ :=
  if infomask header &&& 0x0300 = 0x0300 then 2 else word32 header 0

def headerUpdateXid (header : List UInt8) : ℕ := word32 header 4

def headerCtidPosid (header : List UInt8) : ℕ := word16 header 16

/-! ### Chains of tuple versions -/

/-- A tuple as a pointer into a page: its first byte is at an offset. -/
structure TuplePointer where
  tLen : ℕ
  tSelf : ItemPointer
  tOff : ℕ
  deriving DecidableEq, Repr

/-- The variables of the loop in `heap_hot_search_buffer`; zero is the invalid
transaction. -/
structure HotChain where
  offnum : ℕ
  atChainStart : Bool
  prevXmax : ℕ
  skip : Bool

/-- The offset number of the version that was found, and the tuple pointer,
which is set by every version that is looked at.  All versions are visible. -/
def heapHotSearchBuffer (dp : Page) (blkno : ℕ) :
    ℕ → HotChain → TuplePointer → Option (Option ℕ × TuplePointer)
  | 0, _, _ => none
  | fuel + 1, chain, tuple =>
    if chain.offnum < 1 ∨ chain.offnum > dp.maxOffsetNumber then
      some (none, tuple)
    else
      let lp := dp.itemId chain.offnum
      if lp.lpFlags ≠ .normal then
        if lp.lpFlags = .redirect ∧ chain.atChainStart = true then
          heapHotSearchBuffer dp blkno fuel
            { chain with offnum := lp.lpOff, atChainStart := false } tuple
        else some (none, tuple)
      else
        let tuple : TuplePointer := ⟨lp.lpLen, ⟨blkno, chain.offnum⟩, lp.lpOff⟩
        let header := dp.bytes.drop lp.lpOff
        if chain.atChainStart && headerIsHeapOnly header then
          some (none, tuple)
        else if chain.prevXmax ≠ 0 ∧ chain.prevXmax ≠ headerXmin header then
          some (none, tuple)
        else if chain.skip = false then some (some chain.offnum, tuple)
        else if headerIsHotUpdated header then
          heapHotSearchBuffer dp blkno fuel
            { offnum := headerCtidPosid header
              atChainStart := false
              prevXmax := headerUpdateXid header
              skip := false } tuple
        else some (none, tuple)

/-! ### The buffer of an index scan -/

/-- `xsCbuf` is the block in the buffer if the buffer is valid; `xsTupdata`
points into the buffer. -/
structure IndexFetchHeap where
  xsCbuf : Option ℕ
  bufpage : Page
  xsTupdata : TuplePointer

namespace IndexFetchHeap

def htup (fetch : IndexFetchHeap) : HeapTuple where
  tLen := fetch.xsTupdata.tLen
  tSelf := fetch.xsTupdata.tSelf
  tData := some (fetch.bufpage.bytes.drop fetch.xsTupdata.tOff)

def reset (fetch : IndexFetchHeap) : IndexFetchHeap :=
  { fetch with xsCbuf := none }

end IndexFetchHeap

variable {D S : Type}

/-- Whether a tuple was found, the address of its version, and the buffer.  No
result means that the page could not be read. -/
def heapamIndexFetchTuple (rel : HeapRel D) (fetch : IndexFetchHeap)
    (tid : ItemPointer) (callAgain : Bool) :
    Option (Bool × ItemPointer × IndexFetchHeap) := do
  let fetch ←
    if callAgain = false ∧ fetch.xsCbuf ≠ some tid.block then do
      let page ← rel.pages[tid.block]?
      some { fetch with xsCbuf := some tid.block, bufpage := page }
    else some fetch
  let _ ← fetch.xsCbuf
  let (found, tuple) ← heapHotSearchBuffer fetch.bufpage tid.block 3
    { offnum := tid.posid
      atChainStart := !callAgain
      prevXmax := 0
      skip := callAgain } fetch.xsTupdata
  let tid := found.elim tid fun offnum => { tid with posid := offnum }
  some (found.isSome, tid, { fetch with xsTupdata := { tuple with tSelf := tid } })

/-- An index scan over an access method with states `S`. -/
structure IndexScan (S : Type) where
  am : S
  xsHeaptid : ItemPointer
  xsHeapContinue : Bool
  xsHeapfetch : IndexFetchHeap

/-- `gettuple` is the access method's step: the next heap address, if there is
one. -/
def indexGetnextTid (gettuple : S → Option (Option ItemPointer × S))
    (scan : IndexScan S) : Option (Bool × IndexScan S) := do
  let (found, am) ← gettuple scan.am
  let scan := { scan with am, xsHeapContinue := false }
  match found with
  | none => some (false, { scan with xsHeapfetch := scan.xsHeapfetch.reset })
  | some tid => some (true, { scan with xsHeaptid := tid })

/-- The loop looks at one index entry after another until one has a tuple.  The
result says whether the pointer to the tuple is set. -/
def indexGetnextSlot (rel : HeapRel D) (gettuple : S → Option (Option ItemPointer × S)) :
    ℕ → IndexScan S → Option (Bool × IndexScan S)
  | 0, _ => none
  | fuel + 1, scan => do
      let (more, scan) ←
        if scan.xsHeapContinue = false then indexGetnextTid gettuple scan
        else some (true, scan)
      if more = false then some (false, scan)
      else
        let (found, tid, fetch) ← heapamIndexFetchTuple rel scan.xsHeapfetch
          scan.xsHeaptid scan.xsHeapContinue
        let scan := { scan with
          xsHeaptid := tid, xsHeapContinue := false, xsHeapfetch := fetch }
        if found then some (true, scan)
        else indexGetnextSlot rel gettuple fuel scan

end Soda.Storpu
