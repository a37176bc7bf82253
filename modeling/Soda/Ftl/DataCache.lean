import Soda.Ftl.Runtime

/-!
# Data cache

A translation of `data_cache.c` with the write cache enabled.  The code is
generic in the layer below: `dispatch` stands for `amu_dispatch`.

Host data moves in request order, so a transaction's first sector in the host
buffer is the number of sectors of the transactions before it.
-/

namespace Soda

variable {D μ : Type}

open Prog Sys

/-- `amu_dispatch`: return code and the transactions after it. -/
abbrev Dispatch (D μ : Type) := List (Txn D) → Coro D μ (Status × List (Txn D))

namespace CacheEntry

/-- `cache_cmp_key` compares namespaces first. -/
def key (entry : CacheEntry D) : ℕ ×ₗ ℕ := toLex (entry.nsid, entry.lpa)

/-- The valid sectors are copied into a fresh buffer and the whole buffer is to
be programmed. -/
def writeback (entry : CacheEntry D) (buffer : ℕ → D) : Txn D where
  type := .write
  nsid := entry.nsid
  lpa := entry.lpa
  bitmap := entry.bitmap
  data := overlay entry.bitmap entry.data buffer
  offset := 0
  length := 2 ^ flashPgShift

end CacheEntry

namespace DataCache

def find (cache : DataCache D) (nsid lpa : ℕ) : Option ℕ :=
  cache.tree.find? fun slot => (cache.entries slot).nsid = nsid ∧ (cache.entries slot).lpa = lpa

variable (cache : DataCache D)

def modifyEntry (slot : ℕ) (update : CacheEntry D → CacheEntry D) : DataCache D :=
  { cache with
    entries := Function.update cache.entries slot (update (cache.entries slot)) }

def addEntry (slot : ℕ) : DataCache D :=
  { cache with
    tree := treeInsert (fun left right =>
      (cache.entries left).key < (cache.entries right).key) slot cache.tree
    nrPages := cache.nrPages + 1 }

/-- `avl_erase`: the node that compares equal is taken out. -/
def eraseTree (slot : ℕ) : DataCache D :=
  { cache with
    tree := cache.tree.eraseP fun other => (cache.entries other).key = (cache.entries slot).key }

/-- `pin_entry`: the first pin takes the entry out of the list. -/
def pin (slot : ℕ) : DataCache D :=
  { cache.modifyEntry slot fun entry =>
      { entry with pinCount := entry.pinCount + 1 } with
    lru := if (cache.entries slot).pinCount = 0 then cache.lru.erase slot
      else cache.lru }

/-- `unpin_entry` of a pinned entry: the last unpin puts it back. -/
def unpin (slot : ℕ) : DataCache D :=
  { cache.modifyEntry slot fun entry =>
      { entry with pinCount := entry.pinCount - 1 } with
    lru := if (cache.entries slot).pinCount - 1 = 0 then slot :: cache.lru
      else cache.lru }

/-- A new entry in a slot of the slab that was never used, dirty and pinned
once. -/
def newEntry (nsid lpa : ℕ) (bitmap : PageBitmap) (data : ℕ → D) : DataCache D :=
  let slot := cache.nextEntry
  ({ cache with nextEntry := slot + 1 }.modifyEntry slot fun _ =>
    ⟨nsid, lpa, bitmap, .dirty, 1, {}, data⟩).addEntry slot

def evict (slot : ℕ) : DataCache D :=
  { cache.eraseTree slot with
    lru := cache.lru.erase slot, nrPages := cache.nrPages - 1 }

/-- An evicted entry is put to a new use, with its old data still in it. -/
def recycle (slot nsid lpa : ℕ) (bitmap : PageBitmap) : DataCache D :=
  (cache.modifyEntry slot fun entry =>
    { entry with
      status := .dirty, nsid := nsid, lpa := lpa, bitmap := bitmap
    }).addEntry slot

def init [Zero D] (capacityPages : ℕ) : DataCache D where
  capacityPages := capacityPages
  nrPages := 0
  entries := fun _ => ⟨0, 0, 0, .empty, 0, {}, fun _ => 0⟩
  nextEntry := 0
  tree := []
  lru := []

end DataCache

namespace Sys

def modifyCache (update : DataCache D → DataCache D) (s : Sys D μ) : Sys D μ :=
  { s with cache := update s.cache }

def modifyEntry (slot : ℕ) (update : CacheEntry D → CacheEntry D) (s : Sys D μ) : Sys D μ :=
  s.modifyCache fun cache => cache.modifyEntry slot update

end Sys

def lockEntry (slot : ℕ) : Coro D μ Unit :=
  lockWith (fun s => (s.cache.entries slot).mutex) (fun update => modifyEntry slot fun entry =>
      { entry with mutex := update entry.mutex })
    (.entry slot)

def unlockEntry (slot : ℕ) : Coro D μ Unit :=
  modify fun s => s.modifyEntry slot fun entry =>
    { entry with mutex := entry.mutex.unlock s.current }

def pinEntry (slot : ℕ) : Coro D μ Unit := modify (modifyCache fun cache => cache.pin slot)

def unpinEntry (slot : ℕ) : Coro D μ Unit := do
  let s ← get
  assert .assertion (0 < (s.cache.entries slot).pinCount)
  modify (modifyCache fun cache => cache.unpin slot)

def cacheTouchLru (slot : ℕ) : Coro D μ Unit := do
  pinEntry slot
  unpinEntry slot

variable (env : Env D)

def cacheAdd (nsid lpa : ℕ) (bitmap : PageBitmap) : Coro D μ (Status × ℕ) := do
  let s ← get
  if s.cache.capacityPages ≤ s.cache.nrPages then pure (some .enospc, 0)
  else do
    let struct ← allocMem env
    if struct then do
      let buffer ← allocBuffer env
      match buffer with
      | none => pure (some .enomem, 0)
      | some data => do
          modify (modifyCache fun cache => cache.newEntry nsid lpa bitmap data)
          pure (none, s.cache.nextEntry)
    else pure (some .enomem, 0)

/-- `cache_evict_entry`: the least recently used entry. -/
def cacheEvictEntry : Coro D μ (Status × ℕ) := do
  let s ← get
  match s.cache.lru.getLast? with
  | none => pure (some .enomem, 0)
  | some slot => do
      assert .assertion ((s.cache.entries slot).pinCount = 0)
      modify (modifyCache fun cache => cache.evict slot)
      pure (none, slot)

def generateWriteback (slot : ℕ) : Coro D μ (Option (Txn D)) := do
  let s ← get
  let buffer ← allocBuffer env
  match buffer with
  | none => pure none
  | some data => pure (some ((s.cache.entries slot).writeback data))

/-! ### Writes -/

variable (txn : Txn D)

/-- `memset(iov->iov_base, 0, iov->iov_len)`. -/
def zeroSectors [Zero D] (data : ℕ → D) : ℕ → D :=
  fun sector => if txn.covers sector then 0 else data sector

def recycleEntry (slot : ℕ) : Coro D μ Unit := do
  modify (modifyCache fun cache => cache.recycle slot txn.nsid txn.lpa txn.bitmap)
  pinEntry slot
  lockEntry slot

def evictedWriteback (slot : ℕ) : Coro D μ (Status × List (Txn D)) := do
  let s ← get
  if (s.cache.entries slot).status = .dirty then do
    let struct ← allocMem env
    if struct then do
      let writeback ← generateWriteback env slot
      match writeback with
      | none => pure (some .enomem, [])
      | some txn => pure (none, [txn])
    else pure (some .enomem, [])
  else pure (none, [])

/-- The entry for one transaction of a write, pinned and locked: return code,
entry and write-backs.  A hit leaves the return code as it is. -/
def acquireEntry (status : Status) (txn : Txn D) : Coro D μ (Status × Option ℕ × List (Txn D)) := do
  let s ← get
  match s.cache.find txn.nsid txn.lpa with
  | some slot => do
      pinEntry slot
      lockEntry slot
      modify (modifyEntry slot fun entry =>
        { entry with bitmap := entry.bitmap ||| txn.bitmap, status := .dirty })
      let s ← get
      assert .assertion ((s.cache.entries slot).lpa = txn.lpa)
      pure (status, some slot, [])
  | none => do
      let (added, slot) ← cacheAdd env txn.nsid txn.lpa txn.bitmap
      match added with
      | none => do
          lockEntry slot
          pure (none, some slot, [])
      | some .enospc => do
          let (evicted, slot) ← cacheEvictEntry
          if evicted = none then do
            let (status, writebacks) ← evictedWriteback env slot
            if status = none then do
              recycleEntry txn slot
              pure (none, some slot, writebacks)
            else pure (status, none, writebacks)
          else pure (evicted, none, [])
      | some error => pure (some error, none, [])

/-- First loop of `write_buffers`: return code, transactions with their
entries, and write-backs.  After a failure the remaining transactions have no
entry. -/
def acquireEntries [Zero D] (env : Env D) (zeroes : Bool) :
    ℕ → Status → List (Txn D) → Coro D μ (Status × List (Txn D) × List (Txn D) × Bool)
  | _, status, [] => pure (status, [], [], true)
  | index, status, txn :: txns =>
    if maxIovecs ≤ index then pure (some .enomem, txn :: txns, [], false)
    else do
      let (status, slot, writebacks) ← acquireEntry env status txn
      match slot with
      | none => pure (status, txn :: txns, writebacks, false)
      | some slot => do
          if zeroes then
            modify (modifyEntry slot fun entry =>
              { entry with data := zeroSectors txn entry.data })
          else pure ()
          let (status, rest, others, complete) ← acquireEntries env zeroes (index + 1) status txns
          pure (status, { txn with entry := some slot } :: rest, writebacks ++ others, complete)

/-- `nvme_dma_read` into the cache entries, from sector `base` of the host
buffer on. -/
def scatter (data : ℕ → D) : ℕ → List (Txn D) → DataCache D → DataCache D
  | _, [], cache => cache
  | base, txn :: txns, cache =>
    let first := txn.offset >>> sectorShift
    scatter data (base + txn.length >>> sectorShift) txns (match txn.entry with
      | none => cache
      | some slot => cache.modifyEntry slot fun entry =>
        { entry with data := fun sector =>
            if txn.covers sector then data (base + (sector - first))
            else entry.data sector })

/-- The `cleanup` part of `write_buffers`: an entry is thrown away when the
request failed. -/
def releaseEntries (status : Status) : List (Txn D) → Coro D μ Unit
  | [] => pure ()
  | txn :: txns =>
    match txn.entry with
    | none => fault .nullPointer
    | some slot => do
        if status = none then pure ()
        else modify fun s =>
          (s.modifyEntry slot fun entry => { entry with status := .empty
            }).modifyCache fun cache => cache.eraseTree slot
        unlockEntry slot
        unpinEntry slot
        releaseEntries status txns

variable (dispatch : Dispatch D μ)

/-- `write_buffers` between the first loop and `cleanup`. -/
def fillEntries (zeroes : Bool) (data : ℕ → D)
    (status : Status) (txns writebacks : List (Txn D)) : Coro D μ Status := do
  let status ←
    if writebacks = [] then pure status
    else do
      let (status, _) ← dispatch writebacks
      pure status
  if writebacks ≠ [] ∧ status ≠ none then pure status
  else if zeroes then pure status
  else do
    let answer ← await .hostDma
    if answer.status = none then do
      modify (modifyCache (scatter data 0 txns))
      pure none
    else pure answer.status

def writeBuffers [Zero D] (zeroes : Bool) (data : ℕ → D) (txns : List (Txn D)) :
    Coro D μ Status := do
  let s ← get
  let (status, txns, writebacks, complete) ← acquireEntries env zeroes 0 (env.stray s.tick) txns
  let status ←
    if complete then fillEntries dispatch zeroes data status txns writebacks
    else pure status
  releaseEntries status txns
  pure status

/-! ### Reads -/

/-- One transaction of a read: it is a hit, served from the locked entry
behind it, or it has a buffer of its own, in which case an entry behind it
holds some of its sectors. -/
structure ReadItem (D : Type) where
  hit : Bool
  txn : Txn D

/-- The entry or buffer for one transaction of a read; `none` is `ENOMEM`. -/
def prepareRead : Coro D μ (Option (ReadItem D)) := do
  let s ← get
  match s.cache.find txn.nsid txn.lpa with
  | some slot =>
    let avail := (s.cache.entries slot).bitmap &&& txn.bitmap
    if avail = txn.bitmap then do
      pinEntry slot
      lockEntry slot
      pure (some ⟨true, { txn with entry := some slot }⟩)
    else do
      let buffer ← allocBuffer env
      match buffer with
      | none => pure none
      | some data => do
          let txn := { txn with data := data, bitmap := txn.bitmap &&& ~~~ avail }
          if avail ≠ 0 then do
            pinEntry slot
            lockEntry slot
            pure (some ⟨false, { txn with entry := some slot }⟩)
          else do
            cacheTouchLru slot
            pure (some ⟨false, { txn with entry := none }⟩)
  | none => do
      let buffer ← allocBuffer env
      match buffer with
      | none => pure none
      | some data => pure (some ⟨false, { txn with data := data, entry := none }⟩)

/-- First loop of `handle_cached_read`. -/
def prepareReads (env : Env D) :
    List (Txn D) → Coro D μ (Status × List (ReadItem D))
  | [] => pure (none, [])
  | txn :: txns => do
      let item ← prepareRead env txn
      match item with
      | none => pure (some .enomem, [])
      | some item => do
          let (status, items) ← prepareReads env txns
          pure (status, item :: items)

def misses (items : List (ReadItem D)) : List (Txn D) :=
  (items.filter fun item => !item.hit).map ReadItem.txn

/-- The items with their missing transactions replaced, in order. -/
def replaceMisses : List (ReadItem D) → List (Txn D) → List (ReadItem D)
  | [], _ => []
  | item :: items, txns =>
    if item.hit then item :: replaceMisses items txns
    else match txns with
      | [] => item :: replaceMisses items []
      | txn :: txns => ⟨false, txn⟩ :: replaceMisses items txns

/-- `zdma_iter_copy_to` from a cache entry: the valid sectors of the
transaction. -/
def overlayCached (entry : CacheEntry D) : ℕ → D := fun sector =>
  if txn.covers sector ∧ entry.bitmap.getLsbD sector then entry.data sector
  else txn.data sector

/-- The loop of `handle_cached_read` that copies cached sectors over what was
read from flash. -/
def overlayMisses : Status → List (Txn D) → Coro D μ (Status × List (Txn D))
  | status, [] => pure (status, [])
  | status, txn :: txns =>
    match txn.entry with
    | none => do
        let (status, rest) ← overlayMisses status txns
        pure (status, txn :: rest)
    | some slot => do
        let (status, txn) ←
          if status = none then do
            let answer ← await .zdma
            let s ← get
            if answer.status = none then
              pure (none, { txn with
                data := overlayCached txn (s.cache.entries slot) })
            else pure (answer.status, txn)
          else pure (status, txn)
        unlockEntry slot
        unpinEntry slot
        let (status, rest) ← overlayMisses status txns
        pure (status, txn :: rest)

def Txn.sectors : List ℕ :=
  (List.range (txn.length >>> sectorShift)).map (txn.offset >>> sectorShift + ·)

/-- What `nvme_dma_write` moves to the host. -/
def gather (cache : DataCache D) (items : List (ReadItem D)) : List D :=
  items.flatMap fun item =>
    item.txn.sectors.map (match item.hit, item.txn.entry with
      | true, some slot => (cache.entries slot).data
      | _, _ => item.txn.data)

/-- The `cleanup` part of `handle_cached_read`. -/
def releaseHits : List (ReadItem D) → Coro D μ Unit
  | [] => pure ()
  | item :: items => do
      match item.hit, item.txn.entry with
      | true, some slot => do
          unlockEntry slot
          unpinEntry slot
      | _, _ => pure ()
      releaseHits items

/-- `handle_cached_read`: return code and data for the host.  The status of
the copies is overwritten by that of the last transfer. -/
def handleCachedRead (txns : List (Txn D)) : Coro D μ (Status × List D) := do
  let (status, items) ← prepareReads env txns
  if status = none then do
    let (status, missed) ← dispatch (misses items)
    if status = none then do
      let (_, missed) ← overlayMisses none missed
      let items := replaceMisses items missed
      let answer ← await .hostDma
      let s ← get
      let data := gather s.cache items
      releaseHits items.reverse
      pure (answer.status, if answer.status = none then data else [])
    else do
      releaseHits items.reverse
      pure (status, [])
  else do
    releaseHits items.reverse
    pure (status, [])

/-! ### Flushing -/

/-- The largest logical page number, `(lpa_t)-1`. -/
def lpaEnd : ℕ := 2 ^ 64 - 1

/-- `cache_lookup_range`: dirty entries of a namespace from `offset` on, and
where to go on. -/
def cacheLookupRange (cache : DataCache D) (nsid offset stop tag nr : ℕ) : List ℕ × ℕ :=
  let found := ((cache.tree.dropWhile fun slot =>
      (cache.entries slot).key < toLex (nsid, offset)).takeWhile fun slot =>
      (cache.entries slot).nsid = nsid ∧ (cache.entries slot).lpa < stop).filter
    fun slot => (cache.entries slot).status = .dirty ∧ (cache.entries slot).lpa % nrFlushers = tag
  if nr ≤ found.length then
    (found.take nr, match (found.take nr).getLast? with
      | some slot => (cache.entries slot).lpa + 1
      | none => stop)
  else (found, stop)

/-- The loop of `flush_cache_range` that locks a batch and copies it.  An entry
for which there is no memory stays locked and pinned. -/
def collectBatch (env : Env D) (nsid tag start stop : ℕ) :
    List ℕ → Coro D μ (List (Txn D))
  | [] => pure []
  | slot :: slots => do
      let s ← get
      let entry := s.cache.entries slot
      if entry.status ≠ .dirty ∨ entry.nsid ≠ nsid ∨ entry.lpa < start ∨
          stop ≤ entry.lpa ∨ entry.lpa % nrFlushers ≠ tag then
        collectBatch env nsid tag start stop slots
      else do
        pinEntry slot
        lockEntry slot
        let writeback ← generateWriteback env slot
        match writeback with
        | none => collectBatch env nsid tag start stop slots
        | some txn => do
            let rest ← collectBatch env nsid tag start stop slots
            pure ({ txn with entry := some slot } :: rest)

/-- The loop of `flush_cache_range` after the dispatch, whose return code
nobody looks at. -/
def finishBatch : List (Txn D) → Coro D μ Unit
  | [] => pure ()
  | txn :: txns => do
      match txn.entry with
      | none => pure ()
      | some slot => do
          modify (modifyEntry slot fun entry => { entry with status := .clean })
          unlockEntry slot
          unpinEntry slot
      finishBatch txns

/-- `flush_cache_range`, from `index` on. -/
def flushCacheRange (env : Env D) (dispatch : Dispatch D μ)
    (nsid tag start stop : ℕ) : ℕ → ℕ → Coro D μ Unit
  | 0, _ => pure ()
  | rounds + 1, index =>
    if index < stop then do
      let s ← get
      let (slots, next) := cacheLookupRange s.cache nsid index stop tag wbBatchSize
      if slots = [] then pure ()
      else do
        let txns ← collectBatch env nsid tag start stop slots
        let (_, txns) ← dispatch txns
        finishBatch txns
        flushCacheRange env dispatch nsid tag start stop rounds next
    else pure ()

/-- One round of `flusher_main` for an active flusher.  The index moves on by
at least one in every round, so fewer than `2 ^ 64` rounds are needed. -/
def flusherRound (index : ℕ) : Coro D μ Unit := do
  let s ← get
  match s.flusher.active index with
  | none => fault .assertion
  | some nsid => do
      flushCacheRange env dispatch nsid index 0 lpaEnd (2 ^ 64) 0
      modify fun s => { s with flusher := { s.flusher with
        active := Function.update s.flusher.active index none } }

def flusherMain (env : Env D) (dispatch : Dispatch D μ) (index : ℕ) :
    ℕ → Coro D μ Unit
  | 0 => pure ()
  | rounds + 1 => do
      let _ ← await (.flush index)
      flusherRound env dispatch index
      flusherMain env dispatch index rounds

/-- `start_flush_sync`; `join` is the wait for the flushers. -/
def startFlushSync (join : Coro D μ Unit) (nsid : ℕ) : Coro D μ Unit := do
  let s ← get
  if s.flusher.flushing then do
    let _ ← await .flushIdle
    pure ()
  else pure ()
  let s ← get
  assert .assertion (∀ index < nrFlushers, s.flusher.active index = none)
  modify fun s => { s with flusher :=
    { flushing := true
      active := fun index => if index < nrFlushers then some nsid else none } }
  join
  modify fun s => { s with flusher := { s.flusher with flushing := false } }

def dcFlushNs (join : Coro D μ Unit) (nsid : ℕ) : Coro D μ Unit := startFlushSync join nsid

def dcProcessRequest [Zero D]
    (req : Request D) (txns : List (Txn D)) : Coro D μ (Status × List D) :=
  match req.type with
  | .read => handleCachedRead env dispatch txns
  | .write => do
      let status ← writeBuffers env dispatch false req.data txns
      pure (status, [])
  | .writeZeroes => do
      let status ← writeBuffers env dispatch true req.data txns
      pure (status, [])
  | _ => pure (some .einval, [])

end Soda
