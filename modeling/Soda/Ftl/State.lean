import Soda.Core.Prog
import Soda.Ftl.BlockManager

/-!
# State of the flash translation layer

The data structures of `data_cache.c`, `amu.c` and `ftl.c`.  Cache entries and
translation pages live in slabs and are named by their slot; the AVL trees
over them are lists in key order.  A sector is a value of an arbitrary type
`D`, whose zero is a sector of zero bytes.

Everything that can go wrong outside the firmware (memory allocation, flash
operations, DMA transfers, file accesses) draws its outcome from one oracle,
`Env.faults`, at a position that moves on with every draw.  Fresh buffers are
not cleared; `Env.garbage` is what they hold.
-/

namespace Soda

open Prog

abbrev Tid := ℕ

inductive Errno
  | eio | enomem | enospc | einval | esrch | ebusy | enoent | enfile | efault
  deriving DecidableEq, Repr

/-- A return code: `none` is zero. -/
abbrev Status := Option Errno

inductive Fault
  /-- `Xil_Assert*` or `panic`. -/
  | assertion
  | nullPointer
  /-- A null write frontier is dereferenced. -/
  | nullFrontier
  /-- The translation directory is accessed out of bounds. -/
  | directoryBounds
  deriving DecidableEq, Repr

structure Mutex where
  owner : Option Tid := none
  waiters : List Tid := []
  deriving DecidableEq, Repr

/-- `coro_mutex_unlock`: only the owner unlocks, and the lock passes to the
first waiter. -/
def Mutex.unlock (mutex : Mutex) (self : Tid) : Mutex :=
  if mutex.owner = some self then
    match mutex.waiters with
    | [] => ⟨none, []⟩
    | next :: rest => ⟨some next, rest⟩
  else mutex

/-- `page_bitmap_t`: one bit for each sector of a flash page. -/
abbrev PageBitmap := BitVec 64

/-- `(1UL << SECTORS_PER_FLASH_PG) - 1`. -/
def fullBitmap : PageBitmap := 15

/-- The contents of a flash page: user sectors, or the physical page numbers
of a translation page. -/
inductive PageData (D : Type)
  | user (sectors : ℕ → D)
  | xlate (ppas : ℕ → ℕ)

variable {D : Type}

def PageData.sector [Zero D] : PageData D → ℕ → D
  | user sectors => sectors
  | xlate _ => fun _ => 0

def PageData.ppa : PageData D → ℕ → ℕ
  | user _ => fun _ => 0
  | xlate ppas => ppas

inductive TxnType
  | read
  | write
  deriving DecidableEq, Repr

/-- `struct flash_transaction` for user data.  `entry` is the cache entry
behind `opaque`; `offset` and `length` count bytes. -/
structure Txn (D : Type) where
  type : TxnType
  nsid : ℕ
  lpa : ℕ
  ppa : ℕ := noPpa
  addr : FlashAddress := ⟨⟨0, 0, 0, 0⟩, 0, 0⟩
  bitmap : PageBitmap
  ppaReady : Bool := false
  entry : Option ℕ := none
  data : ℕ → D
  offset : ℕ
  length : ℕ

inductive FlashOp (D : Type)
  | read (ppa : ℕ)
  | program (ppa : ℕ) (data : PageData D)

def FlashOp.ppa : FlashOp D → ℕ
  | read ppa => ppa
  | program ppa _ => ppa

/-! ### Data cache -/

inductive CacheEntryStatus
  | empty
  | clean
  | dirty
  deriving DecidableEq, Repr

structure CacheEntry (D : Type) where
  nsid : ℕ
  lpa : ℕ
  bitmap : PageBitmap
  status : CacheEntryStatus
  pinCount : ℕ
  mutex : Mutex
  data : ℕ → D

/-- `struct data_cache`.  `nextEntry` is the next unused slot of the slab and
the head of `lru` is the most recently used entry. -/
structure DataCache (D : Type) where
  capacityPages : ℕ
  nrPages : ℕ
  entries : ℕ → CacheEntry D
  nextEntry : ℕ
  tree : List ℕ
  lru : List ℕ

/-! ### Address mapping -/

structure XlateEntry where
  ppa : ℕ
  bitmap : PageBitmap
  deriving DecidableEq, Repr

/-- `loaded` says that the entries have been filled in, which the source
leaves implicit. -/
structure XlatePage where
  mvpn : ℕ
  entries : ℕ → XlateEntry
  loaded : Bool
  dirty : Bool
  mutex : Mutex
  pinCount : ℕ

structure XlatePcache where
  capacity : ℕ
  size : ℕ
  pages : ℕ → XlatePage
  nextPage : ℕ
  tree : List ℕ
  lru : List ℕ

/-- `enum plane_allocate_scheme`: the order in which the digits of a logical
page number are dealt to channel (C), chip (W), die (D) and plane (P). -/
inductive PlaneAllocateScheme
  | cwdp | cwpd | cdwp | cdpw | cpwd | cpdw
  | wcdp | wcpd | wdcp | wdpc | wpcd | wpdc
  | dcwp | dcpw | dwcp | dwpc | dpcw | dpwc
  | pcwd | pcdw | pwcd | pwdc | pdcw | pdwc
  deriving DecidableEq, Repr

/-- `struct am_domain`.  `attached` says whether `active_domains` points to
the domain; the directory has one element for each translation page. -/
structure AmDomain where
  attached : Bool
  totalLogicalPages : ℕ
  paScheme : PlaneAllocateScheme
  gtd : List ℕ
  pcache : XlatePcache

/-! ### Namespaces -/

structure NamespaceMetadata where
  sizeBlocks : ℕ
  capacityBlocks : ℕ
  utilBlocks : ℕ
  deriving DecidableEq, Repr

/-- `struct manifest` without magic, version and table size, which are the
same in every manifest this firmware writes. -/
structure Manifest where
  allocatedNamespace : Bitmap
  activeNamespace : Bitmap
  namespaces : ℕ → NamespaceMetadata

/-- The files on the eMMC; `none` is a file that does not exist.  A manifest
whose contents are not a manifest is `some none`. -/
structure Files where
  bm : BmFiles
  manifest : Option (Option Manifest)
  gtd : ℕ → Option (List ℕ)

/-- What lies below and beside the data cache.  `outstanding` holds the flash
operations that were submitted and not completed, oldest first. -/
structure Backend (D : Type) where
  domains : ℕ → AmDomain
  planes : Planes
  flash : ℕ → PageData D
  outstanding : List (Tid × FlashOp D)
  manifest : Manifest
  files : Files

/-! ### Requests -/

/-- `IOREQ_*`. -/
inductive ReqType
  | read | write | writeZeroes | flush | flushData | sync
  deriving DecidableEq, Repr

/-- `struct user_request`; `data` is the buffer of the host. -/
structure Request (D : Type) where
  type : ReqType
  nsid : ℕ
  startLba : ℕ
  sectorCount : ℕ
  data : ℕ → D

/-- A request that was answered.  `startedAt` counts the requests that had
completed when this one started and `back` is a snapshot of what lay below the
cache when it completed. -/
structure Completion (D μ : Type) where
  tid : Tid
  request : Request D
  startedAt : ℕ
  status : Status
  data : List D
  back : μ

/-! ### The whole system -/

/-- `flusher_active`, `flusher_control` and `flushing`: the namespace each
active flusher works for. -/
structure FlusherState where
  flushing : Bool := false
  active : ℕ → Option ℕ := fun _ => none

structure Sys (D μ : Type) where
  cache : DataCache D
  back : μ
  current : Tid
  flusher : FlusherState
  tick : ℕ
  log : List (Completion D μ)

inductive Wait
  | command
  | entry (slot : ℕ)
  | xlatePage (nsid slot : ℕ)
  | flash
  | hostDma
  | zdma
  | flushIdle
  | flushDone
  | flush (index : ℕ)
  deriving DecidableEq, Repr

/-- How a wait ends: a return code and, for a flash read, the page. -/
structure Answer (D : Type) where
  status : Status := none
  page : PageData D := .xlate fun _ => 0

abbrev Coro (D μ : Type) := Prog (Sys D μ) Wait (Answer D) Fault

structure Config where
  geo : Geometry
  /-- `CONFIG_DATA_CACHE_CAPACITY / FLASH_PG_SIZE`. -/
  dataCachePages : ℕ
  /-- `CONFIG_MAPPING_TABLE_CAPACITY / XLATE_PG_SIZE`. -/
  xlateCachePages : ℕ
  /-- `CONFIG_STORAGE_CAPACITY_BYTES >> SECTOR_SHIFT`. -/
  storageBlocks : ℕ

/-- The values of `config.h` and `flash_config.h`. -/
def deviceConfig : Config where
  geo := deviceGeometry
  dataCachePages := 32768
  xlateCachePages := 32768
  storageBlocks := 134217728

/-- What the firmware runs on.  `stray` is what an uninitialised return code
happens to hold. -/
structure Env (D : Type) where
  cfg : Config
  bm : BmEnv
  faults : ℕ → Status
  garbage : ℕ → ℕ → D
  stray : ℕ → Status

/-- No memory allocation, flash operation, transfer or file access fails. -/
def Env.Reliable (env : Env D) : Prop := ∀ tick, env.faults tick = none

/-- A small device where nothing fails, with room for one translation page in
each domain. -/
def benchDevice : Env ℕ where
  cfg := ⟨benchGeometry, 2, 1, 64⟩
  bm := benchEnv
  faults := fun _ => none
  garbage := fun _ _ => 99
  stray := fun _ => none

def namespaceMax : ℕ := 32
def nrWorkerThreads : ℕ := 16
def nrFlushers : ℕ := 8
def wbBatchSize : ℕ := 16

/-- `1 << MAX_DATA_TRANSFER_SIZE`, the number of I/O vectors of a worker. -/
def maxIovecs : ℕ := 256

/-- `FLASH_PG_SIZE / sizeof(struct xlate_entry_disk)`. -/
def xlateEntsPerPage : ℕ := 4096

namespace Sys

variable {μ α : Type}

def outcome (env : Env D) : Coro D μ Status := do
  let s ← get
  modify fun s => { s with tick := s.tick + 1 }
  pure (env.faults s.tick)

/-- `alloc_vmpages` of a page buffer: no memory, or what the memory holds. -/
def allocBuffer (env : Env D) : Coro D μ (Option (ℕ → D)) := do
  let s ← get
  let status ← outcome env
  pure (if status = none then some (env.garbage s.tick) else none)

/-- `SLABALLOC`, and `alloc_vmpages` where the contents do not matter. -/
def allocMem (env : Env D) : Coro D μ Bool := do
  let status ← outcome env
  pure (decide (status = none))

/-- `mutex_lock` on the mutex that `read` finds and `write` updates.  A lock
that the coroutine already holds is left alone (`EDEADLK`); a lock that
another one holds makes it wait for its turn. -/
def lockWith (read : Sys D μ → Mutex) (write : (Mutex → Mutex) → Sys D μ → Sys D μ) (wait : Wait) :
    Coro D μ Unit := do
  let s ← get
  match (read s).owner with
  | none => modify (write fun mutex => { mutex with owner := some s.current })
  | some owner =>
    if owner = s.current then pure ()
    else do
      modify (write fun mutex =>
        { mutex with waiters := mutex.waiters ++ [s.current] })
      let _ ← await wait
      pure ()

end Sys

end Soda
