import Soda.Ftl.DataCache

/-!
# Flash translation layer

A translation of `ftl.c`: requests are cut into transactions at page
boundaries and handed to the data cache; namespaces are created, deleted,
attached and detached; the manifest records them.  Histograms are left out.
-/

namespace Soda

variable {D μ : Type}

open Prog Sys Bitmap

/-! ### Requests -/

/-- The transaction for `size` sectors from `slba` on, inside one page. -/
def segmentTxn [Zero D] (req : Request D) (slba size : ℕ) : Txn D where
  type := if req.type = .read then .read else .write
  nsid := req.nsid
  lpa := slba / sectorsPerFlashPg
  bitmap := (~~~ ((~~~ 0 : PageBitmap) <<< size)) <<< (slba % sectorsPerFlashPg)
  data := fun _ => 0
  offset := (slba % sectorsPerFlashPg) <<< sectorShift
  length := size <<< sectorShift

/-- The loop of `segment_user_request`; sector numbers have 64 bits. -/
def segmentLoop [Zero D] (req : Request D) : ℕ → ℕ → ℕ → List (Txn D)
  | 0, _, _ => []
  | rounds + 1, slba, remaining =>
    if remaining = 0 then []
    else
      let size := min (sectorsPerFlashPg - slba % sectorsPerFlashPg) remaining
      segmentTxn req slba size :: segmentLoop req rounds ((slba + size) % 2 ^ 64) (remaining - size)

/-- Every round takes at least one sector. -/
def segments [Zero D] (req : Request D) : List (Txn D) :=
  segmentLoop req req.sectorCount req.startLba req.sectorCount

def allocTxns (env : Env D) : ℕ → Coro D μ Bool
  | 0 => pure true
  | count + 1 => do
      let struct ← allocMem env
      if struct then allocTxns env count else pure false

variable (env : Env D)

/-- `segment_user_request`; `none` is `ENOMEM`. -/
def segmentUserRequest [Zero D] (req : Request D) : Coro D μ (Option (List (Txn D))) := do
  let memory ← allocTxns env (segments req).length
  pure (if memory then some (segments req) else none)

/-- `process_io_request`: neither the namespace nor the range is checked. -/
def processIoRequest [Zero D] (dispatch : Dispatch D μ)
    (req : Request D) : Coro D μ (Status × List D) := do
  let txns ← segmentUserRequest env req
  match txns with
  | none => pure (some .enomem, [])
  | some txns => dcProcessRequest env dispatch req txns

/-! ### Flushers in turn -/

def flusherTid (index : ℕ) : Tid := nrWorkerThreads + index

def runFlusherList (env : Env D) (dispatch : Dispatch D μ) :
    List ℕ → Coro D μ Unit
  | [] => pure ()
  | index :: rest => do
      modify fun s => { s with current := flusherTid index }
      flusherRound env dispatch index
      runFlusherList env dispatch rest

/-- A wait for the flushers, when nothing else is running. -/
def runFlushers (dispatch : Dispatch D μ) : Coro D μ Unit := do
  let s ← get
  runFlusherList env dispatch (List.range nrFlushers)
  modify fun s' => { s' with current := s.current }

/-! ### Manifest -/

def setManifestFile (file : Option (Option Manifest)) (s : Sys D (Backend D)) : Sys D (Backend D) :=
  { s with back := { s.back with files := { s.back.files with
      manifest := file } } }

def modifyManifest (update : Manifest → Manifest) (s : Sys D (Backend D)) : Sys D (Backend D) :=
  { s with back := { s.back with manifest := update s.back.manifest } }

def saveManifest : AmuM D Status := do
  let opened ← outcome env
  if opened = none then do
    let written ← outcome env
    if written = none then do
      modify fun s => setManifestFile (some (some s.back.manifest)) s
      let closed ← outcome env
      pure (if closed = none then none else some .eio)
    else do
      modify (setManifestFile (some none))
      pure (some .eio)
  else pure (some .eio)

def restoreManifest : AmuM D Status := do
  let opened ← outcome env
  let read ← outcome env
  let closed ← outcome env
  let s ← get
  match s.back.files.manifest with
  | some (some manifest) =>
    if opened = none ∧ read = none then do
      modify (modifyManifest fun _ => manifest)
      pure (if closed = none then none else some .eio)
    else pure (some .eio)
  | _ => pure (some .eio)

/-- `reset_manifest`: one namespace with the advertised capacity, active. -/
def resetManifest (cfg : Config) : Manifest where
  allocatedNamespace := (zero namespaceMax).setBit 0
  activeNamespace := (zero namespaceMax).setBit 0
  namespaces := fun index =>
    if index = 0 then
      ⟨cfg.storageBlocks, cfg.storageBlocks, cfg.storageBlocks⟩
    else ⟨0, 0, 0⟩

/-- `(size_blocks << SECTOR_SHIFT) >> FLASH_PG_SHIFT` in 64 bits. -/
def logicalPages (sizeBlocks : ℕ) : ℕ := (sizeBlocks <<< sectorShift % 2 ^ 64) >>> flashPgShift

def nsActive (manifest : Manifest) (nsid : ℕ) : Bool := manifest.activeNamespace.getBit (nsid - 1)

def nsAllocated (manifest : Manifest) (nsid : ℕ) : Bool :=
  manifest.allocatedNamespace.getBit (nsid - 1)

def nsSize (manifest : Manifest) (nsid : ℕ) : ℕ := (manifest.namespaces (nsid - 1)).sizeBlocks

/-! ### Synchronisation -/

section Sync

variable (env : Env D) (join : AmuM D Unit)

/-- `ftl_flush_ns`: the result of saving the domain is not looked at. -/
def ftlFlushNs (nsid : ℕ) : AmuM D Status := do
  dcFlushNs join nsid
  let _ ← amuSaveDomain env nsid
  pure none

def ftlFlushDataNs (nsid : ℕ) : AmuM D Status := do
  dcFlushNs join nsid
  pure none

/-- The loop of `ftl_sync` over the active namespaces. -/
def syncNamespaces : List ℕ → AmuM D Unit
  | [] => pure ()
  | index :: rest => do
      let s ← get
      if s.back.manifest.activeNamespace.getBit index then do
        dcFlushNs join (index + 1)
        let _ ← amuSaveDomain env (index + 1)
        pure ()
      else pure ()
      syncNamespaces rest

def ftlSync : AmuM D Unit := do
  syncNamespaces env join (List.range namespaceMax)
  modify fun s => { s with back := { s.back with files := { s.back.files with
    bm := bmShutdown env.cfg.geo env.bm s.back.planes s.back.files.bm } } }
  let _ ← saveManifest env
  pure ()

def ftlProcessRequest [Zero D] (dispatch : Dispatch D (Backend D))
    (req : Request D) : AmuM D (Status × List D) :=
  match req.type with
  | .flush => do
      let status ← ftlFlushNs env join req.nsid
      pure (status, [])
  | .flushData => do
      let status ← ftlFlushDataNs join req.nsid
      pure (status, [])
  | .sync => do
      ftlSync env join
      pure (none, [])
  | .read | .write | .writeZeroes => processIoRequest env dispatch req

end Sync

/-! ### Namespaces -/

section Namespaces

variable (env : Env D)

/-- `ftl_create_namespace`: return code and namespace identifier. -/
def ftlCreateNamespace (sizeBlocks capacityBlocks : ℕ) : AmuM D (Status × ℕ) := do
  let s ← get
  let index := s.back.manifest.allocatedNamespace.findNextZeroBit namespaceMax 0
  if namespaceMax ≤ index then pure (some .enfile, 0)
  else do
    modify (modifyManifest fun manifest =>
      { manifest with
        namespaces := Function.update manifest.namespaces index
          ⟨sizeBlocks, capacityBlocks, capacityBlocks⟩
        allocatedNamespace := manifest.allocatedNamespace.setBit index })
    let _ ← saveManifest env
    pure (none, index + 1)

def ftlDetachNamespace (nsid : ℕ) : AmuM D Status := do
  if nsid = 0 ∨ namespaceMax < nsid then pure (some .einval)
  else do
    let s ← get
    if nsActive s.back.manifest nsid then do
      let status ← amuDetachDomain env nsid
      if status = none then do
        modify (modifyManifest fun manifest =>
          { manifest with
            activeNamespace := manifest.activeNamespace.unsetBit (nsid - 1) })
        let _ ← saveManifest env
        pure none
      else pure status
    else pure (some .enoent)

def ftlDeleteNamespace (nsid : ℕ) : AmuM D Status := do
  if nsid = 0 ∨ namespaceMax < nsid then pure (some .einval)
  else do
    let s ← get
    if nsAllocated s.back.manifest nsid then do
      let detached ←
        if nsActive s.back.manifest nsid then ftlDetachNamespace env nsid
        else pure none
      if detached = none then do
        let status ← amuDeleteDomain env nsid
        if status = none then do
          modify (modifyManifest fun manifest =>
            { manifest with
              allocatedNamespace := manifest.allocatedNamespace.unsetBit (nsid - 1) })
          let _ ← saveManifest env
          pure none
        else pure status
      else pure detached
    else pure (some .esrch)

def ftlAttachNamespace (nsid : ℕ) : AmuM D Status := do
  if nsid = 0 ∨ namespaceMax < nsid then pure (some .einval)
  else do
    let s ← get
    if ¬nsAllocated s.back.manifest nsid then pure (some .esrch)
    else if nsActive s.back.manifest nsid then pure (some .ebusy)
    else do
      let status ← amuAttachDomain env nsid env.cfg.xlateCachePages
        (logicalPages (nsSize s.back.manifest nsid)) false
      if status = none then do
        modify (modifyManifest fun manifest =>
          { manifest with
            activeNamespace := manifest.activeNamespace.setBit (nsid - 1) })
        let _ ← saveManifest env
        pure none
      else pure status

end Namespaces

/-! ### Start and shutdown -/

def ftlShutdown (env : Env D) (join : AmuM D Unit) : AmuM D Unit := ftlSync env join

/-- What is left of the state when the power goes: flash and files. -/
def powerCycle [Zero D] (s : Sys D (Backend D)) : Sys D (Backend D) :=
  { s with
    cache := DataCache.init 0
    back := { s.back with
      domains := fun _ => ⟨false, 0, .cwdp, [], XlatePcache.init 0⟩
      outstanding := []
      manifest := ⟨zero namespaceMax, zero namespaceMax,
        fun _ => ⟨0, 0, 0⟩⟩ }
    flusher := {} }

/-- The loop of `ftl_init` that attaches the active namespaces. -/
def attachActive (env : Env D) (wipeMt : Bool) : List ℕ → AmuM D Unit
  | [] => pure ()
  | index :: rest => do
      let s ← get
      if s.back.manifest.activeNamespace.getBit index then do
        let status ← amuAttachDomain env (index + 1) env.cfg.xlateCachePages
          (logicalPages (s.back.manifest.namespaces index).sizeBlocks) wipeMt
        assert .assertion (status = none)
      else pure ()
      attachActive env wipeMt rest

/-- The manifest part of `ftl_init`. -/
def initManifest (env : Env D) (wipeManifest : Bool) : AmuM D Unit := do
  let s ← get
  let stat ← outcome env
  if s.back.files.manifest = none ∨ stat ≠ none ∨ wipeManifest then do
    modify (modifyManifest fun _ => resetManifest env.cfg)
    let _ ← saveManifest env
    pure ()
  else do
    let status ← restoreManifest env
    assert .assertion (status = none)

def initBlocks (env : Env D) (wipeSsd fullScan : Bool) : AmuM D Unit := do
  let s ← get
  match bmInit env.cfg.geo env.bm s.back.files.bm wipeSsd fullScan with
  | none => fault .assertion
  | some (planes, files) =>
    modify fun s => { s with back := { s.back with
      planes := planes, files := { s.back.files with bm := files } } }

def ftlInit [Zero D] (env : Env D) (wipeManifest wipeSsd wipeMt fullScan : Bool) : AmuM D Unit := do
  initManifest env wipeManifest
  modify (modifyCache fun _ => DataCache.init env.cfg.dataCachePages)
  initBlocks env wipeSsd fullScan
  attachActive env wipeMt (List.range namespaceMax)

/-- An orderly shutdown, a power cycle and a start without any wipe option. -/
def restart [Zero D] (env : Env D) (join : AmuM D Unit) : AmuM D Unit := do
  ftlShutdown env join
  modify powerCycle
  ftlInit env false false false false

end Soda
