import Soda.Ftl.State

/-!
# Address mapping unit

A translation of `amu.c`.  Every namespace has a domain with a global
translation directory and a cache of translation pages.  A translation page
holds the physical page and the valid sectors of 4096 logical pages; on flash
the sector bitmaps are dropped.

A directory access beyond the last element is a fault.
-/

namespace Soda

open List Function

/-! ### Trees -/

/-- `avl_insert` on the in-order list: a node goes in front of the first one
that it precedes. -/
def treeInsert (precedes : ℕ → ℕ → Bool) (node : ℕ) : List ℕ → List ℕ
  | [] => [node]
  | head :: rest =>
    if precedes node head then node :: head :: rest
    else head :: treeInsert precedes node rest

theorem treeInsert_perm (precedes : ℕ → ℕ → Bool) (node : ℕ) (nodes : List ℕ) :
    (treeInsert precedes node nodes).Perm (node :: nodes) := by
  induction nodes with
  | nil => exact List.Perm.refl _
  | cons head rest ih =>
    rw [treeInsert]
    split
    · exact List.Perm.refl _
    · exact (ih.cons head).trans (List.Perm.swap node head rest)

@[simp]
theorem mem_treeInsert {precedes : ℕ → ℕ → Bool} {node other : ℕ} {nodes : List ℕ} :
    other ∈ treeInsert precedes node nodes ↔ other = node ∨ other ∈ nodes := by
  rw [(treeInsert_perm precedes node nodes).mem_iff, mem_cons]

/-- Insertion keeps a list of distinct keys in order. -/
theorem treeInsert_sorted {K : Type} [LinearOrder K] {key : ℕ → K} {node : ℕ} {nodes : List ℕ}
    (hsorted : nodes.Pairwise fun left right => key left < key right)
    (hnew : ∀ other ∈ nodes, key other ≠ key node) :
    (treeInsert (fun left right => key left < key right) node nodes).Pairwise
      fun left right => key left < key right := by
  induction nodes with
  | nil => exact pairwise_singleton _ _
  | cons head rest ih =>
    obtain ⟨hhead, hrest⟩ := pairwise_cons.mp hsorted
    rw [treeInsert]
    split
    · rename_i hlt
      have hlt' : key node < key head := by simpa using hlt
      refine pairwise_cons.mpr ⟨?_, hsorted⟩
      intro other hother
      rcases mem_cons.mp hother with rfl | hother
      · exact hlt'
      · exact hlt'.trans (hhead other hother)
    · rename_i hlt
      have hle : key head ≤ key node := by simpa using hlt
      have hne : key head ≠ key node := hnew head mem_cons_self
      refine pairwise_cons.mpr ⟨?_, ih hrest ?_⟩
      · intro other hother
        rcases mem_treeInsert.mp hother with rfl | hother
        · exact lt_of_le_of_ne hle hne
        · exact hhead other hother
      · intro other hother
        exact hnew other (.tail _ hother)

/-! ### Striping -/

inductive Dim
  | channel | chip | die | plane
  deriving DecidableEq, Repr

/-- The four arguments of `ASSIGN_PLANE` for a scheme. -/
def PlaneAllocateScheme.dims : PlaneAllocateScheme → List Dim
  | cwdp => [.channel, .chip, .die, .plane]
  | cwpd => [.channel, .chip, .plane, .die]
  | cdwp => [.channel, .die, .chip, .plane]
  | cdpw => [.channel, .die, .plane, .chip]
  | cpwd => [.channel, .plane, .chip, .die]
  | cpdw => [.channel, .plane, .die, .chip]
  | wcdp => [.chip, .channel, .die, .plane]
  | wcpd => [.chip, .channel, .plane, .die]
  | wdcp => [.chip, .die, .channel, .plane]
  | wdpc => [.chip, .die, .plane, .channel]
  | wpcd => [.chip, .plane, .channel, .die]
  | wpdc => [.chip, .plane, .die, .channel]
  | dcwp => [.die, .channel, .chip, .plane]
  | dcpw => [.die, .channel, .plane, .chip]
  | dwcp => [.die, .chip, .channel, .plane]
  | dwpc => [.die, .chip, .plane, .channel]
  | dpcw => [.die, .plane, .channel, .chip]
  | dpwc => [.die, .plane, .chip, .channel]
  | pcwd => [.plane, .channel, .chip, .die]
  | pcdw => [.plane, .channel, .die, .chip]
  | pwcd => [.plane, .chip, .channel, .die]
  | pwdc => [.plane, .chip, .die, .channel]
  | pdcw => [.plane, .die, .channel, .chip]
  | pdwc => [.plane, .die, .chip, .channel]

def Dim.count (g : Geometry) : Dim → ℕ
  | channel => g.enableChannels.length
  | chip => g.chipsPerChannel
  | die => g.diesPerChip
  | plane => g.planesPerDie

def PlaneAddr.set (addr : PlaneAddr) : Dim → ℕ → PlaneAddr
  | .channel, digit => { addr with channel := digit }
  | .chip, digit => { addr with chip := digit }
  | .die, digit => { addr with die := digit }
  | .plane, digit => { addr with plane := digit }

/-- `ASSIGN_PHYS_ADDR` for each dimension in turn. -/
def assignDims (g : Geometry) : List Dim → ℕ → PlaneAddr → PlaneAddr
  | [], _, addr => addr
  | dim :: dims, lpa, addr =>
    assignDims g dims (lpa / dim.count g) (addr.set dim (lpa % dim.count g))

/-- `assign_plane`: the digit for the channel is an index into the enabled
channels. -/
def assignPlane (g : Geometry) (scheme : PlaneAllocateScheme) (lpa : ℕ) : PlaneAddr :=
  let addr := assignDims g scheme.dims lpa ⟨0, 0, 0, 0⟩
  { addr with channel := g.enableChannels.getD addr.channel 0 }

/-! ### Translation page cache -/

namespace XlatePcache

def find (xpc : XlatePcache) (mvpn : ℕ) : Option ℕ :=
  xpc.tree.find? fun page => (xpc.pages page).mvpn = mvpn

variable (xpc : XlatePcache)

def modifyPage (page : ℕ) (update : XlatePage → XlatePage) : XlatePcache :=
  { xpc with pages := Function.update xpc.pages page (update (xpc.pages page)) }

/-- `avl_insert` and the size counter. -/
def insert (page : ℕ) : XlatePcache :=
  { xpc with
    tree := treeInsert (fun left right =>
      (xpc.pages left).mvpn < (xpc.pages right).mvpn) page xpc.tree
    size := xpc.size + 1 }

/-- `avl_erase`: the node that compares equal is taken out. -/
def eraseTree (page : ℕ) : XlatePcache :=
  { xpc with
    tree := xpc.tree.eraseP fun other => (xpc.pages other).mvpn = (xpc.pages page).mvpn }

/-- `xpc_pin`: the first pin takes the page out of the list. -/
def pin (page : ℕ) : XlatePcache :=
  { xpc.modifyPage page fun xpg => { xpg with pinCount := xpg.pinCount + 1 } with
    lru := if (xpc.pages page).pinCount = 0 then xpc.lru.erase page else xpc.lru }

/-- `xpc_unpin` of a pinned page: the last unpin puts it back. -/
def unpin (page : ℕ) : XlatePcache :=
  { xpc.modifyPage page fun xpg => { xpg with pinCount := xpg.pinCount - 1 } with
    lru := if (xpc.pages page).pinCount - 1 = 0 then page :: xpc.lru
      else xpc.lru }

/-- A new page for `mvpn`, pinned once, in a slot of the slab that was never
used.  Its entries are whatever the memory holds. -/
def addPage (mvpn : ℕ) : XlatePcache :=
  let page := xpc.nextPage
  ({ xpc with nextPage := page + 1 }.modifyPage page fun xpg =>
    ⟨mvpn, xpg.entries, false, false, {}, 1⟩).insert page

def init (capacity : ℕ) : XlatePcache where
  capacity := capacity
  size := 0
  pages := fun _ => ⟨0, fun _ => ⟨0, 0⟩, false, false, {}, 0⟩
  nextPage := 0
  tree := []
  lru := []

end XlatePcache

variable {D : Type}

abbrev AmuM (D : Type) := Coro D (Backend D)

namespace Sys

def modifyDomain (nsid : ℕ) (update : AmDomain → AmDomain)
    (s : Sys D (Backend D)) : Sys D (Backend D) :=
  { s with back := { s.back with
      domains := Function.update s.back.domains nsid (update (s.back.domains nsid)) } }

def modifyPcache (nsid : ℕ) (update : XlatePcache → XlatePcache)
    (s : Sys D (Backend D)) : Sys D (Backend D) :=
  s.modifyDomain nsid fun domain =>
    { domain with pcache := update domain.pcache }

def modifyXpg (nsid page : ℕ) (update : XlatePage → XlatePage)
    (s : Sys D (Backend D)) : Sys D (Backend D) :=
  s.modifyPcache nsid fun xpc => xpc.modifyPage page update

def pcache (s : Sys D (Backend D)) (nsid : ℕ) : XlatePcache := (s.back.domains nsid).pcache

def xpg (s : Sys D (Backend D)) (nsid page : ℕ) : XlatePage := (s.pcache nsid).pages page

def setPlanes (planes : Planes) (s : Sys D (Backend D)) : Sys D (Backend D) :=
  { s with back := { s.back with planes := planes } }

def setGtdFile (nsid : ℕ) (file : Option (List ℕ)) (s : Sys D (Backend D)) : Sys D (Backend D) :=
  { s with back := { s.back with
      files := { s.back.files with
        gtd := update s.back.files.gtd nsid file } } }

end Sys

open Prog Sys

def getMvpn (lpa : ℕ) : ℕ := lpa / xlateEntsPerPage

def getMvpnSlot (lpa : ℕ) : ℕ := lpa % xlateEntsPerPage

def lockXpg (nsid page : ℕ) : AmuM D Unit :=
  lockWith (fun s => (s.xpg nsid page).mutex) (fun update => modifyXpg nsid page fun xpg =>
      { xpg with mutex := update xpg.mutex })
    (.xlatePage nsid page)

def unlockXpg (nsid page : ℕ) : AmuM D Unit :=
  modify fun s => s.modifyXpg nsid page fun xpg =>
    { xpg with mutex := xpg.mutex.unlock s.current }

def xpcPin (nsid page : ℕ) : AmuM D Unit := modify (modifyPcache nsid fun xpc => xpc.pin page)

def xpcUnpin (nsid page : ℕ) : AmuM D Unit := do
  let s ← get
  assert .assertion (0 < (s.xpg nsid page).pinCount)
  modify (modifyPcache nsid fun xpc => xpc.unpin page)

/-- `amu_submit_transaction`: hand the operation to flash and wait. -/
def amuSubmit (op : FlashOp D) : AmuM D (Answer D) := do
  modify fun s => { s with back := { s.back with
    outstanding := s.back.outstanding ++ [(s.current, op)] } }
  await .flash

def readGtd (nsid mvpn : ℕ) : AmuM D ℕ := do
  let s ← get
  match (s.back.domains nsid).gtd[mvpn]? with
  | some mppn => pure mppn
  | none => fault .directoryBounds

variable (env : Env D)

/-- `bm_invalidate_page` for a physical page number. -/
def invalidatePpa (ppa : ℕ) : AmuM D Unit :=
  modify fun s => s.setPlanes (bmInvalidatePage s.back.planes (ppaToAddress env.cfg.geo ppa))

/-- `bm_alloc_page` on the current planes; a null frontier is a fault. -/
def allocPage (nsid : ℕ) (addr : PlaneAddr) (forGc forMapping : Bool) : AmuM D FlashAddress := do
  let s ← get
  match bmAllocPage env.cfg.geo s.back.planes nsid addr forGc forMapping with
  | some (page, planes) => do
      modify (setPlanes planes)
      pure page
  | none => fault .nullFrontier

/-- `xpc_add`.  A failed allocation of the page structure is not noticed and
the null pointer is written through. -/
def xpcAdd (nsid mvpn : ℕ) : AmuM D (Status × ℕ) := do
  let s ← get
  let xpc := s.pcache nsid
  if xpc.capacity ≤ xpc.size then pure (some .enospc, 0)
  else do
    let struct ← allocMem env
    assert .nullPointer struct
    let buffer ← allocMem env
    if buffer then do
      modify (modifyPcache nsid fun xpc => xpc.addPage mvpn)
      pure (none, xpc.nextPage)
    else pure (some .enomem, 0)

def xpcReadPage (nsid page : ℕ) : AmuM D Status := do
  let s ← get
  let mppn ← readGtd nsid (s.xpg nsid page).mvpn
  assert .assertion (!(s.xpg nsid page).dirty)
  let buffer ← allocMem env
  if buffer then do
    let answer ← amuSubmit (.read mppn)
    if answer.status = none then do
      modify (modifyXpg nsid page fun xpg =>
        { xpg with
          entries := fun slot => ⟨answer.page.ppa slot, fullBitmap⟩
          loaded := true })
      pure none
    else pure answer.status
  else pure (some .enomem)

/-- `alloc_page_for_mapping` on the plane that `assign_plane` picks. -/
def allocPageForMapping (nsid mvpn : ℕ) : AmuM D FlashAddress := do
  let s ← get
  let addr := assignPlane env.cfg.geo (s.back.domains nsid).paScheme mvpn
  let mppn ← readGtd nsid mvpn
  if mppn ≠ noPpa then invalidatePpa env mppn else pure ()
  allocPage env nsid addr false true

def xpcFlushPage (nsid page : ℕ) : AmuM D Status := do
  let s ← get
  if (s.xpg nsid page).dirty then do
    let mvpn := (s.xpg nsid page).mvpn
    let buffer ← allocMem env
    if buffer then do
      let ppas := fun slot => ((s.xpg nsid page).entries slot).ppa
      let addr ← allocPageForMapping env nsid mvpn
      let ppa := addressToPpa env.cfg.geo addr
      let answer ← amuSubmit (.program ppa (.xlate ppas))
      if answer.status = none then do
        modify fun s => (s.modifyXpg nsid page fun xpg =>
          { xpg with dirty := false }).modifyDomain nsid fun domain =>
            { domain with gtd := domain.gtd.set mvpn ppa }
        pure none
      else do
        modify fun s => s.setPlanes (bmInvalidatePage s.back.planes addr)
        pure answer.status
    else pure (some .enomem)
  else pure none

/-- `xpc_evict`: the least recently used page. -/
def xpcEvict (nsid : ℕ) : AmuM D (Status × ℕ) := do
  let s ← get
  match (s.pcache nsid).lru.getLast? with
  | none => pure (some .enomem, 0)
  | some page => do
      assert .assertion ((s.xpg nsid page).pinCount = 0)
      modify (modifyPcache nsid fun xpc =>
        { xpc.eraseTree page with
          lru := xpc.lru.erase page, size := xpc.size - 1 })
      pure (none, page)

/-- `get_translation_page`.  When the cache is full, the evicted page is
flushed and filed under the new number with its old entries still in it. -/
def getTranslationPage (nsid mvpn : ℕ) : AmuM D (Status × ℕ) := do
  let s ← get
  match (s.pcache nsid).find mvpn with
  | some page => do
      xpcPin nsid page
      lockXpg nsid page
      pure (none, page)
  | none => do
      let (status, page) ← xpcAdd env nsid mvpn
      match status with
      | some .enospc => do
          let (status, page) ← xpcEvict nsid
          if status = none then do
            let _ ← xpcFlushPage env nsid page
            modify (modifyPcache nsid fun xpc =>
              (xpc.modifyPage page fun xpg => { xpg with mvpn := mvpn }).insert page)
            xpcPin nsid page
            lockXpg nsid page
            pure (none, page)
          else pure (status, page)
      | some error => pure (some error, page)
      | none => do
          lockXpg nsid page
          let mppn ← readGtd nsid mvpn
          if mppn = noPpa then do
            modify (modifyXpg nsid page fun xpg =>
              { xpg with
                entries := fun _ => ⟨noPpa, 0⟩, loaded := true, dirty := true })
            pure (none, page)
          else do
            let status ← xpcReadPage env nsid page
            if status = none then pure (none, page)
            else do
              -- the error code is dropped and the page is handed out unlocked
              unlockXpg nsid page
              modify (modifyPcache nsid fun xpc => xpc.eraseTree page)
              xpcUnpin nsid page
              pure (none, page)

/-- `get_ppa`: return code, physical page and sector bitmap. -/
def getPpa (nsid lpa : ℕ) : AmuM D (Status × XlateEntry) := do
  let (status, page) ← getTranslationPage env nsid (getMvpn lpa)
  if status = none then do
    let s ← get
    let entry := (s.xpg nsid page).entries (getMvpnSlot lpa)
    unlockXpg nsid page
    xpcUnpin nsid page
    pure (none, entry)
  else pure (status, ⟨noPpa, 0⟩)

/-- `ffsl(bitmap) - 1`. -/
def lowestSector (bitmap : PageBitmap) : ℕ := ((range 64).find? bitmap.getLsbD).getD 0

/-- The sectors of `old` where `bitmap` says so, else those of `new`. -/
def overlay (bitmap : PageBitmap) (old new : ℕ → D) : ℕ → D :=
  fun sector => if bitmap.getLsbD sector then old sector else new sector

variable (txn : Txn D)

/-- `update_read`: fetch the valid sectors that the transaction does not
write. -/
def updateRead [Zero D] (entry : XlateEntry) : AmuM D (Status × Txn D) := do
  let bitmap := entry.bitmap &&& ~~~ txn.bitmap
  assert .assertion (entry.ppa ≠ noPpa)
  assert .assertion (bitmap ≠ 0)
  let buffer ← allocMem env
  if buffer then do
    let answer ← amuSubmit (.read entry.ppa)
    if answer.status = none then do
      let copied ← await .zdma
      if copied.status = none then
        let offset := min txn.offset (lowestSector bitmap <<< sectorShift)
        pure (none, { txn with
          data := overlay bitmap answer.page.sector txn.data
          bitmap := txn.bitmap ||| bitmap
          offset := offset
          length := 2 ^ flashPgShift - offset })
      else pure (copied.status, txn)
    else pure (answer.status, txn)
  else pure (some .enomem, txn)

/-- The read-modify-write part of `alloc_page_for_write`: fetch what the new
page needs from the old one and count the old one invalid. -/
def retireOldPage [Zero D] (entry : XlateEntry) : AmuM D (Status × Txn D) := do
  if entry.ppa ≠ noPpa then do
    let (status, txn) ←
      if entry.bitmap &&& txn.bitmap ≠ entry.bitmap then updateRead env txn entry
      else pure (none, txn)
    if status = none then do
      invalidatePpa env entry.ppa
      pure (none, txn)
    else pure (status, txn)
  else pure (none, txn)

def xpcUpdateMapping (nsid page slot ppa : ℕ) (bitmap : PageBitmap) : AmuM D Unit :=
  modify (modifyXpg nsid page fun xpg =>
    { xpg with
      entries := update xpg.entries slot ⟨ppa, (xpg.entries slot).bitmap ||| bitmap⟩
      dirty := true })

/-- `alloc_page_for_write`; the plane was chosen by `assign_plane`. -/
def allocPageForWrite [Zero D] (forGc : Bool) : AmuM D (Status × Txn D) := do
  let (status, page) ← getTranslationPage env txn.nsid (getMvpn txn.lpa)
  if status = none then do
    let slot := getMvpnSlot txn.lpa
    let s ← get
    let (status, txn) ← retireOldPage env txn ((s.xpg txn.nsid page).entries slot)
    if status = none then do
      let addr ← allocPage env txn.nsid txn.addr.planeAddr forGc false
      let txn := { txn with addr := addr, ppa := addressToPpa env.cfg.geo addr }
      xpcUpdateMapping txn.nsid page slot txn.ppa txn.bitmap
      unlockXpg txn.nsid page
      xpcUnpin txn.nsid page
      pure (none, txn)
    else do
      unlockXpg txn.nsid page
      xpcUnpin txn.nsid page
      pure (status, txn)
  else pure (status, txn)

/-- `assign_plane` on a transaction. -/
def assignTxn : AmuM D (Txn D) := do
  let s ← get
  pure { txn with addr := { txn.addr with
    planeAddr := assignPlane env.cfg.geo (s.back.domains txn.nsid).paScheme txn.lpa } }

/-- `translate_lpa`.  A read of a page that was never written is given a
fresh physical page as well. -/
def translateLpa [Zero D] : AmuM D (Status × Txn D) := do
  assert .assertion (0 < txn.nsid ∧ txn.nsid ≤ namespaceMax)
  let s ← get
  if (s.back.domains txn.nsid).attached then
    match txn.type with
    | .read => do
        let (status, entry) ← getPpa env txn.nsid txn.lpa
        if status = none then
          if entry.ppa = noPpa then do
            let txn ← assignTxn env txn
            let (status, txn) ← allocPageForWrite env txn false
            pure (status, { txn with ppaReady := decide (status = none) })
          else
            pure (none, { txn with
              ppa := entry.ppa, addr := ppaToAddress env.cfg.geo entry.ppa,
              ppaReady := true })
        else pure (status, txn)
    | .write => do
        let txn ← assignTxn env txn
        let (status, txn) ← allocPageForWrite env txn false
        pure (status, { txn with ppaReady := decide (status = none) })
  else pure (some .einval, txn)

/-- First loop of `amu_dispatch`. -/
def translateAll [Zero D] (env : Env D) :
    List (Txn D) → AmuM D (Status × List (Txn D))
  | [] => pure (none, [])
  | txn :: txns => do
      let (status, txn) ← translateLpa env txn
      if status = none then do
        let (status, txns) ← translateAll env txns
        pure (status, txn :: txns)
      else pure (status, txn :: txns)

/-- Sectors `[offset, offset + length)` of a page, counted in sectors. -/
def Txn.covers (sector : ℕ) : Prop :=
  txn.offset >>> sectorShift ≤ sector ∧ sector < (txn.offset + txn.length) >>> sectorShift

instance (txn : Txn D) (sector : ℕ) : Decidable (txn.covers sector) :=
  inferInstanceAs (Decidable (_ ∧ _))

/-- What a read of `[offset, offset + length)` leaves in the buffer. -/
def fetched [Zero D] (page : PageData D) : ℕ → D :=
  fun sector =>
    if txn.covers sector then page.sector sector else txn.data sector

/-- `amu_submit_transaction` for a user transaction. -/
def submitTxn [Zero D] : AmuM D (Status × Txn D) :=
  match txn.type with
  | .read => do
      let answer ← amuSubmit (.read txn.ppa)
      if answer.status = none then
        pure (none, { txn with data := fetched txn answer.page })
      else pure (answer.status, txn)
  | .write => do
      let answer ← amuSubmit (.program txn.ppa (.user txn.data))
      pure (answer.status, txn)

/-- Second loop of `amu_dispatch`. -/
def submitAll [Zero D] : List (Txn D) → AmuM D (Status × List (Txn D))
  | [] => pure (none, [])
  | txn :: txns =>
    if txn.ppaReady then do
      let (status, txn) ← submitTxn txn
      if status = none then do
        let (status, txns) ← submitAll txns
        pure (status, txn :: txns)
      else pure (status, txn :: txns)
    else do
      let (status, txns) ← submitAll txns
      pure (status, txn :: txns)

/-- The `cleanup` part of `amu_dispatch`. -/
def cleanupTxns (env : Env D) : List (Txn D) → AmuM D Unit
  | [] => pure ()
  | txn :: txns => do
      if txn.type = .write ∧ txn.ppaReady then invalidatePpa env txn.ppa
      else pure ()
      cleanupTxns env txns

def amuDispatch [Zero D] (txns : List (Txn D)) : AmuM D (Status × List (Txn D)) := do
  let (status, txns) ← translateAll env txns
  if status = none then do
    let (status, txns) ← submitAll txns
    if status = none then pure (none, txns)
    else do
      cleanupTxns env txns
      pure (status, txns)
  else do
    cleanupTxns env txns
    pure (status, txns)

/-! ### Directory files and domains -/

/-- `save_gtd`: open, write, close. -/
def saveGtd (nsid : ℕ) : AmuM D Status := do
  let opened ← outcome env
  if opened = none then do
    let written ← outcome env
    if written = none then do
      modify fun s => s.setGtdFile nsid (some (s.back.domains nsid).gtd)
      let closed ← outcome env
      pure (if closed = none then none else some .eio)
    else do
      modify (setGtdFile nsid (some []))
      pure (some .eio)
  else pure (some .eio)

/-- `restore_gtd` of `total` elements; a shorter file is an error. -/
def restoreGtd (nsid total : ℕ) : AmuM D (Status × List ℕ) := do
  let s ← get
  let opened ← outcome env
  match s.back.files.gtd nsid with
  | none => pure (some .eio, [])
  | some file =>
    if opened = none ∧ total ≤ file.length then do
      let read ← outcome env
      let closed ← outcome env
      pure (if read = none ∧ closed = none then none else some .eio, file.take total)
    else pure (some .eio, [])

/-- `flush_domain`, from the first page at or after `start`. -/
def flushDomainFrom (env : Env D) (nsid : ℕ) : ℕ → ℕ → AmuM D Unit
  | 0, _ => pure ()
  | rounds + 1, start => do
      let s ← get
      match (s.pcache nsid).tree.find? fun page => start ≤ (s.xpg nsid page).mvpn with
      | none => pure ()
      | some page => do
          if (s.xpg nsid page).dirty then do
            xpcPin nsid page
            lockXpg nsid page
            let _ ← xpcFlushPage env nsid page
            unlockXpg nsid page
            xpcUnpin nsid page
          else pure ()
          flushDomainFrom env nsid rounds ((s.xpg nsid page).mvpn + 1)

/-- `save_domain`.  Translation page numbers have 32 bits, so the iteration
takes fewer than `2 ^ 32` rounds. -/
def saveDomain (nsid : ℕ) : AmuM D Status := do
  flushDomainFrom env nsid (2 ^ 32) 0
  saveGtd env nsid

def amuSaveDomain (nsid : ℕ) : AmuM D Status := do
  assert .assertion (0 < nsid ∧ nsid ≤ namespaceMax)
  let s ← get
  if (s.back.domains nsid).attached then saveDomain env nsid
  else pure (some .einval)

/-- `total_xlate_pages` of a domain with so many logical pages. -/
def totalXlatePages (totalLogicalPages : ℕ) : ℕ :=
  (totalLogicalPages + xlateEntsPerPage - 1) / xlateEntsPerPage

/-- `domain_init`: return code and directory.  When there is no memory for the
directory, the return code is still zero and the directory pointer null. -/
def domainGtd (nsid totalLogicalPages : ℕ) (reset : Bool) : AmuM D (Status × List ℕ) := do
  let total := totalXlatePages totalLogicalPages
  let memory ← allocMem env
  if memory then do
    let s ← get
    let stat ← outcome env
    if (s.back.files.gtd nsid).isNone ∨ stat ≠ none ∨ reset then do
      let gtd := replicate total noPpa
      modify (modifyDomain nsid fun domain => { domain with gtd := gtd })
      let status ← saveGtd env nsid
      pure (status, gtd)
    else restoreGtd env nsid total
  else pure (none, [])

def amuAttachDomain (nsid capacity totalLogicalPages : ℕ) (reset : Bool) : AmuM D Status := do
  if nsid = 0 ∨ namespaceMax < nsid then pure (some .einval)
  else do
    let s ← get
    if (s.back.domains nsid).attached then pure (some .einval)
    else do
      let memory ← allocMem env
      if memory then do
        modify (modifyDomain nsid fun _ =>
          ⟨false, totalLogicalPages, .cwdp, [], XlatePcache.init capacity⟩)
        let (status, gtd) ← domainGtd env nsid totalLogicalPages reset
        if status = none then do
          modify (modifyDomain nsid fun domain =>
            { domain with gtd := gtd, attached := true })
          pure none
        else pure status
      else pure (some .enomem)

/-- `amu_detach_domain`: the result of `save_domain` is not looked at. -/
def amuDetachDomain (nsid : ℕ) : AmuM D Status := do
  if nsid = 0 ∨ namespaceMax < nsid then pure (some .einval)
  else do
    let s ← get
    if (s.back.domains nsid).attached then do
      modify (modifyDomain nsid fun domain => { domain with attached := false })
      let _ ← saveDomain env nsid
      pure none
    else pure (some .einval)

/-- `amu_delete_domain`: only a file that does not exist counts as deleted
when `f_stat` fails. -/
def amuDeleteDomain (nsid : ℕ) : AmuM D Status := do
  if nsid = 0 ∨ namespaceMax < nsid then pure (some .einval)
  else do
    let s ← get
    let stat ← outcome env
    if stat ≠ none then pure (some .eio)
    else if (s.back.files.gtd nsid).isNone then pure none
    else do
      let unlinked ← outcome env
      if unlinked = none then modify (setGtdFile nsid none) else pure ()
      pure none

end Soda
