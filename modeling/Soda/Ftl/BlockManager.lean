import Soda.Flash.Geometry

/-!
# Block manager

Every plane has a free list of blocks and three write frontiers, one each for
user data, garbage collection and translation pages.  `bmAllocPage` hands out
the next page of a frontier and replaces the frontier by the head of the free
list when half of the block's pages are used.  `savePlaneInfo` and
`restorePlaneInfo` keep the free blocks in a file of memory pages, several
planes to a page.

A null write frontier is `none`; `bmAllocPage` then has no result, since the
firmware dereferences the pointer without looking at it.
-/

namespace Soda

open List Function Bitmap

/-- `struct block_data`; the block number is the index under which a plane
keeps it. -/
structure BlockData where
  nrInvalidPages : ℕ := 0
  pageWriteIndex : ℕ := 0
  nsid : ℕ := 0
  /-- `BF_BAD`. -/
  bad : Bool := false
  /-- `BF_MAPPING`. -/
  mapping : Bool := false
  invalidPageBitmap : Bitmap := []

structure PlaneAllocator where
  blocks : ℕ → BlockData
  freeList : List ℕ
  freeListSize : ℕ
  dataWf : Option ℕ
  gcWf : Option ℕ
  mappingWf : Option ℕ

abbrev Planes := PlaneAddr → PlaneAllocator

/-- The three users of a write frontier. -/
inductive Role
  | data
  | gc
  | mapping
  deriving DecidableEq, Repr

/-- `for_mapping ? ... : (for_gc ? ... : ...)`. -/
def Role.ofFlags (forGc forMapping : Bool) : Role :=
  if forMapping then .mapping else if forGc then .gc else .data

namespace PlaneAllocator

variable (plane : PlaneAllocator)

def wf : Role → Option ℕ
  | .data => plane.dataWf
  | .gc => plane.gcWf
  | .mapping => plane.mappingWf

def setWf : Role → Option ℕ → PlaneAllocator
  | .data, block => { plane with dataWf := block }
  | .gc, block => { plane with gcWf := block }
  | .mapping, block => { plane with mappingWf := block }

def modifyBlock (block : ℕ) (update : BlockData → BlockData) : PlaneAllocator :=
  { plane with
    blocks := Function.update plane.blocks block (update (plane.blocks block)) }

@[simp]
theorem wf_setWf (role other : Role) (block : Option ℕ) :
    (plane.setWf role block).wf other = if role = other then block else plane.wf other := by
  cases role <;> cases other <;> rfl

@[simp]
theorem setWf_blocks (role : Role)
    (block : Option ℕ) : (plane.setWf role block).blocks = plane.blocks := by
  cases role <;> rfl

@[simp]
theorem setWf_freeList (role : Role)
    (block : Option ℕ) : (plane.setWf role block).freeList = plane.freeList := by
  cases role <;> rfl

@[simp]
theorem modifyBlock_wf (block : ℕ) (update : BlockData → BlockData) (role : Role) :
    (plane.modifyBlock block update).wf role = plane.wf role := by
  cases role <;> rfl

@[simp]
theorem modifyBlock_freeList (block : ℕ) (update : BlockData → BlockData) :
    (plane.modifyBlock block update).freeList = plane.freeList := rfl

@[simp]
theorem modifyBlock_blocks (block : ℕ) (update : BlockData → BlockData) :
    (plane.modifyBlock block update).blocks =
      Function.update plane.blocks block (update (plane.blocks block)) := rfl

def getFreeBlock (nsid : ℕ) (forMapping : Bool) : Option ℕ × PlaneAllocator :=
  match plane.freeList with
  | [] => (none, plane)
  | block :: rest =>
    (some block, { plane with freeList := rest, freeListSize := plane.freeListSize - 1 }
        |>.modifyBlock block fun data =>
          { data with nsid := nsid, mapping := data.mapping || forMapping })

variable (g : Geometry)

def init : PlaneAllocator where
  blocks := fun _ => { invalidPageBitmap := .zero g.pagesPerBlock }
  freeList := []
  freeListSize := 0
  dataWf := none
  gcWf := none
  mappingWf := none

def initWf : PlaneAllocator :=
  let (block, plane) := plane.getFreeBlock 1 false
  let plane := { plane with dataWf := block }
  let (block, plane) := plane.getFreeBlock 1 false
  let plane := { plane with gcWf := block }
  let (block, plane) := plane.getFreeBlock 1 true
  { plane with mappingWf := block }

/-- `reset_blocks`: `list_add` puts each block in front of the list. -/
def resetBlocks (plane : PlaneAllocator) : PlaneAllocator :=
  (range g.blocksPerPlane).foldl (fun plane block =>
    { plane with
      freeList := block :: plane.freeList
      freeListSize := plane.freeListSize + 1 }) plane

/-- The free blocks that `save_plane_info` visits.  The loop counts
`free_list_size` down and stops when the counter reaches zero after a block,
so a counter that is zero from the start never stops it. -/
def savedFree : List ℕ :=
  if plane.freeListSize = 0 then plane.freeList
  else plane.freeList.take plane.freeListSize

/-- A write frontier that is assigned but not yet used. -/
def unusedWf (role : Role) : List ℕ :=
  match plane.wf role with
  | some block => if (plane.blocks block).pageWriteIndex = 0 then [block] else []
  | none => []

/-- The block map that `save_plane_info` writes for one plane. -/
def freeMap (plane : PlaneAllocator) : Bitmap :=
  .setBits (.zero g.blocksPerPlane)
    (plane.savedFree ++ plane.unusedWf .data ++ plane.unusedWf .mapping ++ plane.unusedWf .gc)

/-- The block map that `save_bad_blocks` writes for one plane. -/
def badMap (plane : PlaneAllocator) : Bitmap :=
  .setBits (.zero g.blocksPerPlane)
    ((range g.blocksPerPlane).filter fun block => (plane.blocks block).bad)

/-- One plane's part of `restore_plane_info`. -/
def restoreFree (map : Bitmap) (plane : PlaneAllocator) : PlaneAllocator :=
  let free := (range g.blocksPerPlane).filter map.getBit
  { plane with
    freeList := plane.freeList ++ free
    freeListSize := plane.freeListSize + free.length }

/-- Flag a block bad and unlink it.  The list counter keeps its value, and
unlinking a block that is in no list changes nothing. -/
def dropBad (block : ℕ) : PlaneAllocator :=
  { plane.modifyBlock block fun data => { data with bad := true } with
    freeList := plane.freeList.erase block }

/-- One plane's part of `restore_bad_blocks`. -/
def restoreBad (map : Bitmap) (plane : PlaneAllocator) : PlaneAllocator :=
  ((range g.blocksPerPlane).filter map.getBit).foldl dropBad plane

/-- One plane's part of `scan_bad_blocks`; `tested` is the outcome of the
test of a block. -/
def scanBad (tested : ℕ → Bool) (plane : PlaneAllocator) : PlaneAllocator :=
  ((range g.blocksPerPlane).filter fun block =>
    !(plane.blocks block).bad && tested block).foldl dropBad plane

end PlaneAllocator

variable (g : Geometry)

/-- `page_idx_map`: the LSB pages in ascending order, then the others. -/
def pageIdxMap : List ℕ :=
  (range g.pagesPerBlock).filter g.lsbBitmap.getBit ++
    (range g.pagesPerBlock).filter fun page => !g.lsbBitmap.getBit page

def bmAllocPage (planes : Planes) (nsid : ℕ) (addr : PlaneAddr)
    (forGc forMapping : Bool) : Option (FlashAddress × Planes) :=
  if addr.InRange g then
    let plane := planes addr
    let role := Role.ofFlags forGc forMapping
    match plane.wf role with
    | none => none
    | some block =>
      let index := (plane.blocks block).pageWriteIndex
      let plane := plane.modifyBlock block fun data =>
        { data with pageWriteIndex := index + 1 }
      let plane :=
        if index + 1 = g.pagesUsed then
          let (next, plane) := plane.getFreeBlock nsid forMapping
          plane.setWf role next
        else plane
      some (⟨addr, block, (pageIdxMap g).getD index 0⟩, update planes addr plane)
  else none

def bmInvalidatePage (planes : Planes) (addr : FlashAddress) : Planes :=
  update planes addr.planeAddr ((planes addr.planeAddr).modifyBlock addr.block fun data =>
      { data with
        nrInvalidPages := data.nrInvalidPages + 1
        invalidPageBitmap := data.invalidPageBitmap.setBit addr.page })

def bmMarkBad (planes : Planes) (addr : FlashAddress) : Planes :=
  update planes addr.planeAddr ((planes addr.planeAddr).modifyBlock addr.block fun data =>
      { data with bad := true })

/-! ### Files of block maps -/

/-- One memory page of a file, chunk by chunk. -/
abbrev PageBuf := ℕ → Chunk

/-- `memcpy(buf + offset, map, sizeof(map))`. -/
def PageBuf.store (buf : PageBuf) (offset : ℕ) (map : Bitmap) : PageBuf :=
  fun index =>
    if offset ≤ index ∧ index < offset + map.length then
      map.getD (index - offset) 0
    else buf index

/-- `memcpy(map, buf + offset, sizeof(map))`. -/
def PageBuf.load (buf : PageBuf) (offset length : ℕ) : Bitmap :=
  (range length).map fun index => buf (offset + index)

def planesPerPage : ℕ := archPgChunks / bitchunks g.blocksPerPlane

/-- The loop that both save functions run: `count` maps are in the buffer; a
full buffer goes to the file before the next map is stored.  A buffer that
holds a map at the end is written too. -/
def packMaps (perPage length : ℕ) (buf : PageBuf) (count : ℕ) :
    List Bitmap → List PageBuf
  | [] => if count = 0 then [] else [buf]
  | map :: maps =>
    if count = perPage then
      buf :: packMaps perPage length (buf.store 0 map) 1 maps
    else
      packMaps perPage length (buf.store (count * length) map) (count + 1) maps

/-- The loop that both restore functions run over `nr` planes; `none` is the
`EIO` of a file that ends too early. -/
def unpackMaps (perPage length : ℕ) (buf : PageBuf) (count : ℕ) :
    ℕ → List PageBuf → Option (List Bitmap)
  | 0, _ => some []
  | nr + 1, pages =>
    if count = perPage then
      match pages with
      | [] => none
      | page :: pages => (unpackMaps perPage length page 1 nr pages).map (page.load 0 length :: ·)
    else
      (unpackMaps perPage length buf (count + 1) nr pages).map
        (buf.load (count * length) length :: ·)

/-- Both restore functions read the first page before the loop. -/
def unpackFile (perPage length nr : ℕ) : List PageBuf → Option (List Bitmap)
  | [] => none
  | page :: pages => unpackMaps perPage length page 0 nr pages

/-- The two files of the block manager; `none` is a file that does not
exist. -/
structure BmFiles where
  planeInfo : Option (List PageBuf)
  badBlocks : Option (List PageBuf)

/-- `save_plane_info`; `buf` is what the fresh buffer happens to hold. -/
def savePlaneInfo (buf : PageBuf) (planes : Planes) : List PageBuf :=
  packMaps (planesPerPage g) (bitchunks g.blocksPerPlane) buf 0
    ((planeAddrs g).map fun addr => (planes addr).freeMap g)

def saveBadBlocks (buf : PageBuf) (planes : Planes) : List PageBuf :=
  packMaps (planesPerPage g) (bitchunks g.blocksPerPlane) buf 0
    ((planeAddrs g).map fun addr => (planes addr).badMap g)

/-- Apply `update` to every plane of the geometry with the map read for it. -/
def updatePlanes (planes : Planes) (update : Bitmap → PlaneAllocator → PlaneAllocator) :
    List (PlaneAddr × Bitmap) → Planes
  | [] => planes
  | (addr, map) :: rest =>
    updatePlanes (Function.update planes addr (update map (planes addr))) update rest

def restorePlaneInfo (file : List PageBuf) (planes : Planes) : Option Planes :=
  (unpackFile (planesPerPage g) (bitchunks g.blocksPerPlane)
    (planeAddrs g).length file).map fun maps =>
      updatePlanes planes (.restoreFree g) ((planeAddrs g).zip maps)

def restoreBadBlocks (file : List PageBuf) (planes : Planes) : Option Planes :=
  (unpackFile (planesPerPage g) (bitchunks g.blocksPerPlane)
    (planeAddrs g).length file).map fun maps =>
      updatePlanes planes (.restoreBad g) ((planeAddrs g).zip maps)

/-- What `bm_init` meets besides the files: the contents of its buffers and
the outcomes of the block tests, quick and full. -/
structure BmEnv where
  buf : PageBuf
  scan : Bool → PlaneAddr → ℕ → Bool

/-- Zeroed buffers, and block 3 of every plane bad. -/
def benchEnv : BmEnv := ⟨fun _ => 0, fun _ _ block => block == 3⟩

variable (env : BmEnv)

/-- First part of `bm_init`: recover the free lists, or start with every
block free. -/
def bmInitPlanes (files : BmFiles) (wipe : Bool) : Option (Planes × BmFiles) :=
  let planes : Planes := fun _ => .init g
  match files.planeInfo, wipe with
  | some file, false => (restorePlaneInfo g file planes).map (·, files)
  | _, _ =>
    let planes : Planes := fun addr => (planes addr).resetBlocks g
    some (planes, { files with planeInfo := some (savePlaneInfo g env.buf planes) })

/-- Second part of `bm_init`: recover the bad blocks, or test for them. -/
def bmInitBad (planes : Planes) (files : BmFiles) : Option (Planes × BmFiles) :=
  match files.badBlocks with
  | some file => (restoreBadBlocks g file planes).map (·, files)
  | none =>
    let planes : Planes := fun addr => (planes addr).scanBad g (env.scan false addr)
    some (planes, { files with badBlocks := some (saveBadBlocks g env.buf planes) })

/-- Third part of `bm_init`: the full scan. -/
def bmInitScan (planes : Planes) (files : BmFiles) (fullScan : Bool) : Planes × BmFiles :=
  if fullScan then
    let planes : Planes := fun addr => (planes addr).scanBad g (env.scan true addr)
    (planes, { files with
      badBlocks := some (saveBadBlocks g env.buf planes) })
  else (planes, files)

/-- `bm_init`.  There is no result when a restore fails: the firmware
panics. -/
def bmInit (files : BmFiles) (wipe fullScan : Bool) : Option (Planes × BmFiles) := do
  let (planes, files) ← bmInitPlanes g env files wipe
  let (planes, files) ← bmInitBad g env planes files
  let (planes, files) := bmInitScan g env planes files fullScan
  some (fun addr => (planes addr).initWf, files)

def bmShutdown (planes : Planes) (files : BmFiles) : BmFiles :=
  { files with planeInfo := some (savePlaneInfo g env.buf planes) }

end Soda
