import Soda.Ftl.BadBlocks

/-!
# Saved and restored plane state

`save_plane_info` walks a free list with a counter that starts at
`free_list_size`.  The counter is not adjusted when bad blocks are unlinked, so
it can exceed the length of the list; it never falls below it, and the walk
reaches every block.  `restore_plane_info` therefore finds the blocks of the
free list and the write frontiers of which no page was handed out.
-/

namespace Soda

open PlaneAllocator Function List Option Bitmap

/-- The block manager, its files, and the pages handed out since all blocks
were last free. -/
structure PlaneRun where
  planes : Planes
  files : BmFiles
  used : Set FlashAddress

inductive PlaneOp
  | alloc (nsid : ℕ) (addr : PlaneAddr) (forGc forMapping : Bool)
  | invalidate (addr : FlashAddress)
  | markBad (addr : FlashAddress)
  | saveBad (buf : PageBuf)
  | restart (env : BmEnv) (wipe fullScan : Bool)

/-- One operation.  `get_plane` and `get_block_data` assert their ranges. -/
def planeStep (g : Geometry) (s : PlaneRun) : PlaneOp → Option PlaneRun
  | .alloc nsid addr forGc forMapping =>
    (bmAllocPage g s.planes nsid addr forGc forMapping).map fun result =>
      { s with planes := result.2, used := insert result.1 s.used }
  | .invalidate addr =>
    if addr.planeAddr.InRange g ∧ addr.block < g.blocksPerPlane then
      some { s with planes := bmInvalidatePage s.planes addr }
    else none
  | .markBad addr =>
    if addr.planeAddr.InRange g ∧ addr.block < g.blocksPerPlane then
      some { s with planes := bmMarkBad s.planes addr }
    else none
  | .saveBad buf =>
    some { s with
      files := { s.files with
        badBlocks := some (saveBadBlocks g buf s.planes) } }
  | .restart env wipe fullScan =>
    (bmInit g env (bmShutdown g env s.planes s.files) wipe fullScan).map fun result =>
        ⟨result.1, result.2, if wipe then ∅ else s.used⟩

/-- The blocks a restore should find free in a plane: those of its free list,
and its frontiers of which no page was handed out. -/
def Reusable (s : PlaneRun) (addr : PlaneAddr) (block : ℕ) : Prop :=
  block ∈ (s.planes addr).freeList ∨ ∃ role, (s.planes addr).wf role = some block ∧
      ∀ page, (⟨addr, block, page⟩ : FlashAddress) ∉ s.used

/-! ### One plane -/

namespace PlaneAllocator

/-- The counter of a free list is at least its length, and every block with a
write index has handed out a page. -/
structure Counted (plane : PlaneAllocator) (used : Set (ℕ × ℕ)) : Prop where
  size_le : plane.freeList.length ≤ plane.freeListSize
  written : ∀ block, (plane.blocks block).pageWriteIndex ≠ 0 → ∃ page, (block, page) ∈ used

variable {plane : PlaneAllocator} {used : Set (ℕ × ℕ)}

variable (hcounted : plane.Counted used)
include hcounted

theorem Counted.savedFree_eq : plane.savedFree = plane.freeList := by
  rw [savedFree]
  by_cases hzero : plane.freeListSize = 0
  · rw [if_pos hzero]
  · rw [if_neg hzero, take_of_length_le hcounted.size_le]

theorem Counted.modifyBlock {update : BlockData → BlockData}
    (hindex : ∀ data, (update data).pageWriteIndex = data.pageWriteIndex)
    (block : ℕ) : (plane.modifyBlock block update).Counted used := by
  refine ⟨hcounted.size_le, fun other hne => hcounted.written other ?_⟩
  rw [modifyBlock_blocks] at hne
  by_cases hsame : other = block
  · subst hsame
    rwa [update_self, hindex] at hne
  · rwa [update_of_ne hsame] at hne

theorem Counted.setWf (role : Role) (block : Option ℕ) : (plane.setWf role block).Counted used := by
  cases role <;> exact ⟨hcounted.size_le, hcounted.written⟩

theorem Counted.refilled (nsid : ℕ)
    (forMapping : Bool) (role : Role) : (plane.refilled nsid forMapping role).Counted used := by
  apply Counted.setWf
  rw [getFreeBlock]
  cases hlist : plane.freeList with
  | nil => exact hcounted
  | cons block rest =>
    have hsize := hcounted.size_le
    rw [hlist, length_cons] at hsize
    have htaken : ({ plane with
        freeList := rest
        freeListSize := plane.freeListSize - 1 } : PlaneAllocator).Counted used :=
      ⟨Nat.le_sub_one_of_lt hsize, hcounted.written⟩
    simp only
    apply htaken.modifyBlock
    intro data
    rfl

theorem Counted.handOut (block page : ℕ) (index : ℕ) :
    (plane.modifyBlock block fun data =>
      { data with pageWriteIndex := index }).Counted (insert (block, page) used) := by
  refine ⟨hcounted.size_le, fun other hne => ?_⟩
  by_cases hsame : other = block
  · subst hsame
    exact ⟨page, Set.mem_insert _ _⟩
  · rw [modifyBlock_blocks, update_of_ne hsame] at hne
    obtain ⟨old, hold⟩ := hcounted.written other hne
    exact ⟨old, Set.mem_insert_of_mem _ hold⟩

theorem Counted.dropBad (block : ℕ) : (plane.dropBad block).Counted used := by
  have hflag : (plane.modifyBlock block fun data =>
      { data with bad := true }).Counted used := by
    apply hcounted.modifyBlock
    intro data
    rfl
  exact ⟨length_erase_le.trans hcounted.size_le, hflag.written⟩

theorem Counted.foldl_dropBad (blocks : List ℕ) :
    (blocks.foldl PlaneAllocator.dropBad plane).Counted used := by
  induction blocks generalizing plane with
  | nil => exact hcounted
  | cons block blocks ih => exact ih (hcounted.dropBad block)

theorem Counted.initWf : plane.initWf.Counted used := by
  rw [initWf_eq]
  exact ((hcounted.refilled 1 false .data).refilled 1 false .gc).refilled 1 true .mapping

end PlaneAllocator

/-! ### All planes -/

variable {g : Geometry}

structure PlaneRun.Inv (g : Geometry) (s : PlaneRun) : Prop where
  bm : BmInv g s.planes s.used
  counted : ∀ addr, addr.InRange g → (s.planes addr).Counted (usedIn s.used addr)

variable {planes : Planes} {addr : PlaneAddr}

/-- The state after a start with any flags, from a sound plane file or after a
wipe. -/
theorem bmInit_planeInv {env : BmEnv} {files files' : BmFiles}
    {wipe fullScan : Bool} {used : Set FlashAddress}
    (hsound : wipe = false → PlaneFileSound g used files.planeInfo) (hwipe : wipe = true → used = ∅)
    (hrange : ∀ addr ∈ used, addr.InRange g)
    (hinit : bmInit g env files wipe fullScan = some (planes, files')) :
    PlaneRun.Inv g ⟨planes, files', used⟩ := by
  simp only [bmInit, bind_eq_bind, bind_eq_some_iff, Option.some.injEq, Prod.mk.injEq] at hinit
  obtain ⟨⟨restored, files₁⟩, hrestore, ⟨dropped, files₂⟩, hbad, rfl, rfl⟩ := hinit
  have hscanned : ∀ addr, addr.InRange g →
      FreshPlane g ((bmInitScan g env dropped files₂ fullScan).1 addr) (usedIn used addr) ∧
      ((bmInitScan g env dropped files₂ fullScan).1 addr).Counted (usedIn used addr) := by
    intro addr haddr
    obtain ⟨hfresh, hsize⟩ := bmInitPlanes_started hsound hwipe hrestore haddr
    have hcounted : (restored addr).Counted (usedIn used addr) :=
      ⟨hsize.ge, fun block hne => absurd (hfresh.index block) hne⟩
    obtain ⟨blocks, heq⟩ := bmInitBad_drops hbad haddr
    have hfresh' := hfresh.foldl_dropBad blocks
    have hcounted' := hcounted.foldl_dropBad blocks
    rw [← heq] at hfresh' hcounted'
    cases fullScan with
    | false => exact ⟨hfresh', hcounted'⟩
    | true => exact ⟨hfresh'.foldl_dropBad _, hcounted'.foldl_dropBad _⟩
  exact ⟨⟨fun addr haddr => (hscanned addr haddr).1.initWf, hrange⟩,
    fun addr haddr => (hscanned addr haddr).2.initWf⟩

variable {s : PlaneRun}

theorem PlaneRun.Inv.alloc (hinv : s.Inv g) {nsid : ℕ}
    {forGc forMapping : Bool} {page : FlashAddress}
    (halloc : bmAllocPage g s.planes nsid addr forGc forMapping = some (page, planes)) :
    PlaneRun.Inv g { s with planes := planes, used := insert page s.used } := by
  refine ⟨(bmAllocPage_fresh hinv.bm halloc).2.2, fun other hother => ?_⟩
  obtain ⟨hrange, block, -, rfl, rfl⟩ := bmAllocPage_eq_some halloc
  simp only
  by_cases hsame : other = addr
  · subst hsame
    rw [update_self, usedIn_insert_self]
    have hnext := (hinv.counted other hother).handOut block
      ((pageIdxMap g).getD ((s.planes other).blocks block).pageWriteIndex 0)
      (((s.planes other).blocks block).pageWriteIndex + 1)
    split
    · exact hnext.refilled nsid forMapping _
    · exact hnext
  · rw [update_of_ne hsame, usedIn_insert_of_ne s.used hsame]
    exact hinv.counted other hother

theorem PlaneRun.Inv.modifyBlock (hinv : s.Inv g) {update : BlockData → BlockData}
    (hindex : ∀ data, (update data).pageWriteIndex = data.pageWriteIndex)
    (addr : PlaneAddr) (block : ℕ) :
    PlaneRun.Inv g { s with
      planes := Function.update s.planes addr ((s.planes addr).modifyBlock block update) } := by
  refine ⟨hinv.bm.modifyBlock hindex addr block, fun other hother => ?_⟩
  simp only
  by_cases hsame : other = addr
  · subst hsame
    rw [update_self]
    exact (hinv.counted other hother).modifyBlock hindex block
  · rw [update_of_ne hsame]
    exact hinv.counted other hother

theorem PlaneRun.Inv.step {next : PlaneRun} {op : PlaneOp} (hinv : s.Inv g)
    (hstep : planeStep g s op = some next) : next.Inv g := by
  cases op with
  | alloc nsid addr forGc forMapping =>
    simp only [planeStep, map_eq_some_iff] at hstep
    obtain ⟨⟨page, planes⟩, halloc, rfl⟩ := hstep
    exact hinv.alloc halloc
  | invalidate addr =>
    obtain ⟨-, rfl⟩ := guard_some hstep
    rw [bmInvalidatePage]
    apply hinv.modifyBlock
    intro data
    rfl
  | markBad addr =>
    obtain ⟨-, rfl⟩ := guard_some hstep
    rw [bmMarkBad]
    apply hinv.modifyBlock
    intro data
    rfl
  | saveBad buf =>
    cases hstep
    exact ⟨hinv.bm, hinv.counted⟩
  | restart env wipe fullScan =>
    simp only [planeStep, map_eq_some_iff] at hstep
    obtain ⟨⟨planes, files⟩, hinit, rfl⟩ := hstep
    cases wipe with
    | false =>
      apply bmInit_planeInv _ _ hinv.bm.used_inRange hinit
      · exact fun _ => hinv.bm.shutdown_sound env s.files
      · exact fun h => absurd h (by decide)
    | true =>
      apply bmInit_planeInv _ _ _ hinit
      · exact fun h => absurd h (by decide)
      · exact fun _ => rfl
      · exact fun addr haddr => absurd haddr (Set.notMem_empty addr)

/-! ### What a restore finds -/

theorem PlaneRun.Inv.getBit_freeMap (hinv : s.Inv g) (haddr : addr.InRange g) (block : ℕ) :
    ((s.planes addr).freeMap g).getBit block = true ↔ Reusable s addr block := by
  have hplane := hinv.bm.plane addr haddr
  have hcounted := hinv.counted addr haddr
  have hunused : ∀ role front, front ∈ (s.planes addr).unusedWf role ↔
      (s.planes addr).wf role = some front ∧
        ∀ page, (⟨addr, front, page⟩ : FlashAddress) ∉ s.used := by
    intro role front
    rw [mem_unusedWf]
    constructor
    · rintro ⟨hwf, hzero⟩
      refine ⟨hwf, fun page hused => ?_⟩
      obtain ⟨index, hindex, -⟩ := hplane.wf_used role front hwf page hused
      omega
    · rintro ⟨hwf, hnone⟩
      refine ⟨hwf, ?_⟩
      by_contra hne
      obtain ⟨page, hused⟩ := hcounted.written front hne
      exact hnone page hused
  rw [freeMap, hcounted.savedFree_eq, getBit_setBits]
  · simp only [getBit_zero, Bool.or_false, decide_eq_true_eq, mem_append, hunused, Reusable]
    constructor
    · rintro (((hfree | hdata) | hmapping) | hgc)
      · exact .inl hfree
      · exact .inr ⟨_, hdata⟩
      · exact .inr ⟨_, hmapping⟩
      · exact .inr ⟨_, hgc⟩
    · rintro (hfree | ⟨role, hrole⟩)
      · exact .inl (.inl (.inl hfree))
      · cases role with
        | data => exact .inl (.inl (.inr hrole))
        | gc => exact .inr hrole
        | mapping => exact .inl (.inr hrole)
  · intro front hfront
    have hlt : front < g.blocksPerPlane := by
      simp only [mem_append, hunused] at hfront
      rcases hfront with ((hfree | hdata) | hmapping) | hgc
      · exact hplane.free_lt front hfree
      · exact hplane.wf_lt _ front hdata.1
      · exact hplane.wf_lt _ front hmapping.1
      · exact hplane.wf_lt _ front hgc.1
    simpa using lt_bitchunks hlt

theorem Reusable.lt (hinv : s.Inv g) (haddr : addr.InRange g)
    {block : ℕ} (hreusable : Reusable s addr block) : block < g.blocksPerPlane := by
  have hplane := hinv.bm.plane addr haddr
  rcases hreusable with hfree | ⟨role, hwf, -⟩
  · exact hplane.free_lt block hfree
  · exact hplane.wf_lt role block hwf

/-- The first data page of a small device, a bad mark and a page for GC. -/
def benchPlaneOps : List PlaneOp :=
  [.alloc 1 ⟨0, 0, 0, 0⟩ false false, .markBad ⟨⟨0, 0, 0, 0⟩, 5, 0⟩,
    .alloc 1 ⟨0, 0, 0, 0⟩ true false]

end Soda
