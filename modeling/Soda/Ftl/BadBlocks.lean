import Soda.Core.Runs
import Soda.Ftl.PageUniqueness

/-!
# Bad blocks and write frontiers

`bm_init` takes the blocks of the saved list out of the free lists before it
assigns write frontiers, so after a start no free block is flagged.  Afterwards
`bm_mark_bad` only sets the flag, and `get_free_block` does not look at it: a
block that is flagged while it is in the free list is still opened later.
-/

namespace Soda

open PlaneAllocator List Option Function Bitmap

def flagged (planes : Planes) (addr : PlaneAddr) (block : ℕ) : Bool :=
  ((planes addr).blocks block).bad

/-- The block manager, its files, and the flags at the last save of the list of
bad blocks. -/
structure BadRun where
  planes : Planes
  files : BmFiles
  saved : PlaneAddr → ℕ → Bool

inductive BadOp
  | alloc (nsid : ℕ) (addr : PlaneAddr) (forGc forMapping : Bool)
  | markBad (addr : FlashAddress)
  | saveBad (buf : PageBuf)
  | restart (env : BmEnv)

/-- The state after a start; the list is restored or scanned and saved by
then. -/
def BadRun.started (result : Planes × BmFiles) : BadRun := ⟨result.1, result.2, flagged result.1⟩

/-- One operation.  `get_plane` and `get_block_data` assert their ranges. -/
def badStep (g : Geometry) (s : BadRun) : BadOp → Option BadRun
  | .alloc nsid addr forGc forMapping =>
    (bmAllocPage g s.planes nsid addr forGc forMapping).map fun result =>
      { s with planes := result.2 }
  | .markBad addr =>
    if addr.planeAddr.InRange g ∧ addr.block < g.blocksPerPlane then
      some { s with planes := bmMarkBad s.planes addr }
    else none
  | .saveBad buf =>
    some { s with
      files := { s.files with
        badBlocks := some (saveBadBlocks g buf s.planes) }
      saved := flagged s.planes }
  | .restart env =>
    (bmInit g env (bmShutdown g env s.planes s.files) false false).map BadRun.started

/-- The frontiers that an operation opens are not flagged: for a restart, not
in the list that was saved and not after it either. -/
def OpensGood (g : Geometry) (s next : BadRun) : BadOp → Prop
  | .restart _ => ∀ addr, addr.InRange g → ∀ role block, (next.planes addr).wf role = some block →
        s.saved addr block = false ∧ flagged next.planes addr block = false
  | _ => ∀ addr, addr.InRange g → ∀ role block, (next.planes addr).wf role = some block →
        (s.planes addr).wf role = some block ∨ flagged s.planes addr block = false

/-- Only blocks that are not in the free list are marked bad. -/
def MarksTaken (s : BadRun) : BadOp → Prop
  | .markBad addr => addr.block ∉ (s.planes addr.planeAddr).freeList
  | _ => True

instance (s : BadRun) (op : BadOp) : Decidable (MarksTaken s op) :=
  match op with
  | .alloc _ _ _ _ => .isTrue trivial
  | .markBad _ => inferInstanceAs (Decidable (_ ∉ _))
  | .saveBad _ => .isTrue trivial
  | .restart _ => .isTrue trivial

/-! ### One plane -/

namespace PlaneAllocator

variable (plane : PlaneAllocator)

def FreeGood : Prop := ∀ block ∈ plane.freeList, (plane.blocks block).bad = false

theorem modifyBlock_bad {update : BlockData → BlockData}
    (hbad : ∀ data, (update data).bad = data.bad) (block other : ℕ) :
    ((plane.modifyBlock block update).blocks other).bad = (plane.blocks other).bad := by
  rw [modifyBlock_blocks]
  by_cases hsame : other = block
  · rw [hsame, update_self, hbad]
  · rw [update_of_ne hsame]

variable (nsid : ℕ) (forMapping : Bool)

/-- A frontier replaced by the head of the free list. -/
def refilled (role : Role) : PlaneAllocator :=
  (plane.getFreeBlock nsid forMapping).2.setWf role (plane.getFreeBlock nsid forMapping).1

theorem refilled_bad (role : Role) (other : ℕ) :
    ((plane.refilled nsid forMapping role).blocks other).bad = (plane.blocks other).bad := by
  rw [refilled, setWf_blocks, getFreeBlock]
  cases plane.freeList with
  | nil => rfl
  | cons block rest =>
    simp only
    rw [modifyBlock_bad]
    intro data
    rfl

theorem refilled_freeList (role : Role) :
    (plane.refilled nsid forMapping role).freeList = plane.freeList.tail := by
  rw [refilled, setWf_freeList, getFreeBlock]
  cases hlist : plane.freeList with
  | nil => simp [hlist]
  | cons block rest => rfl

theorem refilled_wf (role other : Role) :
    (plane.refilled nsid forMapping role).wf other =
      if role = other then plane.freeList.head? else plane.wf other := by
  rw [refilled, wf_setWf, getFreeBlock]
  cases plane.freeList with
  | nil => rfl
  | cons block rest => cases other <;> rfl

variable {plane}

theorem FreeGood.refilled (hgood : plane.FreeGood) (role : Role) :
    (plane.refilled nsid forMapping role).FreeGood := by
  intro block hblock
  rw [refilled_freeList] at hblock
  rw [refilled_bad]
  exact hgood block (mem_of_mem_tail hblock)

/-- A frontier refilled from a list without flagged blocks is not flagged. -/
theorem FreeGood.refilled_wf (hgood : plane.FreeGood) {role other : Role} {block : ℕ}
    (hwf : (plane.refilled nsid forMapping role).wf other = some block) :
    plane.wf other = some block ∧ role ≠ other ∨ (plane.blocks block).bad = false := by
  rw [PlaneAllocator.refilled_wf] at hwf
  by_cases hrole : role = other
  · rw [if_pos hrole] at hwf
    exact .inr (hgood block (mem_of_head? hwf))
  · rw [if_neg hrole] at hwf
    exact .inl ⟨hwf, hrole⟩

theorem dropBad_blocks_bad (block other : ℕ) :
    ((plane.dropBad block).blocks other).bad =
      ((plane.blocks other).bad || decide (other = block)) := by
  rw [dropBad]
  by_cases hsame : other = block
  · simp [hsame]
  · simp [hsame]

/-- Dropping a list of blocks flags them and takes them out of a free list
that has no duplicates. -/
theorem foldl_dropBad_bad (blocks : List ℕ) (other : ℕ) :
    ((blocks.foldl dropBad plane).blocks other).bad =
      ((plane.blocks other).bad || decide (other ∈ blocks)) := by
  induction blocks generalizing plane with
  | nil => simp
  | cons block blocks ih =>
    rw [foldl_cons, ih, dropBad_blocks_bad, Bool.or_assoc]
    simp [mem_cons]

theorem foldl_dropBad_freeList (blocks : List ℕ) (other : ℕ) (hnodup : plane.freeList.Nodup)
    (hother : other ∈ (blocks.foldl dropBad plane).freeList) :
    other ∈ plane.freeList ∧ other ∉ blocks := by
  induction blocks generalizing plane with
  | nil => exact ⟨hother, not_mem_nil⟩
  | cons block blocks ih =>
    have hlist : (plane.dropBad block).freeList = plane.freeList.erase block := rfl
    have hrest := ih (hlist ▸ hnodup.erase block) hother
    rw [hlist, hnodup.mem_erase_iff] at hrest
    rw [mem_cons, not_or]
    exact ⟨hrest.1.2, hrest.1.1, hrest.2⟩

theorem FreeGood.foldl_dropBad (hgood : plane.FreeGood)
    (hnodup : plane.freeList.Nodup) (blocks : List ℕ) : (blocks.foldl dropBad plane).FreeGood := by
  intro other hother
  obtain ⟨hfree, hnotMem⟩ := foldl_dropBad_freeList blocks other hnodup hother
  rw [foldl_dropBad_bad, hgood other hfree]
  simpa using hnotMem

theorem initWf_eq (plane : PlaneAllocator) :
    plane.initWf = ((plane.refilled 1 false .data).refilled 1 false .gc).refilled
      1 true .mapping := rfl

theorem initWf_bad (plane : PlaneAllocator) (other : ℕ) :
    (plane.initWf.blocks other).bad = (plane.blocks other).bad := by
  rw [initWf_eq, refilled_bad, refilled_bad, refilled_bad]

/-- All three frontiers are replaced. -/
theorem FreeGood.initWf (hgood : plane.FreeGood) :
    plane.initWf.FreeGood ∧ ∀ role block, plane.initWf.wf role = some block →
      (plane.blocks block).bad = false := by
  have hdata := hgood.refilled 1 false .data
  have hgc := hdata.refilled 1 false .gc
  constructor
  · exact hgc.refilled 1 true .mapping
  · intro role block hwf
    rw [initWf_eq] at hwf
    rcases hgc.refilled_wf 1 true hwf with ⟨hwf, hmapping⟩ | hbad
    · rcases hdata.refilled_wf 1 false hwf with ⟨hwf, hother⟩ | hbad
      · rcases hgood.refilled_wf 1 false hwf with ⟨-, hlast⟩ | hbad
        · cases role <;> contradiction
        · exact hbad
      · rwa [refilled_bad] at hbad
    · rwa [refilled_bad, refilled_bad] at hbad

end PlaneAllocator

/-! ### Starts -/

variable {g : Geometry}

/-- The saved file names every block of a set. -/
def BadFile (g : Geometry) (files : BmFiles) (saved : PlaneAddr → ℕ → Bool) : Prop :=
  ∃ pages, files.badBlocks = some pages ∧ ∀ maps,
    unpackFile (planesPerPage g) (bitchunks g.blocksPerPlane)
      (planeAddrs g).length pages = some maps → ∀ addr map, (addr, map) ∈ (planeAddrs g).zip maps →
      ∀ block < g.blocksPerPlane, saved addr block = true → map.getBit block = true

theorem getBit_badMap (plane : PlaneAllocator) {block : ℕ} (hblock : block < g.blocksPerPlane) :
    (plane.badMap g).getBit block = (plane.blocks block).bad := by
  rw [badMap, getBit_setBits]
  · simp [hblock]
  · intro other hother
    have hlt : other < g.blocksPerPlane := by simpa using (mem_filter.mp hother).1
    simpa using lt_bitchunks hlt

/-- A save of the list makes the present flags durable. -/
theorem badFile_saved (planes : Planes) (files : BmFiles) (buf : PageBuf) :
    BadFile g { files with badBlocks := some (saveBadBlocks g buf planes) } (flagged planes) := by
  refine ⟨_, rfl, ?_⟩
  intro maps hunpack addr map hmem block hblock hflag
  rw [saveBadBlocks, unpackFile_saved g buf (fun addr => (planes addr).badMap g)
    (fun addr => length_badMap g (planes addr)), some.injEq] at hunpack
  rw [← hunpack] at hmem
  rw [eq_of_mem_zip_map hmem, getBit_badMap _ hblock]
  exact hflag

variable {env : BmEnv} {files files' : BmFiles} {planes : Planes} {addr : PlaneAddr}
  {s next : BadRun}

theorem restoreBad_flagged {map : Bitmap}
    (hclean : ∀ block, flagged planes addr block = false) (block : ℕ) :
    (((planes addr).restoreBad g map).blocks block).bad =
      decide (block < g.blocksPerPlane ∧ map.getBit block = true) := by
  have hbad := hclean block
  rw [flagged] at hbad
  rw [restoreBad, foldl_dropBad_bad, hbad]
  simp

/-- The second part of a start on planes without flags: it drops blocks, it
flags those of the saved list, and the file it leaves names all of them. -/
structure Dropped (g : Geometry) (files files' : BmFiles)
    (planes planes' : Planes) : Prop where
  drops : ∀ addr, addr.InRange g → ∃ blocks : List ℕ,
    planes' addr = blocks.foldl dropBad (planes addr)
  restores : ∀ saved, BadFile g files saved → ∀ addr, addr.InRange g →
    ∀ block < g.blocksPerPlane, saved addr block = true → flagged planes' addr block = true
  file : BadFile g files' (flagged planes')

variable (hinit : bmInitPlanes g env files false = some (planes, files'))
include hinit

theorem bmInitPlanes_bad {addr : PlaneAddr} (haddr : addr.InRange g) (block : ℕ) :
    flagged planes addr block = false := by
  cases hfile : files.planeInfo with
  | none =>
    simp only [bmInitPlanes, hfile, some.injEq, Prod.mk.injEq] at hinit
    rw [← hinit.1, flagged, resetBlocks]
    rw [(FreshPlane.foldl_reset _ _).2.1]
    rfl
  | some pages =>
    simp only [bmInitPlanes, hfile, restorePlaneInfo, Option.map_map,
      map_eq_some_iff, comp, Prod.mk.injEq] at hinit
    obtain ⟨maps, hunpack, rfl, _⟩ := hinit
    obtain ⟨map, -, heq⟩ := updatePlanes_zip g (restoreFree g) (length_unpackFile hunpack)
      (fun _ => init g) haddr
    rw [flagged, heq]
    rfl

theorem bmInitPlanes_badBlocks : files'.badBlocks = files.badBlocks := by
  cases hfile : files.planeInfo with
  | none =>
    simp only [bmInitPlanes, hfile, some.injEq, Prod.mk.injEq] at hinit
    rw [← hinit.2]
  | some pages =>
    simp only [bmInitPlanes, hfile, restorePlaneInfo, Option.map_map,
      map_eq_some_iff, comp, Prod.mk.injEq] at hinit
    obtain ⟨_, _, _, rfl⟩ := hinit
    rfl

omit hinit

variable {planes' : Planes} {nsid : ℕ} {forGc forMapping : Bool}

theorem bmInitBad_dropped (hinit : bmInitBad g env planes files = some (planes', files'))
    (hclean : ∀ addr, addr.InRange g → ∀ block, flagged planes addr block = false) :
    Dropped g files files' planes planes' := by
  have hdrops := fun (addr : PlaneAddr) (haddr : addr.InRange g) => bmInitBad_drops hinit haddr
  cases hfile : files.badBlocks with
  | none =>
    simp only [bmInitBad, hfile, some.injEq, Prod.mk.injEq] at hinit
    obtain ⟨rfl, rfl⟩ := hinit
    refine ⟨hdrops, ?_, badFile_saved _ _ _⟩
    rintro saved ⟨pages, hsome, -⟩
    rw [hfile] at hsome
    cases hsome
  | some pages =>
    simp only [bmInitBad, hfile, restoreBadBlocks, Option.map_map,
      map_eq_some_iff, comp, Prod.mk.injEq] at hinit
    obtain ⟨maps, hunpack, rfl, rfl⟩ := hinit
    have hlength := length_unpackFile hunpack
    constructor
    · exact hdrops
    · intro saved hsaved addr haddr block hblock hflag
      obtain ⟨pages', hsome, hnames⟩ := hsaved
      obtain ⟨map, hmem, heq⟩ := updatePlanes_zip g (restoreBad g) hlength planes haddr
      rw [hfile, some.injEq] at hsome
      rw [← hsome] at hnames
      have hbit := hnames maps hunpack addr map hmem block hblock hflag
      rw [flagged, heq, restoreBad_flagged (hclean addr haddr)]
      exact decide_eq_true ⟨hblock, hbit⟩
    · refine ⟨pages, hfile, ?_⟩
      intro maps' hunpack' addr map hmem block hblock hflag
      rw [hunpack, some.injEq] at hunpack'
      rw [← hunpack'] at hmem
      have haddr := mem_planeAddrs.mp (of_mem_zip hmem).1
      rw [flagged, updatePlanes_of_mem _ _ planes (zip_keys_nodup g hlength)
        hmem, restoreBad_flagged (hclean addr haddr)] at hflag
      exact (of_decide_eq_true hflag).2

/-- After a start neither a free block nor a frontier is flagged, and every
block of the saved list is. -/
structure GoodStart (g : Geometry) (files files' : BmFiles) (planes : Planes) : Prop where
  free : ∀ addr, addr.InRange g → (planes addr).FreeGood
  wf : ∀ addr, addr.InRange g → ∀ role block, (planes addr).wf role = some block →
      block < g.blocksPerPlane ∧ flagged planes addr block = false
  restores : ∀ saved, BadFile g files saved → ∀ addr, addr.InRange g →
    ∀ block < g.blocksPerPlane, saved addr block = true → flagged planes addr block = true
  file : BadFile g files' (flagged planes)

theorem bmInit_goodStart (hinit : bmInit g env files false false = some (planes, files')) :
    GoodStart g files files' planes := by
  have hinv := bmInit_inv (planeFileSound_empty g files.planeInfo)
    (fun _ h => absurd h (Set.notMem_empty _)) hinit
  simp only [bmInit, bind_eq_bind, bind_eq_some_iff] at hinit
  obtain ⟨⟨restored, files₁⟩, hrestore, ⟨scanned, files₂⟩, hscan, hinit⟩ := hinit
  simp only [bmInitScan, Bool.false_eq_true, if_false, some.injEq, Prod.mk.injEq] at hinit
  obtain ⟨rfl, rfl⟩ := hinit
  have hclean := fun (addr : PlaneAddr) (haddr : addr.InRange g) => bmInitPlanes_bad hrestore haddr
  have hdropped := bmInitBad_dropped hscan hclean
  have hflagged : flagged (fun addr => (scanned addr).initWf) = flagged scanned := by
    funext addr block
    exact initWf_bad _ _
  have hgood : ∀ addr, addr.InRange g → (scanned addr).FreeGood := by
    intro addr haddr
    obtain ⟨blocks, heq⟩ := hdropped.drops addr haddr
    have hfresh := bmInitPlanes_fresh (planeFileSound_empty g files.planeInfo) hrestore haddr
    rw [heq]
    apply PlaneAllocator.FreeGood.foldl_dropBad _ hfresh.nodup
    exact fun block _ => hclean addr haddr block
  constructor
  · intro addr haddr
    exact (hgood addr haddr).initWf.1
  · intro addr haddr role block hwf
    constructor
    · exact (hinv.plane addr haddr).wf_lt role block hwf
    · rw [hflagged]
      exact (hgood addr haddr).initWf.2 role block hwf
  · intro saved hsaved
    rw [hflagged]
    apply hdropped.restores saved
    obtain ⟨pages, hsome, hnames⟩ := hsaved
    exact ⟨pages, (bmInitPlanes_badBlocks hrestore).trans hsome, hnames⟩
  · rw [hflagged]
    exact hdropped.file

/-! ### Runs -/

structure BadInv (g : Geometry) (s : BadRun) : Prop where
  free : ∀ addr, addr.InRange g → (s.planes addr).FreeGood
  file : BadFile g s.files s.saved

theorem BadInv.of_started {result : Planes × BmFiles}
    (hinit : bmInit g env files false false = some result) : BadInv g (BadRun.started result) := by
  have hstart := bmInit_goodStart hinit
  exact ⟨hstart.free, hstart.file⟩

/-- An allocation changes at most one frontier, to the head of the free list. -/
theorem bmAllocPage_good
    {result : FlashAddress} (halloc : bmAllocPage g planes nsid addr forGc forMapping =
      some (result, planes')) (hfree : addr.InRange g → (planes addr).FreeGood) :
    ∃ plane : PlaneAllocator, planes' = update planes addr plane ∧
      plane.FreeGood ∧ ∀ role block, plane.wf role = some block →
        (planes addr).wf role = some block ∨ flagged planes addr block = false := by
  obtain ⟨hrange, block, -, -, rfl⟩ := bmAllocPage_eq_some halloc
  refine ⟨_, rfl, ?_⟩
  generalize hused : (planes addr).modifyBlock block (fun data =>
    { data with
      pageWriteIndex := ((planes addr).blocks block).pageWriteIndex + 1 }) = used
  have hbad : ∀ other, (used.blocks other).bad = flagged planes addr other := by
    intro other
    rw [← hused, modifyBlock_bad]
    · rfl
    · exact fun _ => rfl
  have hwf : ∀ role, used.wf role = (planes addr).wf role := by
    intro role
    rw [← hused, modifyBlock_wf]
  have hgood : used.FreeGood := by
    intro other hother
    rw [← hused, modifyBlock_freeList] at hother
    rw [hbad]
    exact hfree hrange other hother
  simp only [hused]
  split
  · constructor
    · exact hgood.refilled nsid forMapping _
    · intro role other hopen
      rw [← hwf, ← hbad]
      exact (hgood.refilled_wf nsid forMapping hopen).imp_left And.left
  · constructor
    · exact hgood
    · intro role other hopen
      exact .inl (hwf role ▸ hopen)

theorem BadInv.alloc (hinv : BadInv g s)
    (hstep : badStep g s (.alloc nsid addr forGc forMapping) = some next) :
    BadInv g next ∧ OpensGood g s next (.alloc nsid addr forGc forMapping) := by
  obtain ⟨⟨result, planes'⟩, halloc, rfl⟩ := map_eq_some_iff.mp hstep
  obtain ⟨plane, rfl, hgood, hopens⟩ := bmAllocPage_good halloc (hinv.free addr)
  constructor
  · refine ⟨?_, hinv.file⟩
    intro other hother
    simp only
    by_cases hsame : other = addr
    · rw [hsame, update_self]
      exact hgood
    · rw [update_of_ne hsame]
      exact hinv.free other hother
  · intro other hother role block hopen
    simp only at hopen
    by_cases hsame : other = addr
    · rw [hsame, update_self] at hopen
      rw [hsame]
      exact hopens role block hopen
    · rw [update_of_ne hsame] at hopen
      exact .inl hopen

theorem BadInv.markBad {addr : FlashAddress} (hinv : BadInv g s)
    (htaken : MarksTaken s (.markBad addr))
    (hstep : badStep g s (.markBad addr) = some next) : BadInv g next := by
  obtain ⟨-, rfl⟩ := guard_some hstep
  refine ⟨?_, hinv.file⟩
  intro other hother block hblock
  have hgood := hinv.free other hother block
  by_cases hsame : other = addr.planeAddr
  · subst hsame
    simp only [bmMarkBad, update_self, modifyBlock_freeList] at hblock
    have hne : block ≠ addr.block := by
      intro heq
      rw [heq] at hblock
      exact htaken hblock
    simpa [bmMarkBad, hne] using hgood hblock
  · simp only [bmMarkBad, update_of_ne hsame] at hblock ⊢
    exact hgood hblock

/-- Marking a block moves no frontier. -/
theorem opensGood_markBad {addr : FlashAddress} (hstep : badStep g s (.markBad addr) = some next) :
    OpensGood g s next (.markBad addr) := by
  obtain ⟨-, rfl⟩ := guard_some hstep
  intro other _ role block hopen
  by_cases hsame : other = addr.planeAddr
  · subst hsame
    simp only [bmMarkBad, update_self, modifyBlock_wf] at hopen
    exact .inl hopen
  · simp only [bmMarkBad, update_of_ne hsame] at hopen
    exact .inl hopen

theorem BadInv.restart (hinv : BadInv g s) (hstep : badStep g s (.restart env) = some next) :
    OpensGood g s next (.restart env) := by
  obtain ⟨⟨planes, files⟩, hinit, rfl⟩ := map_eq_some_iff.mp hstep
  have hstart := bmInit_goodStart hinit
  have hfile : BadFile g (bmShutdown g env s.planes s.files) s.saved := hinv.file
  intro addr haddr role block hopen
  obtain ⟨hblock, hgood⟩ := hstart.wf addr haddr role block hopen
  constructor
  · by_contra hsaved
    have hflag := hstart.restores s.saved hfile addr haddr block hblock
      (Bool.eq_true_of_not_eq_false hsaved)
    rw [hgood] at hflag
    cases hflag
  · exact hgood

theorem BadInv.step (s : BadRun) (op : BadOp) (next : BadRun) (hinv : BadInv g s)
    (htaken : MarksTaken s op) (hstep : badStep g s op = some next) : BadInv g next := by
  cases op with
  | alloc nsid addr forGc forMapping => exact (hinv.alloc hstep).1
  | markBad addr => exact hinv.markBad htaken hstep
  | saveBad buf =>
    cases hstep
    exact ⟨hinv.free, badFile_saved _ _ _⟩
  | restart env =>
    obtain ⟨result, hinit, rfl⟩ := map_eq_some_iff.mp hstep
    exact BadInv.of_started hinit

theorem BadInv.opensGood {op : BadOp} (hinv : BadInv g s)
    (hstep : badStep g s op = some next) : OpensGood g s next op := by
  cases op with
  | alloc nsid addr forGc forMapping => exact (hinv.alloc hstep).2
  | markBad addr => exact opensGood_markBad hstep
  | saveBad buf =>
    cases hstep
    exact fun _ _ _ _ hopen => .inl hopen
  | restart env => exact hinv.restart hstep

/-- In a run from a start on any files that marks only blocks outside of the
free lists, no operation opens a block that is flagged. -/
theorem bad_blocks_never_opened {env : BmEnv} {files : BmFiles}
    {result : Planes × BmFiles} (ops : List BadOp) {s next : BadRun} {op : BadOp}
    (hboot : bmInit g env files false false = some result)
    (hrun : Run (badStep g) MarksTaken (BadRun.started result) ops s)
    (hstep : badStep g s op = some next) : OpensGood g s next op := by
  have hinv : BadInv g s := hrun.invariant BadInv.step (BadInv.of_started hboot)
  exact hinv.opensGood hstep

/-- The data frontier of a small device is marked, the list saved and the device
restarted. -/
theorem bad_blocks_never_opened_bench :
    ∃ result s next, bmInit benchGeometry benchEnv ⟨none, none⟩ false false = some result ∧
      Run (badStep benchGeometry) MarksTaken (BadRun.started result)
        [.markBad ⟨⟨0, 0, 0, 0⟩, 11, 0⟩, .saveBad fun _ => 0] s ∧
      badStep benchGeometry s (.restart benchEnv) = some next ∧
      OpensGood benchGeometry s next (.restart benchEnv) := by
  have hboot : bmInit benchGeometry benchEnv ⟨none, none⟩ false false = some _ := rfl
  refine ⟨_, _, _, hboot, run_of_runActionsIf rfl, rfl, ?_⟩
  exact bad_blocks_never_opened [.markBad ⟨⟨0, 0, 0, 0⟩, 11, 0⟩, .saveBad fun _ => 0] hboot
    (run_of_runActionsIf rfl) rfl

/-- Block 8 of a small device is marked while it is free, and opened after four
more pages. -/
theorem not_bad_blocks_never_opened :
    ∃ result s next, bmInit benchGeometry benchEnv ⟨none, none⟩ false false = some result ∧
      FreeRun (badStep benchGeometry) (BadRun.started result) (.markBad ⟨⟨0, 0, 0, 0⟩, 8, 0⟩ ::
          replicate 3 (.alloc 1 ⟨0, 0, 0, 0⟩ false false)) s ∧
      badStep benchGeometry s (.alloc 1 ⟨0, 0, 0, 0⟩ false false) = some next ∧
      (s.planes ⟨0, 0, 0, 0⟩).wf .data = some 11 ∧ (next.planes ⟨0, 0, 0, 0⟩).wf .data = some 8 ∧
      flagged s.planes ⟨0, 0, 0, 0⟩ 8 = true :=
  ⟨_, _, _, rfl, freeRun_of_runActions rfl, rfl, rfl, rfl, rfl⟩

end Soda
