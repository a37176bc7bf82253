import Soda.Ftl.MappingRefinement

/-!
# Consistent states of the address mapping unit

Between operations every attached domain is consistent and the block manager
has handed out each page once.  `pages` names for each namespace the translation
pages that may be cached, which all fit in its cache.
-/

namespace Soda

variable {D : Type}

open Prog Sys Function PlaneAllocator Bitmap AmDomain

/-! ### Invalid pages -/

/-- The bit of `invalid_page_bitmap`. -/
def Invalid (planes : Planes) (addr : FlashAddress) : Prop :=
  ((planes addr.planeAddr).blocks addr.block).invalidPageBitmap.getBit addr.page = true

instance (planes : Planes) (addr : FlashAddress) :
    Decidable (Invalid planes addr) :=
  inferInstanceAs (Decidable (_ = true))

def MarksFit (g : Geometry) (planes : Planes) : Prop :=
  ∀ addr block, ((planes addr).blocks block).invalidPageBitmap.length = bitchunks g.pagesPerBlock

section Marks

variable {g : Geometry} {planes planes' : Planes}

theorem blocks_bmInvalidatePage (planes : Planes) (addr : FlashAddress)
    (other : PlaneAddr) (block : ℕ) :
    ((bmInvalidatePage planes addr other).blocks block).invalidPageBitmap =
      if other = addr.planeAddr ∧ block = addr.block then
        ((planes other).blocks block).invalidPageBitmap.setBit addr.page
      else ((planes other).blocks block).invalidPageBitmap := by
  rw [bmInvalidatePage]
  by_cases hplane : other = addr.planeAddr
  · by_cases hblock : block = addr.block
    · simp [hplane, hblock]
    · simp [hplane, hblock]
  · simp [hplane]

theorem invalid_bmInvalidatePage (hfit : MarksFit g planes)
    {addr : FlashAddress} (hpage : addr.page < g.pagesPerBlock) (other : FlashAddress) :
    Invalid (bmInvalidatePage planes addr) other ↔ other = addr ∨ Invalid planes other := by
  rcases addr with ⟨plane, block, page⟩
  rcases other with ⟨plane', block', page'⟩
  rw [Invalid, Invalid, blocks_bmInvalidatePage]
  split
  · rename_i hsame
    obtain ⟨rfl, rfl⟩ := hsame
    rw [getBit_setBit _ _ _ (by
      rw [hfit]
      exact lt_bitchunks hpage), Bool.or_eq_true, decide_eq_true_eq]
    simp only [FlashAddress.mk.injEq, true_and]
    rw [eq_comm]
  · rename_i hother
    simp only [FlashAddress.mk.injEq]
    refine ⟨.inr, ?_⟩
    rintro (⟨rfl, rfl, -⟩ | hinvalid)
    · exact absurd ⟨rfl, rfl⟩ hother
    · exact hinvalid

variable {nsid : ℕ} {addr : PlaneAddr} {forGc forMapping : Bool} {result : FlashAddress}

theorem MarksFit.invalidatePage (hfit : MarksFit g planes)
    (addr : FlashAddress) : MarksFit g (bmInvalidatePage planes addr) := by
  intro other block
  rw [blocks_bmInvalidatePage]
  split
  · rw [length_setBit]
    exact hfit other block
  · exact hfit other block

theorem MarksFit.retired (hfit : MarksFit g planes) (entry : XlateEntry) :
    MarksFit g (retired g planes entry) := by
  rw [Soda.retired]
  split
  · exact hfit.invalidatePage _
  · exact hfit

variable (halloc : bmAllocPage g planes nsid addr forGc forMapping = some (result, planes'))
include halloc

/-- An allocation does not touch the marks. -/
theorem blocks_bmAllocPage (other : PlaneAddr) (block : ℕ) :
    ((planes' other).blocks block).invalidPageBitmap =
      ((planes other).blocks block).invalidPageBitmap := by
  obtain ⟨-, frontier, -, -, rfl⟩ := bmAllocPage_eq_some halloc
  by_cases hplane : other = addr
  · subst hplane
    rw [update_self]
    simp only
    split
    · rw [setWf_blocks, getFreeBlock]
      split
      · by_cases hblock : block = frontier
        · simp [hblock]
        · simp [hblock]
      · rename_i next _ _
        by_cases hnext : block = next
        · by_cases hblock : next = frontier
          · simp [hnext, hblock]
          · simp [hnext, hblock]
        · by_cases hblock : block = frontier
          · simp_all
          · simp [hnext, hblock]
    · by_cases hblock : block = frontier
      · simp [hblock]
      · simp [hblock]
  · rw [update_of_ne hplane]

theorem invalid_bmAllocPage (other : FlashAddress) :
    Invalid planes' other ↔ Invalid planes other := by
  rw [Invalid, Invalid, blocks_bmAllocPage halloc]

omit halloc

theorem MarksFit.allocPage (hfit : MarksFit g planes)
    (halloc : bmAllocPage g planes nsid addr forGc forMapping =
      some (result, planes')) : MarksFit g planes' := by
  intro other block
  rw [blocks_bmAllocPage halloc]
  exact hfit other block

end Marks

/-! ### After a start -/

def PlaneAllocator.Unmarked (g : Geometry) (plane : PlaneAllocator) : Prop :=
  ∀ block, (plane.blocks block).invalidPageBitmap = zero g.pagesPerBlock

namespace PlaneAllocator.Unmarked

variable {g : Geometry} {plane : PlaneAllocator}

theorem modifyBlock (hplane : plane.Unmarked g) (block : ℕ) (update : BlockData → BlockData)
    (hupdate : ∀ data, (update data).invalidPageBitmap =
      data.invalidPageBitmap) : (plane.modifyBlock block update).Unmarked g := by
  intro other
  rw [modifyBlock_blocks]
  by_cases hother : other = block
  · rw [hother, update_self, hupdate]
    exact hplane block
  · rw [update_of_ne hother]
    exact hplane other

theorem foldl {step : PlaneAllocator → ℕ → PlaneAllocator}
    (hstep : ∀ plane block, Unmarked g plane → Unmarked g (step plane block))
    (blocks : List ℕ) (hplane : plane.Unmarked g) : (blocks.foldl step plane).Unmarked g := by
  induction blocks generalizing plane with
  | nil => exact hplane
  | cons block blocks ih => exact ih (hstep plane block hplane)

variable (hplane : plane.Unmarked g)
include hplane

theorem resetBlocks : (plane.resetBlocks g).Unmarked g := by
  apply foldl _ _ hplane
  exact fun _ _ hplane => hplane

theorem dropBad (block : ℕ) : (plane.dropBad block).Unmarked g :=
  hplane.modifyBlock block (fun data => { data with bad := true }) fun _ => rfl

theorem getFreeBlock (nsid : ℕ)
    (forMapping : Bool) : (plane.getFreeBlock nsid forMapping).2.Unmarked g := by
  rw [PlaneAllocator.getFreeBlock]
  split
  · exact hplane
  · rename_i block rest _
    have hrest : Unmarked g { plane with
      freeList := rest, freeListSize := plane.freeListSize - 1 } := hplane
    exact hrest.modifyBlock block (fun data => { data with
      nsid := nsid, mapping := data.mapping || forMapping }) fun _ => rfl

theorem initWf : plane.initWf.Unmarked g := by
  have hfree : ∀ (plane : PlaneAllocator) nsid forMapping,
      plane.Unmarked g → (plane.getFreeBlock nsid forMapping).2.Unmarked g :=
    fun _ nsid forMapping hplane => hplane.getFreeBlock nsid forMapping
  rw [PlaneAllocator.initWf]
  apply hfree { ((({ (plane.getFreeBlock 1 false).2 with
    dataWf := (plane.getFreeBlock 1 false).1 } :
      PlaneAllocator).getFreeBlock 1 false).2) with gcWf := _ }
  apply hfree { (plane.getFreeBlock 1 false).2 with dataWf := _ }
  exact hfree plane 1 false hplane

end PlaneAllocator.Unmarked

section Start

variable {g : Geometry}

theorem unmarked_updatePlanes {update : Bitmap → PlaneAllocator → PlaneAllocator}
    (hupdate : ∀ map plane, plane.Unmarked g → (update map plane).Unmarked g)
    (maps : List (PlaneAddr × Bitmap)) {planes : Planes}
    (hplanes : ∀ addr, (planes addr).Unmarked g) (addr : PlaneAddr) :
    (updatePlanes planes update maps addr).Unmarked g := by
  induction maps generalizing planes with
  | nil => exact hplanes addr
  | cons entry maps ih =>
    apply ih
    intro other
    by_cases hother : other = entry.1
    · rw [hother, update_self]
      exact hupdate entry.2 _ (hplanes entry.1)
    · rw [update_of_ne hother]
      exact hplanes other

/-- `bm_init` starts with no page marked invalid: the marks are not saved. -/
theorem bmInit_unmarked {env : BmEnv} {files files' : BmFiles}
    {wipe fullScan : Bool} {planes : Planes}
    (hinit : bmInit g env files wipe fullScan = some (planes, files'))
    (addr : PlaneAddr) : (planes addr).Unmarked g := by
  simp only [bmInit, Option.bind_eq_bind, Option.bind_eq_some_iff] at hinit
  obtain ⟨⟨restored, files₁⟩, hrestore, ⟨scanned, files₂⟩, hscan, hinit⟩ := hinit
  have hinit' : ∀ addr : PlaneAddr, (init g).Unmarked g :=
    fun _ _ => rfl
  have hrestored : ∀ addr, (restored addr).Unmarked g := by
    unfold bmInitPlanes at hrestore
    split at hrestore
    · simp only [restorePlaneInfo, Option.map_map, Option.map_eq_some_iff] at hrestore
      obtain ⟨maps, -, heq⟩ := hrestore
      cases heq
      apply unmarked_updatePlanes _ _ hinit'
      exact fun _ _ hplane => hplane
    · cases hrestore
      intro addr
      exact (hinit' addr).resetBlocks
  have hbad : ∀ (blocks : List ℕ) (plane : PlaneAllocator), plane.Unmarked g →
      (blocks.foldl dropBad plane).Unmarked g :=
    fun blocks plane => PlaneAllocator.Unmarked.foldl
      (fun _ block hplane => hplane.dropBad block) blocks
  have hscanned : ∀ addr, (scanned addr).Unmarked g := by
    rw [bmInitBad] at hscan
    split at hscan
    · simp only [restoreBadBlocks, Option.map_map, Option.map_eq_some_iff] at hscan
      obtain ⟨maps, -, heq⟩ := hscan
      cases heq
      apply unmarked_updatePlanes _ _ hrestored
      exact fun _ _ hplane => hbad _ _ hplane
    · cases hscan
      exact fun addr => hbad _ _ (hrestored addr)
  cases hinit
  apply PlaneAllocator.Unmarked.initWf
  rw [bmInitScan]
  split
  · exact hbad _ _ (hscanned addr)
  · exact hscanned addr

variable {planes : Planes}

theorem marksFit_of_unmarked (hplanes : ∀ addr, (planes addr).Unmarked g) : MarksFit g planes := by
  intro addr block
  rw [hplanes addr block]
  simp

theorem not_invalid_of_unmarked (hplanes : ∀ addr, (planes addr).Unmarked g)
    (addr : FlashAddress) : ¬Invalid planes addr := by
  rw [Invalid, hplanes addr.planeAddr addr.block]
  simp

end Start

/-! ### Consistent states -/

def Backend.lookup (back : Backend D) (nsid lpa : ℕ) : XlateEntry :=
  (back.domains nsid).lookup back.flash lpa

structure Settled (g : Geometry) (back : Backend D) (used : Set FlashAddress)
    (pages : ℕ → Finset ℕ) : Prop where
  idle : back.outstanding = []
  bm : BmInv g back.planes used
  marks : MarksFit g back.planes
  domain : ∀ nsid, (back.domains nsid).attached → (back.domains nsid).Inv back.flash unheld
  cached : ∀ nsid, (back.domains nsid).attached → ∀ wanted,
    ((back.domains nsid).pcache.find wanted).isSome → wanted ∈ pages nsid
  fits : ∀ nsid, (back.domains nsid).attached →
    (pages nsid).card ≤ (back.domains nsid).pcache.capacity

namespace AmDomain.Next

variable {domain domain' domain'' : AmDomain} {flash : ℕ → PageData D}
  {holder : ℕ → Option Tid} {mvpn : ℕ} {mapping mapping' : ℕ → XlateEntry}

theorem trans (hfirst : domain.Next domain' flash holder mvpn mapping)
    (hsecond : domain'.Next domain'' flash holder mvpn mapping') :
    domain.Next domain'' flash holder mvpn mapping' where
  inv := hsecond.inv
  lookup_eq := hsecond.lookup_eq
  rest_eq := by
    rw [hsecond.rest_eq, hfirst.rest_eq]
  capacity_eq := hsecond.capacity_eq.trans hfirst.capacity_eq
  find_isSome := by
    intro wanted
    rw [hsecond.find_isSome, hfirst.find_isSome, or_assoc, or_self]

variable (hnext : domain.Next domain' flash holder mvpn mapping)
include hnext

theorem attached_eq : domain'.attached = domain.attached := by
  rw [hnext.rest_eq]

theorem gtd_eq : domain'.gtd = domain.gtd := by
  rw [hnext.rest_eq]

end AmDomain.Next

namespace Settled

variable {g : Geometry} {s : Sys D (Backend D)} {used used' : Set FlashAddress}
  {pages : ℕ → Finset ℕ} {nsid mvpn : ℕ} {domain' : AmDomain}
  {planes' : Planes} {mapping : ℕ → XlateEntry}

theorem room (hset : Settled g s.back used pages)
    (hattached : (s.back.domains nsid).attached) (hmvpn : mvpn ∈ pages nsid) :
    ((s.back.domains nsid).pcache.find mvpn).isSome ∨ (s.back.domains nsid).pcache.size <
        (s.back.domains nsid).pcache.capacity :=
  (hset.domain nsid hattached).room (hset.cached nsid hattached) hmvpn (hset.fits nsid hattached)

theorem domains_amu_of_ne {other tick : ℕ} {flash : ℕ → PageData D} (hother : other ≠ nsid) :
    (s.amu nsid domain' planes' flash tick).back.domains other = s.back.domains other :=
  update_of_ne hother _ _

/-- The state after an operation on one translation page. -/
theorem next {back : Backend D} (hset : Settled g back used pages)
    (hattached : (back.domains nsid).attached) (hmvpn : mvpn ∈ pages nsid)
    (hnext : (back.domains nsid).Next domain' back.flash unheld mvpn mapping)
    (hbm : BmInv g planes' used') (hmarks : MarksFit g planes') :
    Settled g { back with
      domains := update back.domains nsid domain', planes := planes' }
      used' pages := by
  refine ⟨hset.idle, hbm, hmarks, ?_, ?_, ?_⟩
  · intro other hother
    by_cases hsame : other = nsid
    · rw [hsame]
      dsimp only
      rw [update_self]
      exact hnext.inv
    · dsimp only at hother ⊢
      rw [update_of_ne hsame] at hother ⊢
      exact hset.domain other hother
  · intro other hother wanted hwanted
    by_cases hsame : other = nsid
    · rw [hsame] at hwanted ⊢
      dsimp only at hwanted
      rw [update_self, hnext.find_isSome] at hwanted
      rcases hwanted with hwanted | rfl
      · exact hset.cached nsid hattached wanted hwanted
      · exact hmvpn
    · dsimp only at hother hwanted
      rw [update_of_ne hsame] at hother hwanted
      exact hset.cached other hother wanted hwanted
  · intro other hother
    by_cases hsame : other = nsid
    · rw [hsame]
      dsimp only
      rw [update_self, hnext.capacity_eq]
      exact hset.fits nsid hattached
    · dsimp only at hother ⊢
      rw [update_of_ne hsame] at hother ⊢
      exact hset.fits other hother

end Settled

section Amu

variable {s : Sys D (Backend D)} {nsid mvpn tick : ℕ} {domain' : AmDomain}
  {planes' : Planes} {mapping : ℕ → XlateEntry}

theorem lookup_amu_next
    (hnext : (s.back.domains nsid).Next domain' s.back.flash unheld mvpn mapping) (other lpa : ℕ) :
    (s.amu nsid domain' planes' s.back.flash tick).back.lookup other lpa =
      if other = nsid then mapping lpa else s.back.lookup other lpa := by
  rw [Backend.lookup]
  split
  · rename_i hother
    rw [hother, domains_amu, flash_amu, hnext.lookup_eq]
  · rename_i hother
    rw [Settled.domains_amu_of_ne hother]
    rfl

theorem attached_amu_next
    (hnext : (s.back.domains nsid).Next domain' s.back.flash unheld mvpn mapping) (other : ℕ) :
    ((s.amu nsid domain' planes' s.back.flash tick).back.domains
      other).attached = (s.back.domains other).attached := by
  by_cases hother : other = nsid
  · rw [hother, domains_amu, hnext.attached_eq]
  · rw [Settled.domains_amu_of_ne hother]

end Amu

theorem benchPlanes_unmarked (addr : PlaneAddr) : (benchPlanes addr).Unmarked benchGeometry := by
  have hinit : bmInit benchGeometry benchEnv ⟨none, none⟩ false false = some (benchPlanes, _) := rfl
  exact bmInit_unmarked hinit addr

theorem benchSys_settled :
    Settled benchGeometry (benchSys (fresh 2 1 .cwdp)).back ∅ fun _ => {0} where
  idle := rfl
  bm := by
    have hinit : bmInit benchGeometry benchEnv ⟨none, none⟩ false false =
      some (benchPlanes, _) := rfl
    exact bmInit_inv (planeFileSound_empty _ _)
      (fun _ haddr => absurd haddr (Set.notMem_empty _)) hinit
  marks := marksFit_of_unmarked benchPlanes_unmarked
  domain := fun _ _ => fresh_inv 2 1 .cwdp _
  cached := by
    intro nsid _ wanted hwanted
    simp [benchSys, fresh, XlatePcache.init, XlatePcache.find] at hwanted
  fits := fun _ _ => le_refl _

end Soda
