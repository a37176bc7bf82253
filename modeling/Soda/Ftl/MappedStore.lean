import Soda.Ftl.CacheRefinement
import Soda.Ftl.Dispatch

/-!
# Flash and mapping as a sector store

A logical page is looked up in the domain of an attached namespace and in the
directory file of any other.  Every physical page that is found in this way
has been handed out once, so a page that is programmed for the first time
holds nothing that anybody can look up.
-/

namespace Soda

variable {D : Type}

open Function Prog Sys Backend

/-- What a directory and flash say about a logical page. -/
def gtdLookup (gtd : List ℕ) (flash : ℕ → PageData D) (lpa : ℕ) : XlateEntry :=
  match gtd[getMvpn lpa]? with
  | some mppn =>
    if mppn = noPpa then ⟨noPpa, 0⟩
    else ⟨(flash mppn).ppa (getMvpnSlot lpa), fullBitmap⟩
  | none => ⟨noPpa, 0⟩

namespace Backend

/-- The directory of a namespace: in memory while it is attached, else in its
file. -/
def directory (back : Backend D) (nsid : ℕ) : List ℕ :=
  if (back.domains nsid).attached then (back.domains nsid).gtd
  else (back.files.gtd nsid).getD []

def mapping (back : Backend D) (nsid lpa : ℕ) : XlateEntry :=
  if (back.domains nsid).attached then back.lookup nsid lpa
  else gtdLookup (back.directory nsid) back.flash lpa

structure Has [Zero D] (back : Backend D) (nsid lpa sector : ℕ) (value : D) : Prop where
  mapped : (back.mapping nsid lpa).ppa ≠ noPpa
  valid : (back.mapping nsid lpa).bitmap.getLsbD sector
  data_eq : (back.flash (back.mapping nsid lpa).ppa).sector sector = value

theorem directory_of_attached {back : Backend D} {nsid : ℕ}
    (hattached : (back.domains nsid).attached) :
    back.directory nsid = (back.domains nsid).gtd := if_pos hattached

theorem mapping_of_attached {back : Backend D} {nsid : ℕ}
    (hattached : (back.domains nsid).attached) (lpa : ℕ) :
    back.mapping nsid lpa = back.lookup nsid lpa := if_pos hattached

end Backend

def Placed (g : Geometry) (used : Set FlashAddress) (ppa : ℕ) : Prop :=
  ppa = noPpa ∨ ∃ addr ∈ used, ppa = addressToPpa g addr

theorem Placed.mono {g : Geometry} {used used' : Set FlashAddress} {ppa : ℕ}
    (hplaced : Placed g used ppa) (hsubset : used ⊆ used') : Placed g used' ppa := by
  rcases hplaced with hnone | ⟨addr, haddr, hppa⟩
  · exact .inl hnone
  · exact .inr ⟨addr, hsubset haddr, hppa⟩

/-- Every sector of the store is where the mapping points to.  A page of which
nothing was written reads as `virgin` data, as does a page of flash that was
never handed out. -/
structure Mapped [Zero D] (g : Geometry) (virgin : D → Prop)
    (pages : ℕ → Finset ℕ) (back : Backend D) (used : Set FlashAddress)
    (store : Store D) : Prop where
  settled : Settled g back used pages
  directory : ∀ nsid, ∀ mppn ∈ back.directory nsid, Placed g used mppn
  placed : ∀ nsid lpa, Placed g used (back.mapping nsid lpa).ppa
  holds : ∀ nsid lpa sector value, store nsid lpa sector = some value →
    back.Has nsid lpa sector value
  blank : ∀ nsid lpa, (∀ sector, store nsid lpa sector = none) →
    (back.mapping nsid lpa).ppa = noPpa ∨
      ∀ sector, virgin ((back.flash (back.mapping nsid lpa).ppa).sector sector)
  fresh : ∀ addr, addr.InRange g → addr ∉ used →
    ∀ sector, virgin ((back.flash (addressToPpa g addr)).sector sector)

/-! ### Changes of flash that nobody sees -/

section Congr

variable {domain domain' : AmDomain} {flash flash' : ℕ → PageData D} {holder : ℕ → Option Tid}

theorem gtdLookup_congr {gtd : List ℕ}
    (hsame : ∀ mppn ∈ gtd, mppn ≠ noPpa → flash' mppn = flash mppn) (lpa : ℕ) :
    gtdLookup gtd flash' lpa = gtdLookup gtd flash lpa := by
  rw [gtdLookup, gtdLookup]
  cases hmppn : gtd[getMvpn lpa]? with
  | none => rfl
  | some mppn =>
    dsimp only
    split
    · rfl
    · rename_i hne
      rw [hsame mppn (List.mem_of_getElem? hmppn) hne]

namespace AmDomain

variable (hsame : ∀ mppn ∈ domain.gtd, mppn ≠ noPpa → flash' mppn = flash mppn)
include hsame

theorem lookup_congr : domain.lookup flash' = domain.lookup flash := by
  funext lpa
  rw [lookup, lookup]
  cases domain.pcache.find (getMvpn lpa) with
  | some page => rfl
  | none => exact gtdLookup_congr hsame lpa

theorem Saved.congr {xpg : XlatePage}
    (hsaved : domain.Saved flash xpg) : domain.Saved flash' xpg := by
  obtain ⟨mppn, hmppn, hne, hcopy⟩ := hsaved
  refine ⟨mppn, hmppn, hne, ?_⟩
  rw [hsame mppn (List.mem_of_getElem? hmppn) hne]
  exact hcopy

theorem Inv.congr (hinv : domain.Inv flash holder) : domain.Inv flash' holder :=
  { hinv with
    saved := fun page hpage hclean => (hinv.saved page hpage hclean).congr hsame }

theorem Next.congr {mvpn : ℕ} {entries : ℕ → XlateEntry}
    (hnext : domain.Next domain' flash holder mvpn entries) :
    domain.Next domain' flash' holder mvpn entries := by
  rw [← hnext.gtd_eq] at hsame
  exact { hnext with
    inv := hnext.inv.congr hsame
    lookup_eq := by
      rw [lookup_congr hsame]
      exact hnext.lookup_eq }

end AmDomain

end Congr

namespace Mapped

variable [Zero D] {g : Geometry} {virgin : D → Prop} {pages : ℕ → Finset ℕ}
  {back : Backend D} {used : Set FlashAddress} {store : Store D}

variable (hmapped : Mapped g virgin pages back used store)
include hmapped

variable {addr : FlashAddress} {store' : Store D} {mvpn : ℕ}

/-- A page that was never handed out is not mapped. -/
theorem ppa_ne {ppa : ℕ} (hplaced : Placed g used ppa)
    (hrange : addr.InRange g) (hunused : addr ∉ used) : ppa ≠ addressToPpa g addr := by
  rintro rfl
  rcases hplaced with hnone | ⟨other, hother, hsame⟩
  · exact (addressToPpa_lt_noPpa g hrange).ne hnone
  · have haddr : addr = other := by
      rw [← ppaToAddress_addressToPpa g hrange, hsame,
        ppaToAddress_addressToPpa g (hmapped.settled.bm.used_inRange other hother)]
    rw [haddr] at hunused
    exact hunused hother

/-- One more page is handed out and perhaps programmed. -/
theorem extend {planes' : Planes} {flash' : ℕ → PageData D}
    (hrange : addr.InRange g) (hunused : addr ∉ used)
    (hbm : BmInv g planes' (insert addr used)) (hmarks : MarksFit g planes')
    (hflash : ∀ ppa, ppa ≠ addressToPpa g addr → flash' ppa = back.flash ppa) :
    Mapped g virgin pages { back with planes := planes', flash := flash' }
      (insert addr used) store := by
  have hdirectory : ∀ nsid, ∀ mppn ∈ back.directory nsid, mppn ≠ noPpa →
      flash' mppn = back.flash mppn := fun nsid mppn hmppn _ =>
    hflash mppn (hmapped.ppa_ne (hmapped.directory nsid mppn hmppn) hrange hunused)
  have hgtd : ∀ nsid, (back.domains nsid).attached →
      ∀ mppn ∈ (back.domains nsid).gtd, mppn ≠ noPpa → flash' mppn = back.flash mppn := by
    intro nsid hattached
    rw [← directory_of_attached hattached]
    exact hdirectory nsid
  have hmapping : ∀ nsid lpa, mapping { back with planes := planes', flash := flash' } nsid
        lpa = back.mapping nsid lpa := by
    intro nsid lpa
    rw [mapping, mapping]
    split
    · rename_i hattached
      exact congrFun (AmDomain.lookup_congr (hgtd nsid hattached)) lpa
    · exact gtdLookup_congr (hdirectory nsid) lpa
  have hpage : ∀ nsid lpa, flash' (back.mapping nsid lpa).ppa =
      back.flash (back.mapping nsid lpa).ppa := fun nsid lpa =>
    hflash _ (hmapped.ppa_ne (hmapped.placed nsid lpa) hrange hunused)
  refine ⟨⟨hmapped.settled.idle, hbm, hmarks, ?_, hmapped.settled.cached,
    hmapped.settled.fits⟩, ?_, ?_, ?_, ?_, ?_⟩
  · intro nsid hattached
    exact (hmapped.settled.domain nsid hattached).congr (hgtd nsid hattached)
  · intro nsid mppn hmppn
    exact (hmapped.directory nsid mppn hmppn).mono (Set.subset_insert _ _)
  · intro nsid lpa
    rw [hmapping]
    exact (hmapped.placed nsid lpa).mono (Set.subset_insert _ _)
  · intro nsid lpa sector value hvalue
    have hhas := hmapped.holds nsid lpa sector value hvalue
    constructor
    · rw [hmapping]
      exact hhas.mapped
    · rw [hmapping]
      exact hhas.valid
    · rw [hmapping]
      dsimp only
      rw [hpage]
      exact hhas.data_eq
  · intro nsid lpa hblank
    rw [hmapping]
    dsimp only
    rw [hpage]
    exact hmapped.blank nsid lpa hblank
  · intro other hother hnot
    have hne : other ≠ addr := by
      rintro rfl
      exact hnot (Set.mem_insert _ _)
    have hppa : addressToPpa g other ≠ addressToPpa g addr := by
      intro hsame
      apply hne
      rw [← ppaToAddress_addressToPpa g hother, hsame, ppaToAddress_addressToPpa g hrange]
    dsimp only
    rw [hflash _ hppa]
    exact hmapped.fresh other hother fun hmem => hnot (Set.mem_insert_of_mem _ hmem)

variable {nsid : ℕ} {domain' : AmDomain}

variable (hattached : (back.domains nsid).attached)
include hattached

/-- The entries of an attached namespace change. -/
theorem remap {entries : ℕ → XlateEntry} (hmvpn : mvpn ∈ pages nsid)
    (hnext : (back.domains nsid).Next domain' back.flash unheld mvpn entries)
    (hother : ∀ other, other ≠ nsid → store' other = store other)
    (hplaced : ∀ lpa, Placed g used (entries lpa).ppa)
    (hholds : ∀ lpa sector value, store' nsid lpa sector = some value →
      (entries lpa).ppa ≠ noPpa ∧ (entries lpa).bitmap.getLsbD sector ∧
        (back.flash (entries lpa).ppa).sector sector = value)
    (hblank : ∀ lpa, (∀ sector, store' nsid lpa sector = none) → (entries lpa).ppa = noPpa ∨
        ∀ sector, virgin ((back.flash (entries lpa).ppa).sector sector)) :
    Mapped g virgin pages { back with domains := update back.domains nsid domain' } used
      store' := by
  have hself : ∀ lpa, Backend.mapping { back with domains := update back.domains nsid domain' } nsid
        lpa = entries lpa := by
    intro lpa
    rw [mapping_of_attached]
    · rw [lookup]
      dsimp only
      rw [update_self, hnext.lookup_eq]
    · dsimp only
      rw [update_self, hnext.attached_eq]
      exact hattached
  have hrest : ∀ other lpa, other ≠ nsid → Backend.mapping
      { back with domains := update back.domains nsid domain' } other
        lpa = back.mapping other lpa := by
    intro other lpa hne
    simp only [Backend.mapping, lookup, Backend.directory, update_of_ne hne]
  have hdirectory : ∀ other, Backend.directory
      { back with domains := update back.domains nsid domain' } other = back.directory other := by
    intro other
    by_cases hsame : other = nsid
    · simp only [Backend.directory, hsame, update_self, hnext.attached_eq, hnext.gtd_eq]
    · simp only [Backend.directory, update_of_ne hsame]
  refine ⟨hmapped.settled.next hattached hmvpn hnext hmapped.settled.bm
    hmapped.settled.marks, ?_, ?_, ?_, ?_, hmapped.fresh⟩
  · intro other
    rw [hdirectory]
    exact hmapped.directory other
  · intro other lpa
    by_cases hsame : other = nsid
    · rw [hsame, hself]
      exact hplaced lpa
    · rw [hrest other lpa hsame]
      exact hmapped.placed other lpa
  · intro other lpa sector value hvalue
    by_cases hsame : other = nsid
    · rw [hsame] at hvalue ⊢
      obtain ⟨hppa, hbit, hdata⟩ := hholds lpa sector value hvalue
      rw [← hself] at hppa hbit hdata
      exact ⟨hppa, hbit, hdata⟩
    · rw [hother other hsame] at hvalue
      obtain ⟨hppa, hbit, hdata⟩ := hmapped.holds other lpa sector value hvalue
      rw [← hrest other lpa hsame] at hppa hbit hdata
      exact ⟨hppa, hbit, hdata⟩
  · intro other lpa hnone
    by_cases hsame : other = nsid
    · rw [hsame] at hnone ⊢
      rw [hself]
      exact hblank lpa hnone
    · rw [hother other hsame] at hnone
      rw [hrest other lpa hsame]
      exact hmapped.blank other lpa hnone

/-- A lookup. -/
theorem located (hmvpn : mvpn ∈ pages nsid)
    (hnext : (back.domains nsid).Next domain' back.flash unheld mvpn (back.lookup nsid)) :
    Mapped g virgin pages { back with domains := update back.domains nsid domain' } used store := by
  have hmapping := mapping_of_attached hattached
  refine hmapped.remap hattached hmvpn hnext (fun _ _ => rfl) ?_ ?_ ?_
  · intro lpa
    rw [← hmapping]
    exact hmapped.placed nsid lpa
  · intro lpa sector value hvalue
    rw [← hmapping]
    obtain ⟨hppa, hbit, hdata⟩ := hmapped.holds nsid lpa sector value hvalue
    exact ⟨hppa, hbit, hdata⟩
  · intro lpa hnone
    rw [← hmapping]
    exact hmapped.blank nsid lpa hnone

/-- A logical page gets a physical page that has its content already. -/
theorem place {lpa : ℕ} {entry : XlateEntry} (hmvpn : getMvpn lpa ∈ pages nsid)
    (hnext : (back.domains nsid).Next domain' back.flash unheld (getMvpn lpa)
      (update (back.lookup nsid) lpa entry)) (hother : ∀ other lpa', ¬(other = nsid ∧ lpa' = lpa) →
      store' other lpa' = store other lpa') (haddr : addr ∈ used)
    (hppa : entry.ppa = addressToPpa g addr)
    (hholds : ∀ sector value, store' nsid lpa sector = some value → entry.bitmap.getLsbD sector ∧
        (back.flash entry.ppa).sector sector = value)
    (hblank : (∀ sector, store' nsid lpa sector = none) →
      ∀ sector, virgin ((back.flash entry.ppa).sector sector)) :
    Mapped g virgin pages { back with domains := update back.domains nsid domain' } used
      store' := by
  have hmapping := mapping_of_attached hattached
  have hrange := hmapped.settled.bm.used_inRange addr haddr
  refine hmapped.remap hattached hmvpn hnext ?_ ?_ ?_ ?_
  · intro other hne
    funext lpa'
    exact hother other lpa' fun hsame => hne hsame.1
  · intro lpa'
    by_cases hsame : lpa' = lpa
    · rw [hsame, update_self]
      exact .inr ⟨addr, haddr, hppa⟩
    · rw [update_of_ne hsame, ← hmapping]
      exact hmapped.placed nsid lpa'
  · intro lpa' sector value hvalue
    by_cases hsame : lpa' = lpa
    · rw [hsame] at hvalue ⊢
      rw [update_self]
      refine ⟨?_, hholds sector value hvalue⟩
      rw [hppa]
      exact (addressToPpa_lt_noPpa g hrange).ne
    · rw [hother nsid lpa' fun hboth => hsame hboth.2] at hvalue
      rw [update_of_ne hsame, ← hmapping]
      obtain ⟨hppa', hbit, hdata⟩ := hmapped.holds nsid lpa' sector value hvalue
      exact ⟨hppa', hbit, hdata⟩
  · intro lpa' hnone
    by_cases hsame : lpa' = lpa
    · rw [hsame] at hnone ⊢
      rw [update_self]
      exact .inr (hblank hnone)
    · rw [hother nsid lpa' fun hboth => hsame hboth.2] at hnone
      rw [update_of_ne hsame, ← hmapping]
      exact hmapped.blank nsid lpa' hnone

end Mapped

end Soda
