import Soda.Ftl.Sequential
import Soda.Ftl.PageUniqueness

/-!
# The translation page cache, one operation after another

`AmDomain.lookup` reads the mapping of a domain as a plain function: from the
cached translation page if there is one, else from flash through the
directory.  As long as a missing page finds room in the cache, fetching a page
does not change that function and a write allocation changes it at one point.
-/

namespace Soda

variable {D : Type}

open Prog Sys Function XlatePcache AmDomain List

/-! ### The mapping of a domain -/

namespace AmDomain

def onFlash (domain : AmDomain) (flash : ℕ → PageData D) (lpa : ℕ) : XlateEntry :=
  match domain.gtd[getMvpn lpa]? with
  | some mppn =>
    if mppn = noPpa then ⟨noPpa, 0⟩
    else ⟨(flash mppn).ppa (getMvpnSlot lpa), fullBitmap⟩
  | none => ⟨noPpa, 0⟩

def lookup (domain : AmDomain) (flash : ℕ → PageData D) (lpa : ℕ) : XlateEntry :=
  match domain.pcache.find (getMvpn lpa) with
  | some page => (domain.pcache.pages page).entries (getMvpnSlot lpa)
  | none => domain.onFlash flash lpa

/-- The directory points to a copy of the translation page on flash. -/
def Saved (domain : AmDomain) (flash : ℕ → PageData D) (xpg : XlatePage) : Prop :=
  ∃ mppn, domain.gtd[xpg.mvpn]? = some mppn ∧ mppn ≠ noPpa ∧
    ∀ slot, (flash mppn).ppa slot = (xpg.entries slot).ppa

/-- Between operations nobody holds a page; inside one, `holder` says who
holds which. -/
structure Inv (domain : AmDomain) (flash : ℕ → PageData D)
    (holder : ℕ → Option Tid) : Prop where
  sorted : domain.pcache.tree.Pairwise fun left right =>
    (domain.pcache.pages left).mvpn < (domain.pcache.pages right).mvpn
  below : ∀ page ∈ domain.pcache.tree, page < domain.pcache.nextPage
  size_eq : domain.pcache.size = domain.pcache.tree.length
  mutex_eq : ∀ page ∈ domain.pcache.tree, (domain.pcache.pages page).mutex = ⟨holder page, []⟩
  pin_eq : ∀ page ∈ domain.pcache.tree,
    (domain.pcache.pages page).pinCount = if (holder page).isSome then 1 else 0
  loaded : ∀ page ∈ domain.pcache.tree, (domain.pcache.pages page).loaded
  bound : ∀ page ∈ domain.pcache.tree, (domain.pcache.pages page).mvpn < domain.gtd.length
  saved : ∀ page ∈ domain.pcache.tree, (domain.pcache.pages page).dirty = false →
      domain.Saved flash (domain.pcache.pages page)

end AmDomain

namespace XlatePcache

variable {xpc : XlatePcache} {mvpn page : ℕ}

theorem mem_of_find (hfind : xpc.find mvpn = some page) :
    page ∈ xpc.tree ∧ (xpc.pages page).mvpn = mvpn := by
  refine ⟨mem_of_find?_eq_some hfind, ?_⟩
  simpa using find?_some hfind

theorem find_eq_none : xpc.find mvpn = none ↔ ∀ page ∈ xpc.tree, (xpc.pages page).mvpn ≠ mvpn := by
  simp [find]

variable (hsorted : xpc.tree.Pairwise fun left right => (xpc.pages left).mvpn < (xpc.pages right).mvpn)
include hsorted

/-- Two cached pages with one number are the same page. -/
theorem eq_of_mvpn_eq {left right : ℕ} (hleft : left ∈ xpc.tree) (hright : right ∈ xpc.tree)
    (hmvpn : (xpc.pages left).mvpn = (xpc.pages right).mvpn) : left = right := by
  by_contra hne
  rcases pairwise_iff_getElem.mp hsorted with hlt
  obtain ⟨i, hi, rfl⟩ := getElem_of_mem hleft
  obtain ⟨j, hj, rfl⟩ := getElem_of_mem hright
  rcases lt_trichotomy i j with hij | hij | hij
  · exact absurd hmvpn (hlt i j hi hj hij).ne
  · exact hne (by simp only [hij])
  · exact absurd hmvpn (hlt j i hj hi hij).ne'

theorem find_of_mem (hmem : page ∈ xpc.tree) : xpc.find (xpc.pages page).mvpn = some page := by
  cases hfind : xpc.find (xpc.pages page).mvpn with
  | none => exact absurd rfl (find_eq_none.mp hfind page hmem)
  | some other =>
    obtain ⟨hother, hmvpn⟩ := mem_of_find hfind
    rw [eq_of_mvpn_eq hsorted hother hmem hmvpn]

end XlatePcache

theorem XlatePcache.find_eq_some {xpc : XlatePcache} {mvpn page : ℕ}
    (hsorted : xpc.tree.Pairwise fun left right => (xpc.pages left).mvpn < (xpc.pages right).mvpn) :
    xpc.find mvpn = some page ↔ page ∈ xpc.tree ∧ (xpc.pages page).mvpn = mvpn := by
  refine ⟨mem_of_find, ?_⟩
  rintro ⟨hmem, rfl⟩
  exact find_of_mem hsorted hmem

namespace AmDomain

variable {domain : AmDomain} {flash : ℕ → PageData D}
  {holder : ℕ → Option Tid} {page : ℕ} {xpg : XlatePage}

/-- One cached page is replaced by another version of itself. -/
def setPage (domain : AmDomain) (page : ℕ) (xpg : XlatePage) (lru : List ℕ) : AmDomain :=
  { domain with
    pcache := { domain.pcache with
      pages := update domain.pcache.pages page xpg
      lru := lru } }

theorem setPage_setPage (domain : AmDomain) (page : ℕ) (xpg xpg' : XlatePage) (lru lru' : List ℕ) :
    (domain.setPage page xpg lru).setPage page xpg' lru' = domain.setPage page xpg' lru' := by
  simp [setPage]

@[simp]
theorem pages_setPage_self (domain : AmDomain) (page : ℕ) (xpg : XlatePage)
    (lru : List ℕ) : (domain.setPage page xpg lru).pcache.pages page = xpg := by
  simp [setPage]

@[simp]
theorem gtd_setPage (domain : AmDomain) (page : ℕ) (xpg : XlatePage)
    (lru : List ℕ) : (domain.setPage page xpg lru).gtd = domain.gtd := rfl

variable (hmvpn : xpg.mvpn = (domain.pcache.pages page).mvpn)
include hmvpn

theorem mvpn_setPage (lru : List ℕ) (other : ℕ) :
    ((domain.setPage page xpg lru).pcache.pages other).mvpn = (domain.pcache.pages other).mvpn := by
  by_cases hsame : other = page
  · rw [hsame, pages_setPage_self, hmvpn]
  · simp [setPage, hsame]

theorem find_setPage (lru : List ℕ) (mvpn : ℕ) :
    (domain.setPage page xpg lru).pcache.find mvpn = domain.pcache.find mvpn := by
  simp only [find, mvpn_setPage hmvpn]
  rfl

theorem lookup_setPage (lru : List ℕ) (lpa : ℕ) :
    (domain.setPage page xpg lru).lookup flash lpa =
      if domain.pcache.find (getMvpn lpa) = some page then
        xpg.entries (getMvpnSlot lpa)
      else domain.lookup flash lpa := by
  rw [lookup, lookup, find_setPage hmvpn]
  cases hfind : domain.pcache.find (getMvpn lpa) with
  | none => simp [onFlash, setPage]
  | some other =>
    by_cases hsame : other = page
    · simp [hsame]
    · simp [hsame, setPage]

omit hmvpn

variable {owner : Option Tid} {mvpn other : ℕ}

theorem Inv.setPage (hinv : domain.Inv flash holder) (lru : List ℕ)
    (hmvpn : xpg.mvpn = (domain.pcache.pages page).mvpn) (hmutex : xpg.mutex = ⟨owner, []⟩)
    (hpin : xpg.pinCount = if owner.isSome then 1 else 0) (hloaded : xpg.loaded)
    (hsaved : xpg.dirty = false → domain.Saved flash xpg) :
    (domain.setPage page xpg lru).Inv flash (update holder page owner) := by
  refine ⟨?_, hinv.below, hinv.size_eq, ?_, ?_, ?_, ?_, ?_⟩
  · simp only [mvpn_setPage hmvpn]
    exact hinv.sorted
  · intro other hother
    by_cases hsame : other = page
    · simp [hsame, hmutex]
    · simpa [AmDomain.setPage, hsame] using hinv.mutex_eq other hother
  · intro other hother
    by_cases hsame : other = page
    · simp [hsame, hpin]
    · simpa [AmDomain.setPage, hsame] using hinv.pin_eq other hother
  · intro other hother
    by_cases hsame : other = page
    · simp [hsame, hloaded]
    · simpa [AmDomain.setPage, hsame] using hinv.loaded other hother
  · intro other hother
    rw [mvpn_setPage hmvpn]
    exact hinv.bound other hother
  · intro other hother hclean
    by_cases hsame : other = page
    · rw [hsame, pages_setPage_self] at hclean ⊢
      exact hsaved hclean
    · simp only [AmDomain.setPage, update_of_ne hsame] at hclean ⊢
      exact hinv.saved other hother hclean

/-! ### A new page -/

def addPage (domain : AmDomain) (mvpn : ℕ) : AmDomain :=
  { domain with pcache := domain.pcache.addPage mvpn }

theorem mem_tree_addPage :
    other ∈ (domain.addPage mvpn).pcache.tree ↔
      other = domain.pcache.nextPage ∨ other ∈ domain.pcache.tree := by
  simp [addPage, XlatePcache.addPage, XlatePcache.insert, XlatePcache.modifyPage]

@[simp]
theorem gtd_addPage (domain : AmDomain) (mvpn : ℕ) :
    (domain.addPage mvpn).gtd = domain.gtd := rfl

@[simp]
theorem pages_addPage_self (domain : AmDomain) (mvpn : ℕ) :
    (domain.addPage mvpn).pcache.pages domain.pcache.nextPage =
      ⟨mvpn, (domain.pcache.pages domain.pcache.nextPage).entries, false, false, {}, 1⟩ := by
  simp [addPage, XlatePcache.addPage, XlatePcache.insert, XlatePcache.modifyPage]

theorem mvpn_addPage_self (domain : AmDomain) (mvpn : ℕ) :
    ((domain.addPage mvpn).pcache.pages domain.pcache.nextPage).mvpn = mvpn := by
  rw [pages_addPage_self]

variable (hinv : domain.Inv flash holder)
include hinv

theorem pages_addPage_of_mem (mvpn : ℕ) (hother : other ∈ domain.pcache.tree) :
    (domain.addPage mvpn).pcache.pages other = domain.pcache.pages other := by
  have hne : other ≠ domain.pcache.nextPage := (hinv.below other hother).ne
  simp [addPage, XlatePcache.addPage, XlatePcache.insert, XlatePcache.modifyPage, hne]

theorem sorted_addPage (hmiss : domain.pcache.find mvpn = none) :
    (domain.addPage mvpn).pcache.tree.Pairwise fun left right =>
      ((domain.addPage mvpn).pcache.pages left).mvpn <
        ((domain.addPage mvpn).pcache.pages right).mvpn := by
  have hold : domain.pcache.tree.Pairwise fun left right =>
      ((domain.addPage mvpn).pcache.pages left).mvpn <
        ((domain.addPage mvpn).pcache.pages right).mvpn := by
    refine hinv.sorted.imp_of_mem ?_
    intro left right hleft hright hlt
    rw [pages_addPage_of_mem hinv mvpn hleft, pages_addPage_of_mem hinv mvpn hright]
    exact hlt
  refine treeInsert_sorted hold ?_
  intro other hother
  rw [mvpn_addPage_self, pages_addPage_of_mem hinv mvpn hother]
  exact find_eq_none.mp hmiss other hother

theorem find_addPage (hmiss : domain.pcache.find mvpn = none) (wanted : ℕ) :
    (domain.addPage mvpn).pcache.find wanted = if wanted = mvpn then some domain.pcache.nextPage
      else domain.pcache.find wanted := by
  apply Option.ext
  intro page
  rw [find_eq_some (sorted_addPage hinv hmiss), mem_tree_addPage]
  constructor
  · rintro ⟨rfl | hmem, hwanted⟩
    · rw [mvpn_addPage_self] at hwanted
      rw [if_pos hwanted.symm]
    · rw [pages_addPage_of_mem hinv mvpn hmem] at hwanted
      have hne : wanted ≠ mvpn := by
        rw [← hwanted]
        exact find_eq_none.mp hmiss page hmem
      rw [if_neg hne, ← hwanted]
      exact find_of_mem hinv.sorted hmem
  · intro hfind
    split at hfind
    · rename_i hwanted
      cases hfind
      exact ⟨.inl rfl, by rw [mvpn_addPage_self, hwanted]⟩
    · obtain ⟨hmem, hmvpn⟩ := mem_of_find hfind
      exact ⟨.inr hmem, by rw [pages_addPage_of_mem hinv mvpn hmem, hmvpn]⟩

theorem lookup_addPage (hmiss : domain.pcache.find xpg.mvpn = none) (lru : List ℕ) (lpa : ℕ) :
    ((domain.addPage xpg.mvpn).setPage domain.pcache.nextPage xpg lru).lookup flash lpa =
      if getMvpn lpa = xpg.mvpn then xpg.entries (getMvpnSlot lpa)
      else domain.lookup flash lpa := by
  rw [lookup_setPage (by rw [mvpn_addPage_self]), find_addPage hinv hmiss]
  by_cases hwanted : getMvpn lpa = xpg.mvpn
  · simp [hwanted]
  · rw [if_neg hwanted, if_neg hwanted, lookup, lookup, find_addPage hinv hmiss, if_neg hwanted]
    cases hfind : domain.pcache.find (getMvpn lpa) with
    | none => simp [onFlash, addPage]
    | some page =>
      obtain ⟨hmem, hmvpn⟩ := mem_of_find hfind
      have hne : page ≠ domain.pcache.nextPage := (hinv.below page hmem).ne
      simp [hne, pages_addPage_of_mem hinv _ hmem]

theorem Inv.addPage (lru : List ℕ) (hmiss : domain.pcache.find xpg.mvpn = none)
    (hbound : xpg.mvpn < domain.gtd.length) (hmutex : xpg.mutex = ⟨owner, []⟩)
    (hpin : xpg.pinCount = if owner.isSome then 1 else 0) (hloaded : xpg.loaded)
    (hsaved : xpg.dirty = false → domain.Saved flash xpg) :
    ((domain.addPage xpg.mvpn).setPage domain.pcache.nextPage xpg lru).Inv flash
      (update holder domain.pcache.nextPage owner) := by
  have hmvpn := (mvpn_addPage_self domain xpg.mvpn).symm
  have hcases : ∀ {other}, other ∈ (domain.addPage xpg.mvpn).pcache.tree →
      other = domain.pcache.nextPage ∨ other ≠ domain.pcache.nextPage ∧ other ∈ domain.pcache.tree ∧
          ((domain.addPage xpg.mvpn).setPage domain.pcache.nextPage xpg
            lru).pcache.pages other = domain.pcache.pages other := by
    intro other hother
    rcases mem_tree_addPage.mp hother with rfl | hmem
    · exact .inl rfl
    · have hne : other ≠ domain.pcache.nextPage := (hinv.below other hmem).ne
      refine .inr ⟨hne, hmem, ?_⟩
      rw [← pages_addPage_of_mem hinv xpg.mvpn hmem]
      simp [AmDomain.setPage, hne]
  refine ⟨?_, ?_, ?_, ?_, ?_, ?_, ?_, ?_⟩
  · simp only [mvpn_setPage hmvpn]
    exact sorted_addPage hinv hmiss
  · intro other hother
    rcases hcases hother with rfl | ⟨_, hmem, _⟩
    · exact Nat.lt_succ_self _
    · exact Nat.lt_succ_of_lt (hinv.below other hmem)
  · have hlength := (treeInsert_perm (fun left right =>
      ((domain.addPage xpg.mvpn).pcache.pages left).mvpn <
        ((domain.addPage xpg.mvpn).pcache.pages right).mvpn)
      domain.pcache.nextPage domain.pcache.tree).length_eq
    rw [length_cons, ← hinv.size_eq] at hlength
    exact hlength.symm
  · intro other hother
    rcases hcases hother with rfl | ⟨hne, hmem, hpages⟩
    · simp [hmutex]
    · rw [hpages, update_of_ne hne]
      exact hinv.mutex_eq other hmem
  · intro other hother
    rcases hcases hother with rfl | ⟨hne, hmem, hpages⟩
    · simp [hpin]
    · rw [hpages, update_of_ne hne]
      exact hinv.pin_eq other hmem
  · intro other hother
    rcases hcases hother with rfl | ⟨hne, hmem, hpages⟩
    · simp [hloaded]
    · rw [hpages]
      exact hinv.loaded other hmem
  · intro other hother
    rcases hcases hother with rfl | ⟨hne, hmem, hpages⟩
    · rw [pages_setPage_self]
      exact hbound
    · rw [hpages]
      exact hinv.bound other hmem
  · intro other hother hclean
    rcases hcases hother with rfl | ⟨hne, hmem, hpages⟩
    · rw [pages_setPage_self] at hclean ⊢
      exact hsaved hclean
    · rw [hpages] at hclean ⊢
      exact hinv.saved other hmem hclean

end AmDomain

/-! ### Symbolic execution -/

/-- The parts of the state that operations on one domain change. -/
def Sys.amu (s : Sys D (Backend D)) (nsid : ℕ) (domain : AmDomain)
    (planes : Planes) (flash : ℕ → PageData D) (tick : ℕ) : Sys D (Backend D) :=
  { s with
    tick := tick
    back := { s.back with
      domains := update s.back.domains nsid domain
      planes := planes
      flash := flash } }

section Amu

variable {s : Sys D (Backend D)} {nsid page tick : ℕ} {domain : AmDomain}
  {planes : Planes} {flash : ℕ → PageData D}

theorem amu_self (s : Sys D (Backend D)) (nsid : ℕ) :
    s.amu nsid (s.back.domains nsid) s.back.planes s.back.flash s.tick = s := by
  simp [amu]

@[simp]
theorem pcache_amu : (s.amu nsid domain planes flash tick).pcache nsid = domain.pcache := by
  simp [amu, Sys.pcache]

@[simp]
theorem xpg_amu : (s.amu nsid domain planes flash tick).xpg nsid page =
    domain.pcache.pages page := by
  simp [xpg]

@[simp]
theorem domains_amu : (s.amu nsid domain planes flash tick).back.domains nsid = domain := by
  simp [amu]

@[simp]
theorem current_amu :
    (s.amu nsid domain planes flash tick).current = s.current := rfl

@[simp]
theorem planes_amu :
    (s.amu nsid domain planes flash tick).back.planes = planes := rfl

@[simp]
theorem flash_amu :
    (s.amu nsid domain planes flash tick).back.flash = flash := rfl

@[simp]
theorem tick_amu : (s.amu nsid domain planes flash tick).tick = tick := rfl

@[simp]
theorem outstanding_amu :
    (s.amu nsid domain planes flash tick).back.outstanding = s.back.outstanding := rfl

theorem modifyDomain_amu (update : AmDomain → AmDomain) :
    (s.amu nsid domain planes flash tick).modifyDomain nsid update =
      s.amu nsid (update domain) planes flash tick := by
  simp [amu, modifyDomain]

theorem setPlanes_amu (planes' : Planes) :
    (s.amu nsid domain planes flash tick).setPlanes planes' =
      s.amu nsid domain planes' flash tick := rfl

theorem advance_amu (tick' : ℕ) :
    { s.amu nsid domain planes flash tick with tick := tick' } =
      s.amu nsid domain planes flash tick' := rfl

theorem modifyXpg_amu (update : XlatePage → XlatePage) :
    (s.amu nsid domain planes flash tick).modifyXpg nsid page update =
      s.amu nsid (domain.setPage page (update (domain.pcache.pages page))
        domain.pcache.lru) planes flash tick := by
  rw [modifyXpg, modifyPcache, modifyDomain_amu]
  rfl

theorem addPage_amu (mvpn : ℕ) :
    (s.amu nsid domain planes flash tick).modifyPcache nsid (fun xpc => xpc.addPage mvpn) =
      s.amu nsid (domain.addPage mvpn) planes flash tick := by
  rw [modifyPcache, modifyDomain_amu]
  rfl

variable {rules : Rules (Sys D (Backend D)) Wait (Answer D) Fault}

theorem wp_allocMem_amu {env : Env D} {post : Bool → Sys D (Backend D) → Prop} :
    wp rules (allocMem env) post (s.amu nsid domain planes flash tick) ↔
      post (decide (env.faults tick = none)) (s.amu nsid domain planes flash (tick + 1)) := Iff.rfl

variable {post : Unit → Sys D (Backend D) → Prop}

theorem wp_xpcPin :
    wp rules (xpcPin nsid page) post (s.amu nsid domain planes flash tick) ↔
      post () (s.amu nsid (domain.setPage page
        { domain.pcache.pages page with
          pinCount := (domain.pcache.pages page).pinCount + 1 }
        (domain.pcache.pin page).lru) planes flash tick) := by
  rw [xpcPin, wp_modify, modifyPcache, modifyDomain_amu]
  exact Iff.rfl

theorem wp_xpcUnpin (hpinned : 0 < (domain.pcache.pages page).pinCount) :
    wp rules (xpcUnpin nsid page) post (s.amu nsid domain planes flash tick) ↔
      post () (s.amu nsid (domain.setPage page
        { domain.pcache.pages page with
          pinCount := (domain.pcache.pages page).pinCount - 1 }
        (domain.pcache.unpin page).lru) planes flash tick) := by
  simp only [xpcUnpin, wp_bind, wp_get, wp_assert, xpg_amu, hpinned,
    decide_true, if_true, wp_modify, modifyPcache, modifyDomain_amu]
  exact Iff.rfl

theorem wp_lockXpg (hfree : (domain.pcache.pages page).mutex = ⟨none, []⟩) :
    wp rules (lockXpg nsid page) post (s.amu nsid domain planes flash tick) ↔
      post () (s.amu nsid (domain.setPage page
        { domain.pcache.pages page with mutex := ⟨some s.current, []⟩ }
        domain.pcache.lru) planes flash tick) := by
  rw [wp_lockXpg_free (by rw [xpg_amu, hfree]), modifyXpg_amu, hfree]
  exact Iff.rfl

theorem wp_unlockXpg (hheld : (domain.pcache.pages page).mutex = ⟨some s.current, []⟩) :
    wp rules (unlockXpg nsid page) post (s.amu nsid domain planes flash tick) ↔
      post () (s.amu nsid (domain.setPage page { domain.pcache.pages page with mutex := ⟨none, []⟩ }
        domain.pcache.lru) planes flash tick) := by
  rw [unlockXpg, wp_modify, modifyXpg_amu, hheld]
  simp [Mutex.unlock]

theorem wp_readGtd {mvpn : ℕ} {post : ℕ → Sys D (Backend D) → Prop} :
    wp rules (readGtd nsid mvpn) post (s.amu nsid domain planes flash tick) ↔
      match domain.gtd[mvpn]? with
      | some mppn => post mppn (s.amu nsid domain planes flash tick)
      | none => rules.onFault .directoryBounds := by
  simp only [readGtd, wp_bind, wp_get, domains_amu]
  cases domain.gtd[mvpn]? <;> exact Iff.rfl

end Amu

/-! ### Fetching a translation page -/

namespace AmDomain

/-- The domain after an operation on the translation page `mvpn`: that page is
cached, its mapping is `mapping` and nothing else has changed. -/
structure Next (domain domain' : AmDomain) (flash : ℕ → PageData D)
    (holder : ℕ → Option Tid) (mvpn : ℕ) (mapping : ℕ → XlateEntry) : Prop where
  inv : domain'.Inv flash holder
  lookup_eq : domain'.lookup flash = mapping
  rest_eq : domain' = { domain with pcache := domain'.pcache }
  capacity_eq : domain'.pcache.capacity = domain.pcache.capacity
  find_isSome : ∀ wanted, (domain'.pcache.find wanted).isSome ↔
    (domain.pcache.find wanted).isSome ∨ wanted = mvpn

/-- The page with number `mvpn` is cached and held by `owner`. -/
structure Fetched (domain domain' : AmDomain) (flash : ℕ → PageData D)
    (owner : Tid) (mvpn page : ℕ) : Prop extends
    Next domain domain' flash (update unheld page (some owner)) mvpn (domain.lookup flash) where
  mem : page ∈ domain'.pcache.tree
  mvpn_eq : (domain'.pcache.pages page).mvpn = mvpn

variable {domain domain' : AmDomain} {flash : ℕ → PageData D} {self : Tid}
  {mvpn page : ℕ} {xpg : XlatePage}

theorem lookup_of_mem {holder : ℕ → Option Tid} (hinv : domain.Inv flash holder)
    (hmem : page ∈ domain.pcache.tree) {lpa : ℕ}
    (hlpa : getMvpn lpa = (domain.pcache.pages page).mvpn) :
    domain.lookup flash lpa = (domain.pcache.pages page).entries (getMvpnSlot lpa) := by
  rw [lookup, hlpa, find_of_mem hinv.sorted hmem]

/-- A cached page is pinned and locked. -/
theorem fetched_of_find (hinv : domain.Inv flash unheld)
    (hfind : domain.pcache.find mvpn = some page) (lru : List ℕ) :
    domain.Fetched (domain.setPage page
      { domain.pcache.pages page with
        pinCount := 1, mutex := ⟨some self, []⟩ } lru) flash self mvpn page := by
  obtain ⟨hmem, hmvpn⟩ := mem_of_find hfind
  refine ⟨⟨?_, ?_, rfl, rfl, ?_⟩, hmem, ?_⟩
  · exact hinv.setPage lru rfl rfl rfl (hinv.loaded page hmem) (hinv.saved page hmem)
  · funext lpa
    rw [lookup_setPage (by rfl)]
    split
    · rename_i hlpa
      rw [lookup, hlpa]
    · rfl
  · intro wanted
    rw [find_setPage (by rfl)]
    refine ⟨.inl, ?_⟩
    rintro (hsome | rfl)
    · exact hsome
    · rw [hfind]
      rfl
  · rw [pages_setPage_self]
    exact hmvpn

/-- A page that was not cached is added, filled in, pinned and locked. -/
theorem fetched_of_miss (hinv : domain.Inv flash unheld)
    (hmiss : domain.pcache.find xpg.mvpn = none) (hbound : xpg.mvpn < domain.gtd.length)
    (hmutex : xpg.mutex = ⟨some self, []⟩) (hpin : xpg.pinCount = 1) (hloaded : xpg.loaded)
    (hsaved : xpg.dirty = false → domain.Saved flash xpg)
    (hentries : ∀ lpa, getMvpn lpa = xpg.mvpn →
      xpg.entries (getMvpnSlot lpa) = domain.onFlash flash lpa) (lru : List ℕ) :
    domain.Fetched ((domain.addPage xpg.mvpn).setPage domain.pcache.nextPage xpg lru)
      flash self xpg.mvpn domain.pcache.nextPage := by
  refine ⟨⟨hinv.addPage lru hmiss hbound hmutex hpin hloaded hsaved, ?_, rfl, rfl, ?_⟩, ?_, ?_⟩
  · funext lpa
    rw [lookup_addPage hinv hmiss]
    split
    · rename_i hlpa
      rw [hentries lpa hlpa, lookup, hlpa, hmiss]
    · rfl
  · intro wanted
    rw [find_setPage (by rw [mvpn_addPage_self]), find_addPage hinv hmiss]
    by_cases hwanted : wanted = xpg.mvpn <;> simp [hwanted]
  · exact mem_tree_addPage.mpr (.inl rfl)
  · rw [pages_setPage_self]

/-- A held page is changed and released. -/
theorem Fetched.release {mapping : ℕ → XlateEntry}
    (hfetched : domain.Fetched domain' flash self mvpn page)
    (entries : ℕ → XlateEntry) (dirty : Bool) (hmapping : ∀ lpa, mapping lpa =
      if getMvpn lpa = mvpn then entries (getMvpnSlot lpa)
      else domain.lookup flash lpa)
    (hclean : dirty = false → (domain'.pcache.pages page).dirty = false ∧
      entries = (domain'.pcache.pages page).entries)
    (lru : List ℕ) :
    domain.Next (domain'.setPage page
      { domain'.pcache.pages page with
        entries := entries, dirty := dirty, mutex := ⟨none, []⟩, pinCount := 0 }
      lru) flash unheld mvpn mapping := by
  have hfind := find_of_mem hfetched.inv.sorted hfetched.mem
  refine ⟨?_, ?_, ?_, hfetched.capacity_eq, ?_⟩
  · have hholder : update (update unheld page (some self)) page none = unheld := by
      rw [update_idem]
      exact update_eq_self page unheld
    rw [← hholder]
    refine hfetched.inv.setPage lru rfl rfl rfl (hfetched.inv.loaded page hfetched.mem) ?_
    intro hdirty
    obtain ⟨hwas, hentries⟩ := hclean hdirty
    obtain ⟨mppn, hmppn, hne, hcopy⟩ := hfetched.inv.saved page hfetched.mem hwas
    exact ⟨mppn, hmppn, hne, by simpa only [hentries] using hcopy⟩
  · funext lpa
    rw [hmapping, lookup_setPage (by rfl), ← hfetched.lookup_eq]
    by_cases hlpa : getMvpn lpa = mvpn
    · rw [if_pos hlpa, hlpa, ← hfetched.mvpn_eq, if_pos hfind]
    · rw [if_neg hlpa, if_neg]
      intro hother
      obtain ⟨-, hmvpn⟩ := mem_of_find hother
      exact hlpa (by rw [← hmvpn, hfetched.mvpn_eq])
  · rw [hfetched.rest_eq]
    rfl
  · intro wanted
    rw [find_setPage (by rfl)]
    exact hfetched.find_isSome wanted

/-- The entries of a held page are the mapping of its logical pages. -/
theorem Fetched.entries_eq (hfetched : domain.Fetched domain' flash self mvpn page)
    {lpa : ℕ} (hlpa : getMvpn lpa = mvpn) :
    (domain'.pcache.pages page).entries (getMvpnSlot lpa) = domain.lookup flash lpa := by
  rw [← hfetched.lookup_eq, lookup_of_mem hfetched.inv hfetched.mem]
  rw [hlpa, hfetched.mvpn_eq]

end AmDomain

section Alone

variable {s : Sys D (Backend D)} {nsid page tick mvpn : ℕ} {domain : AmDomain} {planes : Planes}
  {flash : ℕ → PageData D} {env : Env D} {tolerated : Fault → Prop} {stuck : Prop}

theorem wp_amuSubmit_amu (hidle : s.back.outstanding = []) {op : FlashOp D}
    {post : Answer D → Sys D (Backend D) → Prop} :
    wp (aloneRules env tolerated stuck) (amuSubmit op) post (s.amu nsid domain planes flash tick) ↔
      post ⟨env.faults tick, flash op.ppa⟩ (s.amu nsid domain planes
          (if env.faults tick = none then op.apply flash else flash) (tick + 1)) := by
  have hidle' : (s.amu nsid domain planes flash tick).back.outstanding = [] := hidle
  exact wp_amuSubmit hidle'

theorem onBlock_zdma_amu {post : Answer D → Sys D (Backend D) → Prop} :
    (aloneRules env tolerated stuck).onBlock .zdma post (s.amu nsid domain planes flash tick) ↔
      post { status := env.faults tick } (s.amu nsid domain planes flash (tick + 1)) := Iff.rfl

/-- Some allocation, transfer or flash operation fails. -/
def Env.Fails (env : Env D) : Prop := ∃ tick, env.faults tick ≠ none

theorem Env.Reliable.not_fails (hreliable : env.Reliable) : ¬env.Fails := by
  rintro ⟨tick, hfault⟩
  exact hfault (hreliable tick)

variable {post : Status × ℕ → Sys D (Backend D) → Prop}

/-- `xpc_add` where there is room. -/
theorem wp_xpcAdd (hsize : ¬domain.pcache.capacity ≤ domain.pcache.size)
    (hnull : env.Fails → tolerated .nullPointer)
    (hmemory : env.Fails → post (some .enomem, 0) (s.amu nsid domain planes flash (tick + 2)))
    (hpost : post (none, domain.pcache.nextPage)
      (s.amu nsid (domain.addPage mvpn) planes flash (tick + 2))) :
    wp (aloneRules env tolerated stuck) (xpcAdd env nsid mvpn) post
      (s.amu nsid domain planes flash tick) := by
  simp only [xpcAdd, wp_bind, wp_get, pcache_amu, wp_ite, if_neg hsize,
    wp_allocMem_amu, wp_assert, wp_modify, wp_pure, addPage_amu, decide_eq_true_eq]
  by_cases hstruct : env.faults tick = none
  · rw [if_pos hstruct]
    by_cases hbuffer : env.faults (tick + 1) = none
    · rw [if_pos hbuffer]
      exact hpost
    · rw [if_neg hbuffer]
      exact hmemory ⟨_, hbuffer⟩
  · rw [if_neg hstruct]
    exact hnull ⟨_, hstruct⟩

/-- `xpc_read_page` of a page that is locked and clean. -/
theorem wp_xpcReadPage (hidle : s.back.outstanding = []) {mppn : ℕ}
    (hmppn : domain.gtd[(domain.pcache.pages page).mvpn]? = some mppn)
    (hclean : (domain.pcache.pages page).dirty = false) {post : Status → Sys D (Backend D) → Prop}
    (hfail : env.Fails → ∀ error tick', post (some error) (s.amu nsid domain planes flash tick'))
    (hpost : post none (s.amu nsid (domain.setPage page
      { domain.pcache.pages page with
        entries := fun slot => ⟨(flash mppn).ppa slot, fullBitmap⟩
        loaded := true } domain.pcache.lru) planes flash (tick + 2))) :
    wp (aloneRules env tolerated stuck) (xpcReadPage env nsid page) post
      (s.amu nsid domain planes flash tick) := by
  simp only [xpcReadPage, wp_bind, wp_get, xpg_amu, wp_readGtd, hmppn,
    wp_assert, hclean, Bool.not_false, if_true, wp_allocMem_amu, wp_ite, decide_eq_true_eq]
  by_cases hbuffer : env.faults tick = none
  · rw [if_pos hbuffer, wp_amuSubmit_amu hidle]
    by_cases hread : env.faults (tick + 1) = none
    · simp only [hread, if_true, wp_modify, wp_pure, modifyXpg_amu]
      exact hpost
    · rw [if_neg hread, wp_pure, if_neg hread]
      cases hstatus : env.faults (tick + 1) with
      | none => exact absurd hstatus hread
      | some error => exact hfail ⟨_, hread⟩ error _
  · rw [if_neg hbuffer]
    exact hfail ⟨_, hbuffer⟩ .enomem _

/-- `get_translation_page` when the page is cached or finds room.  If reading
the page fails, it is handed out although nobody has pinned it. -/
theorem wp_getTranslationPage (hidle : s.back.outstanding = []) (hinv : domain.Inv flash unheld)
    (hroom : (domain.pcache.find mvpn).isSome ∨ domain.pcache.size < domain.pcache.capacity)
    (hdirectory : ¬mvpn < domain.gtd.length → tolerated .directoryBounds)
    (hnull : env.Fails → domain.pcache.find mvpn = none → tolerated .nullPointer)
    (hmemory : env.Fails → domain.pcache.find mvpn = none → ∀ tick',
      post (some .enomem, 0) (s.amu nsid domain planes flash tick'))
    (horphan : env.Fails → domain.pcache.find mvpn = none →
      ∀ page domain' tick', (domain'.pcache.pages page).pinCount = 0 →
        post (none, page) (s.amu nsid domain' planes flash tick')) (hpost : ∀ page domain' tick',
      domain.Fetched domain' flash s.current mvpn page →
      post (none, page) (s.amu nsid domain' planes flash tick')) :
    wp (aloneRules env tolerated stuck) (getTranslationPage env nsid mvpn) post
      (s.amu nsid domain planes flash tick) := by
  rw [getTranslationPage, wp_bind, wp_get, pcache_amu]
  cases hfind : domain.pcache.find mvpn with
  | some page =>
    obtain ⟨hmem, hmvpn⟩ := mem_of_find hfind
    have hmutex := hinv.mutex_eq page hmem
    have hpin := hinv.pin_eq page hmem
    rw [wp_bind, wp_xpcPin, wp_bind, wp_lockXpg (by rw [pages_setPage_self, hmutex]; rfl),
      setPage_setPage, pages_setPage_self, hpin, wp_pure]
    exact hpost _ _ _ (fetched_of_find hinv hfind _)
  | none =>
    rw [hfind] at hroom
    have hsize : ¬domain.pcache.capacity ≤ domain.pcache.size := by
      simpa using hroom
    rw [wp_bind]
    apply wp_xpcAdd hsize
    · intro hfails
      exact hnull hfails hfind
    · intro hfails
      exact hmemory hfails hfind _
    · rw [wp_bind, wp_lockXpg (by rw [pages_addPage_self]), wp_bind,
        wp_readGtd, gtd_setPage, gtd_addPage, pages_addPage_self]
      by_cases hbound : mvpn < domain.gtd.length
      · obtain ⟨mppn, hmppn⟩ : ∃ mppn, domain.gtd[mvpn]? = some mppn :=
          ⟨_, getElem?_eq_getElem hbound⟩
        rw [hmppn]
        dsimp only
        by_cases hblank : mppn = noPpa
        · simp only [hblank, if_true, wp_bind, wp_modify, wp_pure,
            modifyXpg_amu, setPage_setPage, pages_setPage_self]
          refine hpost _ _ _ (fetched_of_miss hinv hfind hbound rfl rfl rfl (by simp) ?_ _)
          intro lpa hlpa
          simp [onFlash, hlpa, hmppn, hblank]
        · rw [if_neg hblank, wp_bind]
          apply wp_xpcReadPage hidle
          · rw [pages_setPage_self]
            exact hmppn
          · rw [pages_setPage_self]
          · intro hfails error tick'
            rw [wp_ite, if_neg (Option.some_ne_none error), wp_bind,
              wp_unlockXpg (by rw [pages_setPage_self]), wp_bind, wp_modify, modifyPcache,
              modifyDomain_amu, wp_bind, wp_xpcUnpin (by simp [eraseTree])]
            apply horphan hfails hfind
            simp [eraseTree]
          · simp only [if_true, wp_pure, setPage_setPage, pages_setPage_self]
            refine hpost _ _ _ (fetched_of_miss hinv hfind hbound rfl rfl rfl ?_ ?_ _)
            · intro _
              exact ⟨mppn, hmppn, hblank, fun slot => rfl⟩
            · intro lpa hlpa
              simp [onFlash, hlpa, hmppn, hblank]
      · rw [getElem?_eq_none (Nat.le_of_not_lt hbound)]
        exact hdirectory hbound

end Alone

end Soda
