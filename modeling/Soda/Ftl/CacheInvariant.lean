import Soda.Ftl.DataCache
import Soda.Ftl.Sequential

/-!
# Structure of the data cache

What holds of tree, list, pins and locks while one coroutine is running:
`holder` says which entries it has locked.  The unlocked entries are exactly
those that can be evicted.
-/

namespace Soda

open List Function CacheEntry

variable {D : Type}

namespace CacheEntry

theorem key_eq {left right : CacheEntry D} :
    left.key = right.key ↔ left.nsid = right.nsid ∧ left.lpa = right.lpa := by
  simp [key, Prod.ext_iff]

end CacheEntry

namespace DataCache

def unheldOf (holder : ℕ → Option Tid) (slots : List ℕ) : List ℕ :=
  slots.filter fun slot => (holder slot).isNone

@[simp]
theorem mem_unheldOf {holder : ℕ → Option Tid} {slots : List ℕ} {slot : ℕ} :
    slot ∈ unheldOf holder slots ↔ slot ∈ slots ∧ holder slot = none := by
  simp [unheldOf]

structure Inv (cache : DataCache D) (holder : ℕ → Option Tid) : Prop where
  sorted : cache.tree.Pairwise fun left right =>
    (cache.entries left).key < (cache.entries right).key
  below : ∀ slot ∈ cache.tree, slot < cache.nextEntry
  mutex_eq : ∀ slot ∈ cache.tree, (cache.entries slot).mutex = ⟨holder slot, []⟩
  pin_eq : ∀ slot ∈ cache.tree,
    (cache.entries slot).pinCount = if (holder slot).isSome then 1 else 0
  lru_perm : cache.lru.Perm (unheldOf holder cache.tree)
  count : cache.nrPages = cache.tree.length
  fits : cache.tree.length ≤ cache.capacityPages
  used : ∀ slot ∈ cache.tree, (cache.entries slot).status ≠ .empty

theorem init_inv [Zero D] (capacity : ℕ) : (init capacity : DataCache D).Inv unheld :=
  ⟨List.Pairwise.nil, nofun, nofun, nofun, List.Perm.nil, rfl, Nat.zero_le _, nofun⟩

/-! ### Looking up -/

section Find

variable {cache : DataCache D} {holder : ℕ → Option Tid} {slot nsid lpa : ℕ}

theorem mem_of_find (hfind : cache.find nsid lpa = some slot) :
    slot ∈ cache.tree ∧ (cache.entries slot).nsid = nsid ∧ (cache.entries slot).lpa = lpa := by
  refine ⟨mem_of_find?_eq_some hfind, ?_⟩
  simpa using find?_some hfind

theorem find_eq_none : cache.find nsid lpa = none ↔
    ∀ slot ∈ cache.tree, (cache.entries slot).nsid = nsid → (cache.entries slot).lpa ≠ lpa := by
  simp [find]

theorem Inv.eq_of_key_eq (hinv : cache.Inv holder) {left right : ℕ}
    (hleft : left ∈ cache.tree) (hright : right ∈ cache.tree)
    (hkey : (cache.entries left).key = (cache.entries right).key) : left = right := by
  by_contra hne
  have hlt := pairwise_iff_getElem.mp hinv.sorted
  obtain ⟨i, hi, rfl⟩ := getElem_of_mem hleft
  obtain ⟨j, hj, rfl⟩ := getElem_of_mem hright
  rcases lt_trichotomy i j with hij | hij | hij
  · exact absurd hkey (hlt i j hi hj hij).ne
  · exact hne (by simp only [hij])
  · exact absurd hkey (hlt j i hj hi hij).ne'

theorem Inv.nodup (hinv : cache.Inv holder) : cache.tree.Nodup := by
  refine hinv.sorted.imp ?_
  rintro left right hlt rfl
  exact lt_irrefl _ hlt

theorem Inv.eq_of_same_page (hinv : cache.Inv holder) {left right : ℕ}
    (hleft : left ∈ cache.tree) (hright : right ∈ cache.tree)
    (hnsid : (cache.entries left).nsid = (cache.entries right).nsid)
    (hlpa : (cache.entries left).lpa = (cache.entries right).lpa) : left = right :=
  hinv.eq_of_key_eq hleft hright (key_eq.mpr ⟨hnsid, hlpa⟩)

end Find

/-! ### Changing one entry -/

def setEntry (cache : DataCache D) (slot : ℕ) (entry : CacheEntry D) (lru : List ℕ) : DataCache D :=
  { cache with entries := update cache.entries slot entry, lru := lru }

section SetEntry

variable {cache : DataCache D} {holder : ℕ → Option Tid} {slot : ℕ}
  {entry : CacheEntry D} {lru : List ℕ}

theorem setEntry_setEntry (cache : DataCache D) (slot : ℕ)
    (entry entry' : CacheEntry D) (lru lru' : List ℕ) :
    (cache.setEntry slot entry lru).setEntry slot entry' lru' =
      cache.setEntry slot entry' lru' := by
  simp [setEntry]

@[simp]
theorem entries_setEntry_self (cache : DataCache D) (slot : ℕ)
    (entry : CacheEntry D) (lru : List ℕ) :
    (cache.setEntry slot entry lru).entries slot = entry := by
  simp [setEntry]

theorem entries_setEntry_of_ne (cache : DataCache D) {slot other : ℕ}
    (hne : other ≠ slot) (entry : CacheEntry D) (lru : List ℕ) :
    (cache.setEntry slot entry lru).entries other = cache.entries other := by
  simp [setEntry, hne]

theorem find_setEntry (hnsid : entry.nsid = (cache.entries slot).nsid)
    (hlpa : entry.lpa = (cache.entries slot).lpa) (nsid lpa : ℕ) :
    (cache.setEntry slot entry lru).find nsid lpa = cache.find nsid lpa := by
  have hsame : ∀ other, ((cache.setEntry slot entry lru).entries other).nsid =
        (cache.entries other).nsid ∧ ((cache.setEntry slot entry lru).entries other).lpa =
        (cache.entries other).lpa := by
    intro other
    by_cases hother : other = slot
    · rw [hother, entries_setEntry_self]
      exact ⟨hnsid, hlpa⟩
    · rw [entries_setEntry_of_ne cache hother]
      exact ⟨rfl, rfl⟩
  simp only [find, (hsame _).1, (hsame _).2]
  rfl

theorem key_setEntry (hkey : entry.key = (cache.entries slot).key) (other : ℕ) :
    ((cache.setEntry slot entry lru).entries other).key = (cache.entries other).key := by
  by_cases hsame : other = slot
  · rw [hsame, entries_setEntry_self, hkey]
  · rw [entries_setEntry_of_ne cache hsame]

variable (hinv : cache.Inv holder)
include hinv

theorem Inv.setEntry {owner : Option Tid}
    (hkey : entry.key = (cache.entries slot).key) (hmutex : entry.mutex = ⟨owner, []⟩)
    (hpin : entry.pinCount = if owner.isSome then 1 else 0) (hused : entry.status ≠ .empty)
    (hlru : lru.Perm (unheldOf (update holder slot owner) cache.tree)) :
    (cache.setEntry slot entry lru).Inv (update holder slot owner) := by
  refine ⟨?_, hinv.below, ?_, ?_, hlru, hinv.count, hinv.fits, ?_⟩
  · simp only [key_setEntry hkey]
    exact hinv.sorted
  · intro other hother
    by_cases hsame : other = slot
    · simp [hsame, hmutex]
    · rw [entries_setEntry_of_ne cache hsame, update_of_ne hsame]
      exact hinv.mutex_eq other hother
  · intro other hother
    by_cases hsame : other = slot
    · simp [hsame, hpin]
    · rw [entries_setEntry_of_ne cache hsame, update_of_ne hsame]
      exact hinv.pin_eq other hother
  · intro other hother
    by_cases hsame : other = slot
    · simp [hsame, hused]
    · rw [entries_setEntry_of_ne cache hsame]
      exact hinv.used other hother

/-! ### Holding and releasing -/

variable {self : Tid}

theorem Inv.hold_lru :
    (cache.lru.erase slot).Perm (unheldOf (update holder slot (some self)) cache.tree) := by
  have hnodup := hinv.nodup
  refine (perm_ext_iff_of_nodup ?_ ?_).mpr ?_
  · exact (hinv.lru_perm.nodup_iff.mpr (hnodup.filter _)).erase _
  · exact hnodup.filter _
  · intro other
    have hlru := hinv.lru_perm.nodup_iff.mpr (hnodup.filter _)
    rw [hlru.mem_erase_iff, hinv.lru_perm.mem_iff, mem_unheldOf, mem_unheldOf]
    by_cases hsame : other = slot
    · simp [hsame]
    · simp [hsame]

theorem Inv.release_lru (hmem : slot ∈ cache.tree) (hheld : holder slot = some self) :
    (slot :: cache.lru).Perm (unheldOf (update holder slot none) cache.tree) := by
  have hnodup := hinv.nodup
  have hnotMem : slot ∉ cache.lru := by
    rw [hinv.lru_perm.mem_iff, mem_unheldOf, hheld]
    simp
  refine (perm_ext_iff_of_nodup ?_ ?_).mpr ?_
  · exact nodup_cons.mpr ⟨hnotMem, hinv.lru_perm.nodup_iff.mpr (hnodup.filter _)⟩
  · exact hnodup.filter _
  · intro other
    rw [mem_cons, hinv.lru_perm.mem_iff, mem_unheldOf, mem_unheldOf]
    by_cases hsame : other = slot
    · simp [hsame, hmem]
    · simp [hsame]

/-- Only the locks of cached entries matter. -/
theorem Inv.congr_holder {holder' : ℕ → Option Tid}
    (hsame : ∀ slot ∈ cache.tree, holder' slot = holder slot) : cache.Inv holder' := by
  refine ⟨hinv.sorted, hinv.below, ?_, ?_, ?_, hinv.count, hinv.fits, hinv.used⟩
  · intro slot hslot
    rw [hsame slot hslot]
    exact hinv.mutex_eq slot hslot
  · intro slot hslot
    rw [hsame slot hslot]
    exact hinv.pin_eq slot hslot
  · have hlists : unheldOf holder' cache.tree = unheldOf holder cache.tree := by
      apply filter_congr
      intro slot hslot
      rw [hsame slot hslot]
    rw [hlists]
    exact hinv.lru_perm

/-- A held entry gets other contents. -/
theorem Inv.update (hmem : slot ∈ cache.tree)
    (hheld : holder slot = some self) (hkey : entry.key = (cache.entries slot).key)
    (hmutex : entry.mutex = (cache.entries slot).mutex)
    (hpin : entry.pinCount = (cache.entries slot).pinCount) (hused : entry.status ≠ .empty) :
    (cache.setEntry slot entry cache.lru).Inv holder := by
  have hholder : Function.update holder slot (some self) = holder := by
    rw [← hheld, update_eq_self]
  rw [← hholder]
  refine hinv.setEntry hkey ?_ ?_ hused ?_
  · rw [hmutex, hinv.mutex_eq slot hmem, hheld]
  · rw [hpin, hinv.pin_eq slot hmem, hheld]
  · rw [hholder]
    exact hinv.lru_perm

end SetEntry

@[simp]
theorem entries_recycle_self (cache : DataCache D) (slot nsid lpa : ℕ) (bitmap : PageBitmap) :
    ((cache.evict slot).recycle slot nsid lpa bitmap).entries slot =
      { cache.entries slot with
        status := .dirty, nsid := nsid, lpa := lpa, bitmap := bitmap } := by
  simp [recycle, evict, eraseTree, addEntry, modifyEntry]

theorem entries_recycle_of_ne (cache : DataCache D) {slot other : ℕ}
    (hne : other ≠ slot) (nsid lpa : ℕ) (bitmap : PageBitmap) :
    ((cache.evict slot).recycle slot nsid lpa bitmap).entries other = cache.entries other := by
  simp [recycle, evict, eraseTree, addEntry, modifyEntry, hne]

@[simp]
theorem entries_newEntry_self (cache : DataCache D) (nsid lpa : ℕ)
    (bitmap : PageBitmap) (data : ℕ → D) :
    (cache.newEntry nsid lpa bitmap data).entries cache.nextEntry =
      ⟨nsid, lpa, bitmap, .dirty, 1, {}, data⟩ := by
  simp [newEntry, addEntry, modifyEntry]

theorem entries_newEntry_of_ne (cache : DataCache D) {other : ℕ}
    (hne : other ≠ cache.nextEntry) (nsid lpa : ℕ) (bitmap : PageBitmap) (data : ℕ → D) :
    (cache.newEntry nsid lpa bitmap data).entries other = cache.entries other := by
  simp [newEntry, addEntry, modifyEntry, hne]

/-! ### Inserting an entry -/

section Insert

variable {cache base : DataCache D} {holder : ℕ → Option Tid} {slot lpa nsid : ℕ}
  {bitmap : PageBitmap} {data : ℕ → D}

variable {self : Tid}

variable (hinv : cache.Inv holder)
include hinv

/-- A locked entry for a new page joins some of the entries of the tree. -/
theorem Inv.insert {others lru : List ℕ} (hsub : others.Sublist cache.tree) (hslot : slot ∉ others)
    (hentries : ∀ other, other ≠ slot → base.entries other = cache.entries other)
    (htree : base.tree = treeInsert (fun left right =>
      (base.entries left).key < (base.entries right).key) slot others)
    (hkey : (base.entries slot).nsid = nsid ∧ (base.entries slot).lpa = lpa)
    (hmiss : cache.find nsid lpa = none) (hbelow : slot < base.nextEntry)
    (hnext : cache.nextEntry ≤ base.nextEntry) (hlru : lru.Perm (unheldOf holder others))
    (hcount : base.nrPages = others.length + 1) (hfits : others.length + 1 ≤ base.capacityPages) :
    (base.setEntry slot ⟨nsid, lpa, bitmap, .dirty, 1, ⟨some self, []⟩, data⟩ lru).Inv
      (Function.update holder slot (some self)) := by
  obtain ⟨rfl, rfl⟩ := hkey
  set cache' := base.setEntry slot _ lru with hcache
  have hself : cache'.entries slot = _ := entries_setEntry_self base slot _ lru
  have hkeys : ∀ other, (cache'.entries other).key = (base.entries other).key := key_setEntry rfl
  have hmem : ∀ {other}, other ∈ cache'.tree → other = slot ∨ other ≠ slot ∧ other ∈ cache.tree ∧
        cache'.entries other = cache.entries other := by
    intro other hother
    change other ∈ base.tree at hother
    rw [htree] at hother
    rcases mem_treeInsert.mp hother with rfl | hold
    · exact .inl rfl
    · have hne : other ≠ slot := by
        rintro rfl
        exact hslot hold
      refine .inr ⟨hne, hsub.subset hold, ?_⟩
      rw [hcache, entries_setEntry_of_ne base hne, hentries other hne]
  have hne : ∀ {other}, other ∈ others → other ≠ slot := by
    rintro other hother rfl
    exact hslot hother
  have hperm := treeInsert_perm (fun left right =>
    (base.entries left).key < (base.entries right).key) slot others
  have hlength : base.tree.length = others.length + 1 := by
    rw [htree, hperm.length_eq, length_cons]
  refine ⟨?_, ?_, ?_, ?_, ?_, ?_, ?_, ?_⟩
  · simp only [hkeys]
    change base.tree.Pairwise _
    rw [htree]
    refine treeInsert_sorted ?_ ?_
    · refine (hinv.sorted.sublist hsub).imp_of_mem ?_
      intro left right hleft hright hlt
      rw [hentries left (hne hleft), hentries right (hne hright)]
      exact hlt
    · intro other hother
      rw [hentries other (hne hother), ne_eq, key_eq]
      exact fun hkey => find_eq_none.mp hmiss other (hsub.subset hother) hkey.1 hkey.2
  · intro other hother
    rcases hmem hother with rfl | ⟨_, hold, _⟩
    · exact hbelow
    · exact (hinv.below other hold).trans_le hnext
  · intro other hother
    rcases hmem hother with rfl | ⟨hne, hold, hentry⟩
    · rw [hself, update_self]
    · rw [hentry, update_of_ne hne]
      exact hinv.mutex_eq other hold
  · intro other hother
    rcases hmem hother with rfl | ⟨hne, hold, hentry⟩
    · rw [hself, update_self]
      rfl
    · rw [hentry, update_of_ne hne]
      exact hinv.pin_eq other hold
  · refine hlru.trans ?_
    have hheld : unheldOf (Function.update holder slot (some self)) (slot :: others)
        = unheldOf holder others := by
      rw [unheldOf, unheldOf, filter_cons_of_neg (by simp)]
      refine filter_congr ?_
      intro other hother
      rw [update_of_ne (hne hother)]
    rw [← hheld]
    change Perm _ (unheldOf _ base.tree)
    rw [htree]
    exact (hperm.filter _).symm
  · exact hcount.trans hlength.symm
  · exact hlength.trans_le hfits
  · intro other hother
    rcases hmem hother with rfl | ⟨hne, hold, hentry⟩
    · rw [hself]
      exact CacheEntryStatus.noConfusion
    · rw [hentry]
      exact hinv.used other hold

/-- Only one node compares equal to a node of the tree. -/
theorem Inv.tree_eraseTree (hmem : slot ∈ cache.tree) :
    (cache.eraseTree slot).tree = cache.tree.erase slot := by
  rw [eraseTree, erase_eq_eraseP']
  have hiff : ∀ other ∈ cache.tree,
      ((cache.entries other).key = (cache.entries slot).key ↔ other = slot) := by
    intro other hother
    refine ⟨hinv.eq_of_key_eq hother hmem, ?_⟩
    rintro rfl
    rfl
  dsimp only
  generalize cache.tree = tree at hiff
  induction tree with
  | nil => rfl
  | cons head rest ih =>
    have hhead := hiff head mem_cons_self
    have hrest := ih fun other hother => hiff other (.tail head hother)
    by_cases hsame : head = slot
    · simp [hsame]
    · have hkey := (not_congr hhead).mpr hsame
      simp [hsame, hkey, hrest]

/-- A new entry, locked. -/
theorem Inv.newEntry (hmiss : cache.find nsid lpa = none)
    (hroom : cache.nrPages < cache.capacityPages) (lru : List ℕ) (hlru : lru = cache.lru) :
    ((cache.newEntry nsid lpa bitmap data).setEntry cache.nextEntry
      ⟨nsid, lpa, bitmap, .dirty, 1, ⟨some self, []⟩, data⟩ lru).Inv
      (Function.update holder cache.nextEntry (some self)) := by
  have hne : ∀ {other}, other ∈ cache.tree → other ≠ cache.nextEntry :=
    fun hother => (hinv.below _ hother).ne
  have hroom' : cache.tree.length + 1 ≤ cache.capacityPages := by
    rw [← hinv.count]
    exact hroom
  refine hinv.insert (List.Sublist.refl _) (fun hmem => hne hmem rfl)
    (fun _ hother => entries_newEntry_of_ne _ hother _ _ _ _) rfl ?_ hmiss (Nat.lt_succ_self _)
    (Nat.le_succ _) (hlru ▸ hinv.lru_perm) (congrArg (· + 1) hinv.count) hroom'
  rw [entries_newEntry_self]
  exact ⟨rfl, rfl⟩

/-- An unlocked entry is evicted, reused for another page and locked. -/
theorem Inv.recycle (hmem : slot ∈ cache.tree)
    (hmiss : cache.find nsid lpa = none) (lru : List ℕ) (hlru : lru = cache.lru.erase slot) :
    (((cache.evict slot).recycle slot nsid lpa bitmap).setEntry slot
      ⟨nsid, lpa, bitmap, .dirty, 1, ⟨some self, []⟩, (cache.entries slot).data⟩
      lru).Inv (Function.update holder slot (some self)) := by
  have hnodup := hinv.nodup
  have htree := hinv.tree_eraseTree hmem
  have hlength := length_erase_of_mem hmem
  have hpos := length_pos_of_mem hmem
  have hfits := hinv.fits
  refine hinv.insert erase_sublist hnodup.not_mem_erase
    (fun _ hother => entries_recycle_of_ne _ hother _ _ _) ?_ ?_ hmiss (hinv.below slot hmem)
    le_rfl ?_ ?_ ?_
  · rw [← htree]
    rfl
  · rw [entries_recycle_self]
    exact ⟨rfl, rfl⟩
  · rw [hlru]
    refine (hinv.lru_perm.erase slot).trans ?_
    rw [unheldOf, unheldOf, List.Nodup.erase_eq_filter (hnodup.filter _),
      List.Nodup.erase_eq_filter hnodup, filter_filter, filter_filter]
    simp only [Bool.and_comm]
    exact List.Perm.refl _
  · change cache.nrPages - 1 + 1 = (cache.tree.erase slot).length + 1
    rw [hinv.count, hlength]
  · change (cache.tree.erase slot).length + 1 ≤ cache.capacityPages
    omega

end Insert

end DataCache

end Soda
