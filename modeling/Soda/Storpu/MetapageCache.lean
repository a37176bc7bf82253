import Soda.Storpu.BTreeSearch

/-!
# Searches with a cached metapage

The first search on a relation keeps a copy of the metapage.  Later ones read
the block whose number is the fast level, and start there if it is alone on its
level.  Wherever that is in the tree, the search ends on the same leaf.  On a
tree whose fast root is a leaf the block is the metapage itself.
-/

namespace Soda.Storpu

open List Option Bool BTPage

open BTPage (pNone pHikey)
open Std (TransCmp)

variable {D : Type} {rel : BTRel D} {shape : BTShape} {key : BTScanInsert D}

/-- A page in use that is leftmost is on some level, with nothing on its left. -/
theorem BTRel.WellFormed.leftOf_leftmost (hwf : rel.WellFormed shape)
    {blkno : ℕ} (hzero : blkno ≠ 0) (hfile : blkno < rel.pages.length)
    (hignore : (rel.pageAt blkno).ignore = false) (hleftmost : (rel.pageAt blkno).leftmost = true) :
    ∃ level < shape.levels.length, blkno ∈ shape.chain level ∧
      leftOf (shape.chain level) blkno = [] := by
  have hmem : blkno ∈ shape.levels.flatten := by
    by_contra hout
    rw [hwf.unused blkno hfile hzero hout] at hignore
    exact absurd hignore (by simp)
  obtain ⟨chain, hchain, hblkno⟩ := List.mem_flatten.mp hmem
  obtain ⟨level, hlevel, hget⟩ := getElem_of_mem hchain
  have heq : shape.chain level = chain := by
    rw [BTShape.chain, getD_eq_getElem?_getD, getElem?_eq_getElem hlevel, hget]
    rfl
  rw [← heq] at hblkno
  obtain ⟨rest, hsplit⟩ := exists_leftOf_append hblkno
  have hlinked := (hwf.level _ (shape.chain_mem hlevel)).linked
  rw [hsplit] at hlinked
  refine ⟨level, hlevel, hblkno, hlinked.eq_nil_of_leftmost ?_ hleftmost⟩
  intro other hother
  exact (hwf.inFile other (mem_flatten hlevel (takeWhile_subset _ hother))).1

/-- Where the cached fast level is zero, the metapage is taken for the root, and
it has no downlink. -/
theorem BTRel.WellFormed.search_metapage (hwf : rel.WellFormed shape)
    (hfast : rel.metad.btmFastlevel = 0) : btSearch rel key (some rel.metad) = none := by
  obtain ⟨page, hpage, hprev, hnext, hflags, hitems⟩ := hwf.metapage
  rw [List.isEmpty_iff] at hitems
  have hread : rel.readBuffer rel.metad.btmFastlevel = some ⟨0, page⟩ := by
    rw [readBuffer, hfast, hpage]
    rfl
  have hright : page.rightmost = true := by
    rw [rightmost, hnext]
    rfl
  have htest : (!page.ignore && page.leftmost && page.rightmost) = true := by
    rw [ignore, leftmost, hright, hprev, hflags]
    rfl
  have hleaf : page.isLeaf = false := by
    rw [isLeaf, hflags]
    rfl
  have hsearch : btBinsrch rel key page = some pHikey := by
    rw [btBinsrch, firstDataKey, maxOffsetNumber, hright, hitems]
    rfl
  have hitem : page.item pHikey = none := by
    rw [item, hitems]
    rfl
  have hdescend : btDescend rel key rel.pages.length ⟨0, page⟩ = none := by
    obtain ⟨fuel, hfuel⟩ := Nat.exists_eq_succ_of_ne_zero (Nat.ne_of_gt hwf.pages_pos)
    rw [hfuel, btDescend, hfuel, btMoveright, btStepsRight, hright]
    simp only [if_true, bind_eq_bind, bind_some,
      false_eq_true, if_false, hleaf, hsearch, hitem, bind_none]
  rw [btSearch, btGetroot, hread]
  simp only [bind_eq_bind, bind_some, htest, if_true, hdescend, bind_none]

section

variable [∀ attno, TransCmp (rel.cmpProc attno)]

/-- A search with a cached metapage whose fast level is not zero: whatever block
has that number, the search ends on the same leaf. -/
theorem BTRel.WellFormed.search_cached (hwf : rel.WellFormed shape)
    (hkey : key.Plain) (hroot : rel.metad.btmRoot ≠ pNone) (hfast : rel.metad.btmFastlevel ≠ 0) :
    btSearch rel key (some rel.metad) = btSearch rel key none := by
  have hfile : rel.metad.btmFastlevel < rel.pages.length :=
    lt_trans (hwf.fastroot hroot).1 hwf.levels_length_lt
  have hread := rel.readBuffer_eq hfile
  by_cases htest : (!(rel.pageAt rel.metad.btmFastlevel).ignore &&
      (rel.pageAt rel.metad.btmFastlevel).leftmost &&
        (rel.pageAt rel.metad.btmFastlevel).rightmost) = true
  · have hroot' := htest
    rw [and_eq_true, and_eq_true, not_eq_true'] at hroot'
    obtain ⟨level, hlevel, hblkno, hleft⟩ := hwf.leftOf_leftmost hfast hfile hroot'.1.1 hroot'.1.2
    have hclear : shape.Clear rel key (shape.chain level) rel.metad.btmFastlevel := by
      rw [BTShape.Clear, hleft]
      simp
    obtain ⟨leaf, htarget, hdescend⟩ := hwf.descend hkey level
      rel.pages.length _ hlevel (lt_trans hlevel hwf.levels_length_lt) hblkno hclear
    obtain ⟨leaf', htarget', hsearch⟩ := hwf.search hkey hroot
    rw [htarget, some.injEq] at htarget'
    rw [hsearch, ← htarget', btSearch, btGetroot, hread]
    simp only [bind_eq_bind, bind_some, bufferAt]
    rw [if_pos htest]
    simp only [bind_some]
    rw [← bufferAt, hdescend]
    rfl
  · rw [btSearch, btSearch, btGetroot, btGetroot, hread]
    simp only [bind_eq_bind, bind_some, bufferAt]
    rw [if_neg htest]

end

/-! ### Searches one after the other -/

/-- Searches on one relation; what is left of them is the cached metapage. -/
def btSearches (rel : BTRel D) :
    List (BTScanInsert D) → Option BTMetaPageData → Option (Option BTMetaPageData)
  | [], rdAmcache => some rdAmcache
  | key :: keys, rdAmcache => do
      let (_, rdAmcache) ← btSearch rel key rdAmcache
      btSearches rel keys rdAmcache

/-- The leaf block that a search ends on after earlier searches. -/
def leafAfter (rel : BTRel D) (earlier : List (BTScanInsert D))
    (key : BTScanInsert D) : Option (Option ℕ) := do
  let rdAmcache ← btSearches rel earlier none
  let (leaf, _) ← btSearch rel key rdAmcache
  some (leaf.map BTBuffer.blkno)

theorem btSearches_empty (hwf : rel.WellFormed shape)
    (hroot : rel.metad.btmRoot = pNone) (earlier : List (BTScanInsert D)) :
    btSearches rel earlier none = some none := by
  induction earlier with
  | nil => rfl
  | cons key earlier ih =>
    rw [btSearches, hwf.search_empty hroot]
    exact ih

/-- With a fast root that is a leaf, no search gets on with the cached copy. -/
theorem btSearches_metapage (hwf : rel.WellFormed shape)
    (key : BTScanInsert D) (hfast : rel.metad.btmFastlevel = 0) (earlier : List (BTScanInsert D)) :
    (do
      let rdAmcache ← btSearches rel earlier (some rel.metad)
      btSearch rel key rdAmcache) = none := by
  cases earlier with
  | nil => exact hwf.search_metapage hfast
  | cons first earlier =>
    rw [btSearches, hwf.search_metapage hfast]
    rfl

section

variable [∀ attno, TransCmp (rel.cmpProc attno)] {earlier : List (BTScanInsert D)}

/-- Searches go on, and the cached copy stays the metapage. -/
theorem btSearches_cached (hwf : rel.WellFormed shape) (hroot : rel.metad.btmRoot ≠ pNone)
    (hfast : rel.metad.btmFastlevel ≠ 0) (hkeys : ∀ key ∈ earlier, key.Plain) :
    btSearches rel earlier (some rel.metad) = some (some rel.metad) := by
  induction earlier with
  | nil => rfl
  | cons key earlier ih =>
    have hkey := hkeys key mem_cons_self
    obtain ⟨leaf, -, hsearch⟩ := hwf.search hkey hroot
    rw [btSearches, hwf.search_cached hkey hroot hfast, hsearch]
    exact ih fun other hother => hkeys other (.tail _ hother)

/-- A search after others ends where it ends without them, unless the fast root
is a leaf. -/
theorem leafAfter_eq_iff (hwf : rel.WellFormed shape)
    (hkeys : ∀ key ∈ earlier, key.Plain) (hkey : key.Plain) :
    leafAfter rel earlier key = leafAfter rel [] key ↔ earlier = [] ∨ rel.metad.btmRoot = pNone ∨
        rel.metad.btmFastlevel ≠ 0 := by
  cases earlier with
  | nil => simp
  | cons first earlier =>
    by_cases hroot : rel.metad.btmRoot = pNone
    · rw [leafAfter, btSearches_empty hwf hroot]
      simp [hroot, leafAfter, btSearches]
    obtain ⟨leaf, -, hfirst⟩ := hwf.search (hkeys first mem_cons_self) hroot
    obtain ⟨last, -, hlast⟩ := hwf.search hkey hroot
    have hafter : leafAfter rel (first :: earlier) key = (do
        let rdAmcache ← btSearches rel earlier (some rel.metad)
        let (leaf, _) ← btSearch rel key rdAmcache
        some (leaf.map BTBuffer.blkno)) := by
      rw [leafAfter, btSearches, hfirst]
      rfl
    have hnone : leafAfter rel [] key = some (some last) := by
      rw [leafAfter, btSearches]
      simp only [bind_eq_bind, bind_some, hlast]
      rfl
    rw [hafter, hnone]
    by_cases hfast : rel.metad.btmFastlevel = 0
    · have hstuck := btSearches_metapage hwf key hfast earlier
      simp only [bind_eq_bind] at hstuck ⊢
      rw [← bind_assoc, hstuck]
      simp [hroot, hfast]
    · have hrun := btSearches_cached hwf hroot hfast fun other hother =>
        hkeys other (.tail _ hother)
      simp only [bind_eq_bind, hrun, bind_some, hwf.search_cached hkey hroot hfast, hlast]
      simp [hfast, BTRel.bufferAt]

end

/-- The copy does not change where the search for 5 ends. -/
theorem leafAfter_twoLeaves :
    leafAfter twoLeaves [searchFor 3] (searchFor 5) = leafAfter twoLeaves [] (searchFor 5) := by
  apply (leafAfter_eq_iff twoLeaves_wellFormed _ (searchFor_plain 5)).mpr
  · exact .inr (.inr (by decide))
  · simp [searchFor_plain]

def oneLeaf : BTRel ℕ where
  natts := 1
  cmpProc := fun _ => compare
  metad := ⟨1, 1, 0⟩
  pages := [metapage, ⟨pNone, pNone, btpLeaf, [entry 5]⟩]

/-- The second search on it takes the metapage for the root. -/
theorem not_leafAfter_oneLeaf :
    oneLeaf.WellFormed ⟨[[1]], []⟩ ∧ leafAfter oneLeaf [searchFor 5] (searchFor 5) ≠
        leafAfter oneLeaf [] (searchFor 5) := by
  decide

end Soda.Storpu
