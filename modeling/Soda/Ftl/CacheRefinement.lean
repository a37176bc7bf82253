import Soda.Core.Lists
import Soda.Ftl.CacheInvariant

/-!
# The data cache as a sector store

`Store` gives for each sector of each logical page the content of the last
write, if there was one.  The cache refines it over any mapping layer that
keeps the sectors written to it: what is not in a dirty entry is below.
-/

namespace Soda

variable {D μ : Type}

open Function Prog Sys DataCache List Option BitVec Txn

def Txn.page (txn : Txn D) : ℕ × ℕ := (txn.nsid, txn.lpa)

/-- Namespace, logical page and sector of the page. -/
abbrev Store (D : Type) := ℕ → ℕ → ℕ → Option D

namespace Store

def absorb (store : Store D) (txn : Txn D) : Store D := fun nsid lpa sector =>
  if nsid = txn.nsid ∧ lpa = txn.lpa ∧ txn.bitmap.getLsbD sector then
    some (txn.data sector)
  else store nsid lpa sector

def absorbAll (store : Store D) (txns : List (Txn D)) : Store D := txns.foldl absorb store

theorem absorbAll_append (store : Store D) (txns others : List (Txn D)) :
    store.absorbAll (txns ++ others) = (store.absorbAll txns).absorbAll others :=
  foldl_append

variable {store : Store D} {sector : ℕ}

variable {txn : Txn D} {lpa nsid : ℕ} {txns : List (Txn D)}

theorem absorb_of_clear (hclear : txn.page = (nsid, lpa) → ¬txn.bitmap.getLsbD sector) :
    store.absorb txn nsid lpa sector = store nsid lpa sector := by
  refine if_neg ?_
  rintro ⟨rfl, rfl, hbit⟩
  exact hclear rfl hbit

/-- A sector that no transaction writes keeps its content. -/
theorem absorbAll_of_clear
    (hclear : ∀ txn ∈ txns, txn.page = (nsid, lpa) → ¬txn.bitmap.getLsbD sector) :
    store.absorbAll txns nsid lpa sector = store nsid lpa sector := by
  induction txns generalizing store with
  | nil => rfl
  | cons txn txns ih =>
    calc
      absorbAll (store.absorb txn) txns nsid lpa sector = store.absorb txn nsid lpa sector :=
        ih fun item hitem => hclear item (.tail txn hitem)
      _ = store nsid lpa sector := absorb_of_clear (hclear txn mem_cons_self)

/-- A sector that one of the transactions writes has the content it was sent,
when they are for different pages. -/
theorem absorbAll_of_mem
    (hpages : (txns.map page).Nodup) (hmem : txn ∈ txns) (hbit : txn.bitmap.getLsbD sector) :
    store.absorbAll txns txn.nsid txn.lpa sector = some (txn.data sector) := by
  induction txns generalizing store with
  | nil => exact absurd hmem not_mem_nil
  | cons first txns ih =>
    rw [map_cons, nodup_cons] at hpages
    rw [absorbAll, foldl_cons]
    rcases mem_cons.mp hmem with rfl | hrest
    · rw [← absorbAll, absorbAll_of_clear]
      · exact if_pos ⟨rfl, rfl, hbit⟩
      · intro item hitem hsame
        exact absurd (mem_map.mpr ⟨item, hitem, hsame⟩) hpages.1
    · exact ih hpages.2 hrest

end Store

def CacheEntry.page (entry : CacheEntry D) : ℕ × ℕ := (entry.nsid, entry.lpa)

variable {entry : CacheEntry D} {cache : DataCache D}

theorem CacheEntry.page_eq {nsid lpa : ℕ} :
    entry.page = (nsid, lpa) ↔ entry.nsid = nsid ∧ entry.lpa = lpa :=
  Prod.ext_iff

theorem CacheEntry.page_eq_txn {txn : Txn D} :
    entry.page = txn.page ↔ entry.nsid = txn.nsid ∧ entry.lpa = txn.lpa :=
  Prod.ext_iff

/-- A read transaction after the mapping layer served it. -/
structure ReadResult (store : Store D) (virgin : D → Prop) (txn txn' : Txn D) : Prop where
  entry_eq : txn'.entry = txn.entry
  offset_eq : txn'.offset = txn.offset
  length_eq : txn'.length = txn.length
  data_eq : ∀ sector value, txn.covers sector →
    store txn.nsid txn.lpa sector = some value → txn'.data sector = value
  blank : (∀ sector, store txn.nsid txn.lpa sector = none) →
    ∀ sector, txn.covers sector → virgin (txn'.data sector)

/-- Some sectors of a page, and nothing outside it. -/
structure BitmapFits (bitmap : PageBitmap) : Prop where
  nonempty : bitmap ≠ 0
  inside : ∀ sector, bitmap.getLsbD sector → sector < sectorsPerFlashPg

theorem BitmapFits.or {left right : PageBitmap} (hleft : BitmapFits left)
    (hright : BitmapFits right) : BitmapFits (left ||| right) := by
  constructor
  · intro hzero
    exact hleft.nonempty (or_eq_zero_iff.mp hzero).1
  · intro sector hbit
    rw [getLsbD_or, Bool.or_eq_true] at hbit
    exact hbit.elim (hleft.inside sector) (hright.inside sector)

/-- A layer that keeps the latest content of every sector written to it.
`Holds credits` says that it has room for so many more transactions, `Serves`
are the pages it accepts, and `virgin` is what a page reads as that was never
written. -/
structure MappingLayer
    (lower : Tid → Wait → Sys D μ → Option (Answer D × Sys D μ)) (env : Env D)
    (tolerated : Fault → Prop) (virgin : D → Prop) where
  dispatch : Dispatch D μ
  Holds : ℕ → μ → Store D → Prop
  Serves : μ → ℕ → ℕ → Prop
  holds_mono : ∀ {credits fewer : ℕ} {back : μ} {store : Store D},
    fewer ≤ credits → Holds credits back store → Holds fewer back store
  write_spec : ∀ {s : Sys D μ} {store : Store D} {txns : List (Txn D)} {credits},
    Holds (credits + txns.length) s.back store →
    (∀ txn ∈ txns, txn.type = .write ∧ BitmapFits txn.bitmap ∧ Serves s.back txn.nsid txn.lpa) →
    (txns.map page).Nodup → wp (aloneOver lower env tolerated False) (dispatch txns)
      (fun result s' => result.1 = none ∧ result.2.map Txn.entry = txns.map Txn.entry ∧
        s' = { s with back := s'.back, tick := s'.tick } ∧
        (∀ nsid lpa, Serves s.back nsid lpa → Serves s'.back nsid lpa) ∧
        Holds credits s'.back (store.absorbAll txns)) s
  read_spec : ∀ {s : Sys D μ} {store : Store D} {txns : List (Txn D)} {credits},
    Holds (credits + txns.length) s.back store →
    (∀ txn ∈ txns, txn.type = .read ∧ Serves s.back txn.nsid txn.lpa) →
    wp (aloneOver lower env tolerated False) (dispatch txns) (fun result s' => result.1 = none ∧
        List.Forall₂ (ReadResult store virgin) txns result.2 ∧
        s' = { s with back := s'.back, tick := s'.tick } ∧
        (∀ nsid lpa, Serves s.back nsid lpa → Serves s'.back nsid lpa) ∧
        Holds credits s'.back store) s

/-! ### Cache, lower layer and store -/

/-- The transactions in `held` are about to overwrite these sectors. -/
def Pending (held : List (Txn D)) (slot sector : ℕ) : Prop :=
  ∃ txn ∈ held, txn.entry = some slot ∧ txn.bitmap.getLsbD sector

/-- Valid sectors of an entry have the content of the store, unless they are
being overwritten; what is in no dirty entry has the same content below. -/
structure Tracks (cache : DataCache D) (low store : Store D)
    (pending : ℕ → ℕ → Prop) : Prop where
  cached : ∀ slot ∈ cache.tree, ∀ sector,
    (cache.entries slot).bitmap.getLsbD sector → ¬pending slot sector →
    store (cache.entries slot).nsid (cache.entries slot).lpa sector =
      some ((cache.entries slot).data sector)
  below : ∀ nsid lpa sector, (∀ slot ∈ cache.tree, (cache.entries slot).page = (nsid, lpa) →
      (cache.entries slot).status = .dirty → ¬(cache.entries slot).bitmap.getLsbD sector) →
    low nsid lpa sector = store nsid lpa sector

structure CacheEntry.Same (entry entry' : CacheEntry D) : Prop where
  nsid_eq : entry'.nsid = entry.nsid
  lpa_eq : entry'.lpa = entry.lpa
  bitmap_eq : entry'.bitmap = entry.bitmap
  status_eq : entry'.status = entry.status

theorem CacheEntry.Same.page_eq {entry' : CacheEntry D}
    (hsame : entry.Same entry') : entry'.page = entry.page := by
  rw [page, page, hsame.nsid_eq, hsame.lpa_eq]

/-- Replacing one entry by a similar one. -/
theorem DataCache.same_setEntry {slot : ℕ} {lru : List ℕ}
    (hsame : (cache.entries slot).Same entry) (other : ℕ) :
    (cache.entries other).Same ((cache.setEntry slot entry lru).entries other) := by
  by_cases hother : other = slot
  · rw [hother, entries_setEntry_self]
    exact hsame
  · rw [entries_setEntry_of_ne cache hother]
    exact ⟨rfl, rfl, rfl, rfl⟩

theorem Tracks.congr {cache' : DataCache D} {low store : Store D}
    {pending : ℕ → ℕ → Prop} (htracks : Tracks cache low store pending)
    (htree : cache'.tree = cache.tree)
    (hsame : ∀ slot, (cache.entries slot).Same (cache'.entries slot))
    (hdata : ∀ slot ∈ cache.tree, ∀ sector, ¬pending slot sector →
      (cache'.entries slot).data sector = (cache.entries slot).data sector) :
    Tracks cache' low store pending := by
  constructor
  · intro slot hslot sector hbit hpending
    rw [htree] at hslot
    rw [(hsame slot).bitmap_eq] at hbit
    rw [(hsame slot).nsid_eq, (hsame slot).lpa_eq, hdata slot hslot sector hpending]
    exact htracks.cached slot hslot sector hbit hpending
  · intro nsid lpa sector hclear
    refine htracks.below nsid lpa sector ?_
    intro slot hslot hpage hdirty
    rw [← htree] at hslot
    have hclear' := hclear slot hslot
    rw [(hsame slot).page_eq, (hsame slot).status_eq, (hsame slot).bitmap_eq] at hclear'
    exact hclear' hpage hdirty

/-- Only locks, pins and the order of use differ. -/
structure DataCache.Alike (cache cache' : DataCache D) : Prop where
  tree_eq : cache'.tree = cache.tree
  capacity_eq : cache'.capacityPages = cache.capacityPages
  same : ∀ slot, (cache.entries slot).Same (cache'.entries slot)
  data_eq : ∀ slot, (cache'.entries slot).data = (cache.entries slot).data

namespace DataCache.Alike

variable {cache cache' cache'' : DataCache D}

theorem refl (cache : DataCache D) : cache.Alike cache :=
  ⟨rfl, rfl, fun _ => ⟨rfl, rfl, rfl, rfl⟩, fun _ => rfl⟩

theorem trans (hfirst : cache.Alike cache') (hsecond : cache'.Alike cache'') :
    cache.Alike cache'' := by
  refine ⟨hsecond.tree_eq.trans hfirst.tree_eq,
    hsecond.capacity_eq.trans hfirst.capacity_eq, ?_, ?_⟩
  · intro slot
    have hleft := hfirst.same slot
    have hright := hsecond.same slot
    exact ⟨hright.nsid_eq.trans hleft.nsid_eq, hright.lpa_eq.trans hleft.lpa_eq,
      hright.bitmap_eq.trans hleft.bitmap_eq, hright.status_eq.trans hleft.status_eq⟩
  · intro slot
    exact (hsecond.data_eq slot).trans (hfirst.data_eq slot)

theorem setEntry {slot : ℕ} {entry : CacheEntry D} {lru : List ℕ}
    (hsame : (cache.entries slot).Same entry) (hdata : entry.data = (cache.entries slot).data) :
    cache.Alike (cache.setEntry slot entry lru) := by
  refine ⟨rfl, rfl, same_setEntry hsame, ?_⟩
  intro other
  by_cases hother : other = slot
  · rw [hother, entries_setEntry_self, hdata]
  · rw [entries_setEntry_of_ne cache hother]

end DataCache.Alike

/-- The cache and what lies below hold the store together; `holder` says which
entries are locked. -/
structure Cached {lower : Tid → Wait → Sys D μ → Option (Answer D × Sys D μ)}
    {env : Env D} {tolerated : Fault → Prop} {virgin : D → Prop}
    (layer : MappingLayer lower env tolerated virgin) (credits : ℕ)
    (cache : DataCache D) (holder : ℕ → Option Tid) (back : μ)
    (store : Store D) : Prop where
  inv : cache.Inv holder
  tracks : ∃ low, layer.Holds credits back low ∧ Tracks cache low store fun _ _ => False
  fits : ∀ slot ∈ cache.tree, BitmapFits (cache.entries slot).bitmap
  served : ∀ slot ∈ cache.tree, (cache.entries slot).status = .dirty →
    layer.Serves back (cache.entries slot).nsid (cache.entries slot).lpa

section Cached

variable {lower : Tid → Wait → Sys D μ → Option (Answer D × Sys D μ)} {env : Env D}
  {tolerated : Fault → Prop} {virgin : D → Prop} {layer : MappingLayer lower env tolerated virgin}
  {credits fewer : ℕ} {cache cache' : DataCache D} {holder holder' : ℕ → Option Tid} {back : μ}
  {store : Store D}

theorem Cached.mono (hcached : Cached layer credits cache holder back store)
    (hle : fewer ≤ credits) : Cached layer fewer cache holder back store := by
  obtain ⟨low, hholds, htracks⟩ := hcached.tracks
  exact ⟨hcached.inv, ⟨low, layer.holds_mono hle hholds, htracks⟩, hcached.fits, hcached.served⟩

theorem Cached.alike (hcached : Cached layer credits cache holder back store)
    (halike : cache.Alike cache') (hinv : cache'.Inv holder') :
    Cached layer credits cache' holder' back store := by
  refine ⟨hinv, ?_, ?_, ?_⟩
  · obtain ⟨low, hholds, htracks⟩ := hcached.tracks
    refine ⟨low, hholds, htracks.congr halike.tree_eq halike.same ?_⟩
    intro slot _ sector _
    rw [halike.data_eq]
  · intro slot hslot
    rw [halike.tree_eq] at hslot
    rw [(halike.same slot).bitmap_eq]
    exact hcached.fits slot hslot
  · intro slot hslot hdirty
    rw [halike.tree_eq] at hslot
    have hsame := halike.same slot
    rw [hsame.status_eq] at hdirty
    rw [hsame.nsid_eq, hsame.lpa_eq]
    exact hcached.served slot hslot hdirty

end Cached

/-- The state inside the first loop of `write_buffers`: `held` has its entries
and `writebacks` is waiting. -/
structure Acquired {lower : Tid → Wait → Sys D μ → Option (Answer D × Sys D μ)}
    {env : Env D} {tolerated : Fault → Prop} {virgin : D → Prop}
    (layer : MappingLayer lower env tolerated virgin) (back : μ)
    (low store : Store D) (owner : Tid) (cache : DataCache D)
    (holder : ℕ → Option Tid) (held writebacks : List (Txn D)) : Prop where
  inv : cache.Inv holder
  tracks : Tracks cache (low.absorbAll writebacks) store (Pending held)
  has_entry : ∀ txn ∈ held, ∃ slot ∈ cache.tree, txn.entry = some slot ∧
    holder slot = some owner ∧ (cache.entries slot).page = txn.page ∧
    (cache.entries slot).status = .dirty ∧ ∀ sector, txn.bitmap.getLsbD sector →
      (cache.entries slot).bitmap.getLsbD sector
  holder_held : ∀ slot ∈ cache.tree, holder slot ≠ none → ∃ txn ∈ held, txn.entry = some slot
  fits : ∀ slot ∈ cache.tree, BitmapFits (cache.entries slot).bitmap
  served : ∀ slot ∈ cache.tree, (cache.entries slot).status = .dirty →
    layer.Serves back (cache.entries slot).nsid (cache.entries slot).lpa
  writeback_served : ∀ txn ∈ writebacks, txn.type = .write ∧
    BitmapFits txn.bitmap ∧ layer.Serves back txn.nsid txn.lpa
  writeback_nodup : (writebacks.map page).Nodup
  writeback_gone : ∀ txn ∈ writebacks, ∀ slot ∈ cache.tree,
    holder slot = none → (cache.entries slot).page ≠ txn.page

section Acquire

variable {lower : Tid → Wait → Sys D μ → Option (Answer D × Sys D μ)} {env : Env D}
  {tolerated : Fault → Prop} {virgin : D → Prop} {layer : MappingLayer lower env tolerated virgin}
  {back : μ} {low store : Store D} {owner : Tid} {cache cache' : DataCache D}
  {holder : ℕ → Option Tid} {held writebacks : List (Txn D)} {txn : Txn D} {slot : ℕ}

theorem pending_nil : Pending ([] : List (Txn D)) = fun _ _ => False := by
  funext slot sector
  simp [Pending]

theorem Pending.of_append {slot sector : ℕ} (hslot : ∀ txn ∈ held, txn.entry ≠ some slot) :
    Pending (held ++ [{ txn with entry := some slot }]) slot sector ↔
      txn.bitmap.getLsbD sector := by
  constructor
  · rintro ⟨other, hother, hentry, hbit⟩
    rcases mem_append.mp hother with hold | hnew
    · exact absurd hentry (hslot other hold)
    · rw [mem_singleton.mp hnew] at hbit
      exact hbit
  · intro hbit
    exact ⟨_, mem_append_right _ (mem_singleton_self _), rfl, hbit⟩

theorem Pending.append_of_ne {slot other sector : ℕ} (hne : other ≠ slot) :
    Pending (held ++ [{ txn with entry := some slot }]) other sector ↔
      Pending held other sector := by
  constructor
  · rintro ⟨item, hitem, hentry, hbit⟩
    rcases mem_append.mp hitem with hold | hnew
    · exact ⟨item, hold, hentry, hbit⟩
    · rw [mem_singleton.mp hnew] at hentry
      exact absurd (some.inj hentry).symm hne
  · rintro ⟨item, hitem, hentry, hbit⟩
    exact ⟨item, mem_append_left _ hitem, hentry, hbit⟩

variable (hacq : Acquired layer back low store owner cache holder held writebacks)
include hacq

/-- The entry of a transaction that is not held yet belongs to no other. -/
theorem Acquired.entry_ne (hfree : slot ∈ cache.tree → holder slot = none) :
    ∀ txn ∈ held, txn.entry ≠ some slot := by
  intro txn htxn hentry
  obtain ⟨other, hother, hsome, hholder, -⟩ := hacq.has_entry txn htxn
  obtain rfl : other = slot := some.inj (hsome.symm.trans hentry)
  rw [hfree hother] at hholder
  exact absurd hholder (by simp)

/-- Transactions with one entry are for one page. -/
theorem Acquired.page_eq {left right : Txn D} (hleft : left ∈ held)
    (hright : right ∈ held) (hsame : left.entry = right.entry) : left.page = right.page := by
  obtain ⟨slot, -, hslot, -, hpage, -⟩ := hacq.has_entry left hleft
  obtain ⟨other, -, hother, -, hother_page, -⟩ := hacq.has_entry right hright
  obtain rfl : slot = other := by
    rw [hsame, hother] at hslot
    exact (some.inj hslot).symm
  rw [← hpage, ← hother_page]

omit hacq in
/-- One more transaction gets its entry; the others of the tree stay as they are. -/
theorem Acquired.extend (others : List (Txn D)) {lru : List ℕ}
    (hacq : Acquired layer back low store owner cache holder held writebacks)
    (hfree : slot ∈ cache.tree → holder slot = none)
    (hinv : (cache'.setEntry slot entry lru).Inv (update holder slot (some owner)))
    (htree : ∀ other, other ∈ cache'.tree ↔ other = slot ∨ other ∈ cache.tree)
    (hentries : ∀ other, other ≠ slot → cache'.entries other = cache.entries other)
    (hpage : entry.page = txn.page) (hdirty : entry.status = .dirty)
    (hbits : ∀ sector, txn.bitmap.getLsbD sector → entry.bitmap.getLsbD sector)
    (hfits : BitmapFits entry.bitmap) (hserves : layer.Serves back txn.nsid txn.lpa)
    (hcached : ∀ sector, entry.bitmap.getLsbD sector → ¬txn.bitmap.getLsbD sector →
      store entry.nsid entry.lpa sector = some (entry.data sector))
    (hbelow : ∀ nsid lpa sector, (∀ other ∈ cache.tree, other ≠ slot →
        (cache.entries other).page = (nsid, lpa) → (cache.entries other).status = .dirty →
        ¬(cache.entries other).bitmap.getLsbD sector) →
      (entry.page = (nsid, lpa) → ¬entry.bitmap.getLsbD sector) →
      low.absorbAll (writebacks ++ others) nsid lpa sector = store nsid lpa sector)
    (hothers : ∀ item ∈ others, item.type = .write ∧ BitmapFits item.bitmap ∧
      layer.Serves back item.nsid item.lpa) (hnodup : ((writebacks ++ others).map page).Nodup)
    (hgone : ∀ item ∈ others, ∀ other ∈ cache.tree, other ≠ slot →
      (cache.entries other).page ≠ item.page) :
    Acquired layer back low store owner (cache'.setEntry slot entry lru)
      (update holder slot (some owner)) (held ++ [{ txn with entry := some slot }])
      (writebacks ++ others) := by
  have hne := hacq.entry_ne hfree
  have hself := entries_setEntry_self cache' slot entry lru
  have hslot := (htree slot).mpr (.inl rfl)
  have hold : ∀ other, other ≠ slot →
      (cache'.setEntry slot entry lru).entries other = cache.entries other := by
    intro other hsame
    rw [entries_setEntry_of_ne cache' hsame, hentries other hsame]
  have hcases : ∀ other ∈ cache'.tree, other = slot ∨ other ≠ slot ∧ other ∈ cache.tree := by
    intro other hother
    by_cases hsame : other = slot
    · exact .inl hsame
    · exact .inr ⟨hsame, ((htree other).mp hother).resolve_left hsame⟩
  refine ⟨hinv, ⟨?_, ?_⟩, ?_, ?_, ?_, ?_, ?_, hnodup, ?_⟩
  · intro other hother sector hbit hpending
    rcases hcases other hother with rfl | ⟨hsame, hmem⟩
    · rw [Pending.of_append hne] at hpending
      rw [hself] at hbit ⊢
      exact hcached sector hbit hpending
    · rw [Pending.append_of_ne hsame] at hpending
      rw [hold other hsame] at hbit ⊢
      exact hacq.tracks.cached other hmem sector hbit hpending
  · intro nsid lpa sector hclear
    refine hbelow nsid lpa sector ?_ ?_
    · intro other hother hsame
      rw [← hold other hsame]
      exact hclear other ((htree other).mpr (.inr hother))
    · have hclear' := hclear slot hslot
      rw [hself] at hclear'
      exact fun hthis => hclear' hthis hdirty
  · intro item hitem
    rcases mem_append.mp hitem with hin | hin
    · obtain ⟨other, hother, hentry, hholder, hrest⟩ := hacq.has_entry item hin
      have hsame : other ≠ slot := by
        rintro rfl
        exact hne item hin hentry
      rw [← hold other hsame] at hrest
      rw [← update_of_ne hsame (some owner) holder] at hholder
      exact ⟨other, (htree other).mpr (.inr hother), hentry, hholder, hrest⟩
    · rw [mem_singleton.mp hin]
      refine ⟨slot, hslot, rfl, update_self .., ?_⟩
      rw [hself]
      exact ⟨hpage, hdirty, hbits⟩
  · intro other hother hholder
    rcases hcases other hother with rfl | ⟨hsame, hmem⟩
    · exact ⟨_, mem_append_right _ (mem_singleton_self _), rfl⟩
    · rw [update_of_ne hsame] at hholder
      obtain ⟨item, hitem, hentry⟩ := hacq.holder_held other hmem hholder
      exact ⟨item, mem_append_left _ hitem, hentry⟩
  · intro other hother
    rcases hcases other hother with rfl | ⟨hsame, hmem⟩
    · rw [hself]
      exact hfits
    · rw [hold other hsame]
      exact hacq.fits other hmem
  · intro other hother hstatus
    rcases hcases other hother with rfl | ⟨hsame, hmem⟩
    · obtain ⟨hnsid, hlpa⟩ := CacheEntry.page_eq_txn.mp hpage
      rw [hself, hnsid, hlpa]
      exact hserves
    · rw [hold other hsame] at hstatus ⊢
      exact hacq.served other hmem hstatus
  · intro item hitem
    exact (mem_append.mp hitem).elim (hacq.writeback_served item) (hothers item)
  · intro item hitem other hother hholder
    rcases hcases other hother with rfl | ⟨hsame, hmem⟩
    · simp at hholder
    · rw [update_of_ne hsame] at hholder
      rw [hold other hsame]
      rcases mem_append.mp hitem with hitem | hitem
      · exact hacq.writeback_gone item hitem other hmem hholder
      · exact hgone item hitem other hmem hsame

/-- Sectors that are about to be overwritten can change. -/
theorem Acquired.congr (hinv : cache'.Inv holder) (htree : cache'.tree = cache.tree)
    (hsame : ∀ slot, (cache.entries slot).Same (cache'.entries slot))
    (hdata : ∀ slot ∈ cache.tree, ∀ sector, ¬Pending held slot sector →
      (cache'.entries slot).data sector = (cache.entries slot).data sector) :
    Acquired layer back low store owner cache' holder held writebacks := by
  refine ⟨hinv, hacq.tracks.congr htree hsame hdata, ?_, ?_, ?_, ?_,
    hacq.writeback_served, hacq.writeback_nodup, ?_⟩
  · intro item hitem
    obtain ⟨slot, hslot, hentry, hholder, hpage, hstatus, hbits⟩ := hacq.has_entry item hitem
    refine ⟨slot, by rw [htree]; exact hslot, hentry, hholder, ?_, ?_, ?_⟩
    · rw [(hsame slot).page_eq, hpage]
    · rw [(hsame slot).status_eq, hstatus]
    · rw [(hsame slot).bitmap_eq]
      exact hbits
  · intro slot hslot
    rw [htree] at hslot
    exact hacq.holder_held slot hslot
  · intro slot hslot
    rw [htree] at hslot
    rw [(hsame slot).bitmap_eq]
    exact hacq.fits slot hslot
  · intro slot hslot hdirty
    rw [htree] at hslot
    rw [(hsame slot).status_eq] at hdirty
    rw [(hsame slot).nsid_eq, (hsame slot).lpa_eq]
    exact hacq.served slot hslot hdirty
  · intro item hitem slot hslot hholder
    rw [htree] at hslot
    rw [(hsame slot).page_eq]
    exact hacq.writeback_gone item hitem slot hslot hholder

/-- A hit: the entry is locked, marked dirty and its bitmap extended. -/
theorem Acquired.hit (hmem : slot ∈ cache.tree) (hfree : holder slot = none)
    (hpage : (cache.entries slot).page = txn.page) (hfits : BitmapFits txn.bitmap)
    (hserves : layer.Serves back txn.nsid txn.lpa) :
    Acquired layer back low store owner (cache.setEntry slot
        { cache.entries slot with
          bitmap := (cache.entries slot).bitmap ||| txn.bitmap
          status := .dirty, pinCount := 1, mutex := ⟨some owner, []⟩ }
        (cache.lru.erase slot))
      (update holder slot (some owner))
      (held ++ [{ txn with entry := some slot }]) writebacks := by
  rw [← append_nil writebacks]
  refine hacq.extend [] (fun _ => hfree)
    (hacq.inv.setEntry rfl rfl rfl CacheEntryStatus.noConfusion hacq.inv.hold_lru) ?_
    (fun _ _ => rfl) hpage rfl ?_ ((hacq.fits slot hmem).or hfits) hserves ?_ ?_ (by simp) ?_
    (by simp)
  · intro other
    exact ⟨.inr, fun hother => hother.elim (fun hsame => hsame ▸ hmem) id⟩
  · intro sector hbit
    rw [getLsbD_or, hbit, Bool.or_true]
  · intro sector hbit hclear
    rw [getLsbD_or, Bool.or_eq_true] at hbit
    refine hacq.tracks.cached slot hmem sector (hbit.resolve_right hclear) ?_
    rintro ⟨item, hitem, hentry, -⟩
    exact hacq.entry_ne (fun _ => hfree) item hitem hentry
  · intro nsid lpa sector hclear hthis
    rw [append_nil]
    refine hacq.tracks.below nsid lpa sector ?_
    intro other hother hother_page hdirty hbit
    by_cases hsame : other = slot
    · subst hsame
      refine hthis hother_page ?_
      rw [getLsbD_or, hbit, Bool.true_or]
    · exact hclear other hother hsame hother_page hdirty hbit
  · rw [append_nil]
    exact hacq.writeback_nodup

/-- A miss with room: a new entry. -/
theorem Acquired.add {data : ℕ → D}
    (hmiss : cache.find txn.nsid txn.lpa = none) (hroom : cache.nrPages < cache.capacityPages)
    (hfits : BitmapFits txn.bitmap) (hserves : layer.Serves back txn.nsid txn.lpa) :
    Acquired layer back low store owner
      ((cache.newEntry txn.nsid txn.lpa txn.bitmap data).setEntry cache.nextEntry
        ⟨txn.nsid, txn.lpa, txn.bitmap, .dirty, 1, ⟨some owner, []⟩, data⟩ cache.lru)
      (update holder cache.nextEntry (some owner))
      (held ++ [{ txn with entry := some cache.nextEntry }]) writebacks := by
  have hfree : cache.nextEntry ∈ cache.tree → holder cache.nextEntry = none :=
    fun hmem => absurd (hacq.inv.below _ hmem) (lt_irrefl _)
  rw [← append_nil writebacks]
  refine hacq.extend [] hfree (hacq.inv.newEntry hmiss hroom _ rfl) ?_
    (fun _ hother => entries_newEntry_of_ne _ hother _ _ _ _) rfl rfl (fun _ hbit => hbit) hfits
    hserves (fun _ hbit hclear => absurd hbit hclear) ?_ (by simp) ?_ (by simp)
  · intro other
    simp [DataCache.newEntry, DataCache.addEntry, DataCache.modifyEntry]
  · intro nsid lpa sector hclear _
    rw [append_nil]
    refine hacq.tracks.below nsid lpa sector ?_
    intro other hother
    exact hclear other hother (hacq.inv.below other hother).ne
  · rw [append_nil]
    exact hacq.writeback_nodup

omit hacq

theorem Store.absorb_writeback (store : Store D) (entry : CacheEntry D)
    (buffer : ℕ → D) (nsid lpa sector : ℕ) :
    store.absorb (entry.writeback buffer) nsid lpa sector =
      if entry.page = (nsid, lpa) ∧ entry.bitmap.getLsbD sector then
        some (entry.data sector)
      else store nsid lpa sector := by
  rw [Store.absorb]
  by_cases hbit : entry.bitmap.getLsbD sector
  · simp [CacheEntry.writeback, CacheEntry.page, overlay, hbit, Prod.ext_iff, eq_comm]
  · simp [CacheEntry.writeback, hbit]

/-- The write-back of an evicted entry: a dirty one is copied, a clean one is
dropped. -/
inductive Evicted (entry : CacheEntry D) : List (Txn D) → Prop
  | dirty (buffer : ℕ → D) : entry.status = .dirty → Evicted entry [entry.writeback buffer]
  | clean : entry.status ≠ .dirty → Evicted entry []

variable {others : List (Txn D)}

theorem Evicted.length_le (hevicted : Evicted entry others) : others.length ≤ 1 := by
  cases hevicted with
  | dirty buffer hdirty => exact le_rfl
  | clean hclean => exact Nat.zero_le 1

/-- A miss without room: an unlocked entry is written back and reused. -/
theorem Acquired.evict (hacq : Acquired layer back low store owner cache holder held writebacks)
    (hmem : slot ∈ cache.tree) (hfree : holder slot = none)
    (hmiss : cache.find txn.nsid txn.lpa = none) (hfits : BitmapFits txn.bitmap)
    (hserves : layer.Serves back txn.nsid txn.lpa)
    (hevicted : Evicted (cache.entries slot) others) :
    Acquired layer back low store owner
      (((cache.evict slot).recycle slot txn.nsid txn.lpa txn.bitmap).setEntry slot
        ⟨txn.nsid, txn.lpa, txn.bitmap, .dirty, 1, ⟨some owner, []⟩,
          (cache.entries slot).data⟩ (cache.lru.erase slot)) (update holder slot (some owner))
      (held ++ [{ txn with entry := some slot }]) (writebacks ++ others) := by
  have hpage : ∀ item ∈ others, item.page = (cache.entries slot).page ∧
      item.type = .write ∧ item.bitmap = (cache.entries slot).bitmap ∧
      (cache.entries slot).status = .dirty := by
    intro item hitem
    cases hevicted with
    | dirty buffer hdirty =>
      rw [mem_singleton.mp hitem]
      exact ⟨rfl, rfl, rfl, hdirty⟩
    | clean hclean => simp at hitem
  refine hacq.extend others (fun _ => hfree) (hacq.inv.recycle hmem hmiss _ rfl) ?_
    (fun _ hother => entries_recycle_of_ne _ hother _ _ _) rfl rfl (fun _ hbit => hbit) hfits
    hserves (fun _ hbit hclear => absurd hbit hclear) ?_ ?_ ?_ ?_
  · intro other
    have htree : other ∈ ((cache.evict slot).recycle slot txn.nsid txn.lpa txn.bitmap).tree ↔
        other = slot ∨ other ≠ slot ∧ other ∈ cache.tree := by
      rw [← hacq.inv.nodup.mem_erase_iff, ← hacq.inv.tree_eraseTree hmem]
      simp [DataCache.recycle, DataCache.evict, DataCache.eraseTree,
        DataCache.addEntry, DataCache.modifyEntry]
    rw [htree, or_iff_not_imp_left, or_iff_not_imp_left]
    exact forall_congr' fun hne => and_iff_right hne
  · intro nsid lpa sector hothers _
    rw [Store.absorbAll_append]
    cases hevicted with
    | dirty buffer hdirty =>
      rw [Store.absorbAll, foldl_cons, foldl_nil, Store.absorb_writeback]
      split
      · rename_i hthis
        have hcached := hacq.tracks.cached slot hmem sector hthis.2 (by
          rintro ⟨item, hitem, hentry, -⟩
          exact hacq.entry_ne (fun _ => hfree) item hitem hentry)
        obtain ⟨rfl, rfl⟩ := CacheEntry.page_eq.mp hthis.1
        exact hcached.symm
      · rename_i hthis
        refine hacq.tracks.below nsid lpa sector ?_
        intro other hother hother_page hother_dirty hbit
        by_cases hsame : other = slot
        · rw [hsame] at hother_page hbit
          exact hthis ⟨hother_page, hbit⟩
        · exact hothers other hother hsame hother_page hother_dirty hbit
    | clean hclean =>
      refine hacq.tracks.below nsid lpa sector ?_
      intro other hother hother_page hother_dirty hbit
      by_cases hsame : other = slot
      · rw [hsame] at hother_dirty
        exact hclean hother_dirty
      · exact hothers other hother hsame hother_page hother_dirty hbit
  · intro item hitem
    obtain ⟨hitem_page, htype, hbitmap, hdirty⟩ := hpage item hitem
    obtain ⟨hnsid, hlpa⟩ := CacheEntry.page_eq_txn.mp hitem_page.symm
    refine ⟨htype, hbitmap ▸ hacq.fits slot hmem, ?_⟩
    rw [← hnsid, ← hlpa]
    exact hacq.served slot hmem hdirty
  · rw [map_append, nodup_append]
    refine ⟨hacq.writeback_nodup, ?_, ?_⟩
    · cases hevicted with
      | dirty buffer hdirty | clean hclean => simp
    · intro page hpage_mem other_page hother_page
      obtain ⟨item, hitem, rfl⟩ := mem_map.mp hpage_mem
      obtain ⟨item', hitem', rfl⟩ := mem_map.mp hother_page
      rw [(hpage item' hitem').1]
      exact (hacq.writeback_gone item hitem slot hmem hfree).symm
  · intro item hitem other hother hother_ne
    rw [(hpage item hitem).1]
    intro hsame
    obtain ⟨hnsid, hlpa⟩ := Prod.ext_iff.mp hsame
    exact hother_ne (hacq.inv.eq_of_same_page hother hmem hnsid hlpa)

end Acquire

end Soda
