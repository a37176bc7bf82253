import Soda.Ftl.CacheReads
import Soda.Ftl.Ftl

/-!
# Flushing the data cache

`dc_flush_ns`, run with nothing else going on, leaves the store as it is and no
dirty entry of the namespace in the cache: the index of `flush_cache_range`
moves past every dirty entry after having it written.
-/

namespace Soda

variable {D μ : Type}

open Prog Sys List Function Txn

/-! ### Looking up a range -/

structure DataCache.Flushable (cache : DataCache D) (nsid tag start stop slot : ℕ) : Prop where
  mem : slot ∈ cache.tree
  dirty : (cache.entries slot).status = .dirty
  nsid_eq : (cache.entries slot).nsid = nsid
  start_le : start ≤ (cache.entries slot).lpa
  lt_stop : (cache.entries slot).lpa < stop
  tag_eq : (cache.entries slot).lpa % nrFlushers = tag

theorem DataCache.Flushable.alike {cache cache' : DataCache D}
    {nsid tag start stop slot : ℕ} (halike : cache.Alike cache')
    (hslot : cache.Flushable nsid tag start stop slot) :
    cache'.Flushable nsid tag start stop slot := by
  have hsame := halike.same slot
  constructor
  · rw [halike.tree_eq]
    exact hslot.mem
  · rw [hsame.status_eq, hslot.dirty]
  · rw [hsame.nsid_eq, hslot.nsid_eq]
  · rw [hsame.lpa_eq]
    exact hslot.start_le
  · rw [hsame.lpa_eq]
    exact hslot.lt_stop
  · rw [hsame.lpa_eq, hslot.tag_eq]

section Lookup

variable {cache : DataCache D} {nsid index stop tag nr next slot : ℕ} {slots : List ℕ}

theorem CacheEntry.key_le {left : CacheEntry D} {nsid lpa : ℕ} :
    toLex (nsid, lpa) ≤ left.key ↔ nsid < left.nsid ∨ nsid = left.nsid ∧ lpa ≤ left.lpa :=
  Prod.Lex.toLex_le_toLex

theorem CacheEntry.key_lt {left right : CacheEntry D} :
    left.key < right.key ↔ left.nsid < right.nsid ∨ left.nsid = right.nsid ∧ left.lpa < right.lpa :=
  Prod.Lex.toLex_lt_toLex

/-- The range of `cache_lookup_range`, before it is cut to the batch size. -/
def foundRange (cache : DataCache D) (nsid index stop tag : ℕ) : List ℕ :=
  ((cache.tree.dropWhile fun slot =>
    (cache.entries slot).key < toLex (nsid, index)).takeWhile fun slot =>
    (cache.entries slot).nsid = nsid ∧ (cache.entries slot).lpa < stop).filter
  fun slot => (cache.entries slot).status = .dirty ∧ (cache.entries slot).lpa % nrFlushers = tag

variable (hsorted : cache.tree.Pairwise fun left right =>
  (cache.entries left).key < (cache.entries right).key)
include hsorted

theorem mem_foundRange :
    slot ∈ foundRange cache nsid index stop tag ↔ cache.Flushable nsid tag index stop slot := by
  have hdropped := hsorted.sublist (dropWhile_sublist fun slot =>
    decide ((cache.entries slot).key < toLex (nsid, index)))
  rw [foundRange, mem_filter, mem_takeWhile_of_sorted hdropped,
    mem_dropWhile_lt hsorted, CacheEntry.key_le]
  · simp only [decide_eq_true_eq]
    constructor
    · rintro ⟨⟨⟨hmem, hle⟩, hnsid, hlt⟩, hdirty, htag⟩
      exact ⟨hmem, hdirty, hnsid, by omega, hlt, htag⟩
    · intro hslot
      exact ⟨⟨⟨hslot.mem, .inr ⟨hslot.nsid_eq.symm, hslot.start_le⟩⟩,
        hslot.nsid_eq, hslot.lt_stop⟩, hslot.dirty, hslot.tag_eq⟩
  · intro left hleft right _ hlt hright
    rw [mem_dropWhile_lt hsorted, CacheEntry.key_le] at hleft
    rw [CacheEntry.key_lt] at hlt
    simp only [decide_eq_true_eq] at hright ⊢
    omega

theorem foundRange_sorted :
    (foundRange cache nsid index stop tag).Pairwise fun left right =>
      (cache.entries left).key < (cache.entries right).key := by
  refine hsorted.sublist ?_
  exact filter_sublist.trans ((takeWhile_sublist _).trans (dropWhile_sublist _))

/-- A batch of `cache_lookup_range` and the place to go on from. -/
structure Batch (cache : DataCache D) (nsid tag index stop : ℕ) (slots : List ℕ)
    (next : ℕ) : Prop where
  nodup : slots.Nodup
  flushable : ∀ slot ∈ slots, cache.Flushable nsid tag index stop slot
  complete : ∀ slot, cache.Flushable nsid tag index stop slot →
    (cache.entries slot).lpa < next → slot ∈ slots
  advances : slots ≠ [] → index < next
  exhausted : slots = [] → next = stop

theorem cacheLookupRange_batch (hlt : index < stop) (hnr : 0 < nr)
    (hlookup : cacheLookupRange cache nsid index stop tag nr = (slots, next)) :
    Batch cache nsid tag index stop slots next := by
  have hfound : (foundRange cache nsid index stop tag).Pairwise _ := foundRange_sorted hsorted
  have hnodup : (foundRange cache nsid index stop tag).Nodup := by
    refine hfound.imp ?_
    rintro left right hless rfl
    exact lt_irrefl _ hless
  rw [cacheLookupRange, ← foundRange] at hlookup
  split at hlookup
  · rename_i hle
    cases hlast : ((foundRange cache nsid index stop tag).take nr).getLast? with
    | none =>
      -- the batch is full, so it has a last entry
      rw [getLast?_eq_none_iff, take_eq_nil_iff] at hlast
      rcases hlast with rfl | hempty
      · exact absurd hnr (lt_irrefl 0)
      · rw [hempty, length_nil] at hle
        omega
    | some last =>
      rw [hlast] at hlookup
      obtain ⟨rfl, rfl⟩ := Prod.mk.inj hlookup
      have hmem := mem_of_mem_take (mem_of_getLast? hlast)
      have hlast' := (mem_foundRange hsorted).mp hmem
      refine ⟨hnodup.sublist (take_sublist _ _), ?_, ?_, ?_, ?_⟩
      · intro slot hslot
        exact (mem_foundRange hsorted).mp (mem_of_mem_take hslot)
      · intro slot hslot hbefore
        refine mem_take_of_le_getLast hfound hlast ((mem_foundRange hsorted).mpr hslot) ?_
        refine CacheEntry.key_le.mpr (.inr ⟨?_, Nat.le_of_lt_succ hbefore⟩)
        exact hslot.nsid_eq.trans hlast'.nsid_eq.symm
      · intro _
        exact Nat.lt_succ_of_le hlast'.start_le
      · intro hnil
        rw [hnil] at hlast
        exact absurd hlast (by simp)
  · obtain ⟨rfl, rfl⟩ := Prod.mk.inj hlookup
    refine ⟨hnodup, ?_, ?_, fun _ => hlt, fun _ => rfl⟩
    · intro slot hslot
      exact (mem_foundRange hsorted).mp hslot
    · intro slot hslot _
      exact (mem_foundRange hsorted).mpr hslot

end Lookup

/-! ### Cleaning entries -/

/-- Besides locks, pins and the order of use only the status of some entries
differs: they are clean now. -/
structure DataCache.Cleaned (cache : DataCache D) (slots : List ℕ)
    (cache' : DataCache D) : Prop where
  tree_eq : cache'.tree = cache.tree
  capacity_eq : cache'.capacityPages = cache.capacityPages
  page_eq : ∀ slot, (cache'.entries slot).page = (cache.entries slot).page
  bitmap_eq : ∀ slot, (cache'.entries slot).bitmap = (cache.entries slot).bitmap
  data_eq : ∀ slot, (cache'.entries slot).data = (cache.entries slot).data
  status_eq : ∀ slot, (cache'.entries slot).status =
    if slot ∈ slots then .clean else (cache.entries slot).status

theorem DataCache.Alike.cleaned {cache cache' : DataCache D}
    (halike : cache.Alike cache') : cache.Cleaned [] cache' := by
  refine ⟨halike.tree_eq, halike.capacity_eq, fun slot => (halike.same slot).page_eq,
    fun slot => (halike.same slot).bitmap_eq, halike.data_eq, ?_⟩
  intro slot
  rw [(halike.same slot).status_eq, if_neg not_mem_nil]

namespace DataCache.Cleaned

variable {cache cache' cache'' : DataCache D} {slots others : List ℕ}

theorem trans (hfirst : cache.Cleaned slots cache') (hsecond : cache'.Cleaned others cache'') :
    cache.Cleaned (slots ++ others) cache'' := by
  refine ⟨hsecond.tree_eq.trans hfirst.tree_eq, hsecond.capacity_eq.trans hfirst.capacity_eq,
    fun slot => (hsecond.page_eq slot).trans (hfirst.page_eq slot),
    fun slot => (hsecond.bitmap_eq slot).trans (hfirst.bitmap_eq slot),
    fun slot => (hsecond.data_eq slot).trans (hfirst.data_eq slot), ?_⟩
  intro slot
  rw [hsecond.status_eq, hfirst.status_eq]
  by_cases hother : slot ∈ others
  · simp [hother]
  · simp [hother]

theorem setEntry {slot : ℕ} {lru : List ℕ} :
    cache.Cleaned [slot] (cache.setEntry slot
      { cache.entries slot with status := .clean } lru) := by
  have hentries : ∀ other, other ≠ slot → (cache.setEntry slot
      { cache.entries slot with status := .clean } lru).entries other = cache.entries other :=
    fun other hother => entries_setEntry_of_ne cache hother _ _
  refine ⟨rfl, rfl, ?_, ?_, ?_, ?_⟩
  all_goals
    intro other
    by_cases hother : other = slot
    · subst hother
      simp [CacheEntry.page]
    · simp [hentries other hother, hother]

theorem dirty_iff (hcleaned : cache.Cleaned slots cache') (slot : ℕ) :
    (cache'.entries slot).status = .dirty ↔
      slot ∉ slots ∧ (cache.entries slot).status = .dirty := by
  rw [hcleaned.status_eq]
  by_cases hslot : slot ∈ slots
  · simp [hslot]
  · simp [hslot]

/-- What a flusher still has to do afterwards it had to do before. -/
theorem flushable (hcleaned : cache.Cleaned slots cache') {nsid tag start stop slot : ℕ}
    (hslot : cache'.Flushable nsid tag start stop slot) :
    slot ∉ slots ∧ cache.Flushable nsid tag start stop slot := by
  obtain ⟨hnsid, hlpa⟩ := Prod.ext_iff.mp (hcleaned.page_eq slot)
  obtain ⟨hnotMem, hdirty⟩ := (hcleaned.dirty_iff slot).mp hslot.dirty
  have hmem := hslot.mem
  have hfields := hslot
  rw [hcleaned.tree_eq] at hmem
  refine ⟨hnotMem, hmem, hdirty, ?_, ?_, ?_, ?_⟩
  · exact hnsid.symm.trans hslot.nsid_eq
  · exact hslot.start_le.trans_eq hlpa
  · exact hlpa.symm.trans_lt hslot.lt_stop
  · rw [← hslot.tag_eq]
    exact congrArg (· % nrFlushers) hlpa.symm

end DataCache.Cleaned

/-! ### Counting dirty entries -/

def DataCache.dirtyCount (cache : DataCache D) : ℕ :=
  (cache.tree.filter fun slot => (cache.entries slot).status = .dirty).length

section Count

variable {cache cache' : DataCache D} {holder : ℕ → Option Tid} {slots : List ℕ}
  (hnodup : slots.Nodup) (hslots : ∀ slot ∈ slots, slot ∈ cache.tree)
  (hdirty : ∀ slot ∈ slots, (cache.entries slot).status = .dirty)

include hnodup hslots hdirty

theorem DataCache.length_le_dirtyCount : slots.length ≤ cache.dirtyCount := by
  refine (subperm_of_subset hnodup ?_).length_le
  intro slot hslot
  exact mem_filter.mpr ⟨hslots slot hslot, decide_eq_true (hdirty slot hslot)⟩

theorem DataCache.Cleaned.dirtyCount_eq (hinv : cache.Inv holder)
    (hcleaned : cache.Cleaned slots cache') :
    cache'.dirtyCount = cache.dirtyCount - slots.length := by
  have hperm : (cache.tree.filter fun slot =>
      (cache.entries slot).status = .dirty).Perm
      (slots ++ cache'.tree.filter fun slot =>
        (cache'.entries slot).status = .dirty) := by
    have hdisjoint : ∀ slot ∈ slots, ∀ other ∈ cache'.tree.filter fun slot =>
        (cache'.entries slot).status = .dirty, slot ≠ other := by
      rintro slot hslot other hother rfl
      have hstill := of_decide_eq_true (mem_filter.mp hother).2
      exact ((hcleaned.dirty_iff slot).mp hstill).1 hslot
    rw [hcleaned.tree_eq] at hdisjoint ⊢
    refine (perm_ext_iff_of_nodup (hinv.nodup.filter _)
      (nodup_append.mpr ⟨hnodup, hinv.nodup.filter _, hdisjoint⟩)).mpr ?_
    intro slot
    simp only [mem_append, mem_filter, decide_eq_true_eq, hcleaned.dirty_iff]
    by_cases hslot : slot ∈ slots
    · simp [hslot, hslots slot hslot, hdirty slot hslot]
    · simp [hslot]
  have hlength := hperm.length_eq
  rw [length_append] at hlength
  rw [dirtyCount, dirtyCount, hlength, Nat.add_sub_cancel_left]

end Count

section Flush

variable {lower : Tid → Wait → Sys D μ → Option (Answer D × Sys D μ)} {env : Env D}
  {tolerated : Fault → Prop} {virgin : D → Prop} {layer : MappingLayer lower env tolerated virgin}
  {back : μ} {low store : Store D} {cache : DataCache D} {txns : List (Txn D)} {slots : List ℕ}
  {s : Sys D μ} {tick nsid tag start stop index credits : ℕ}
  {rules : Rules (Sys D μ) Wait (Answer D) Fault}

def BatchTxn (cache : DataCache D) (slot : ℕ) (txn : Txn D) : Prop :=
  ∃ buffer, txn = { (cache.entries slot).writeback buffer with entry := some slot }

variable {cache' : DataCache D}

theorem BatchTxn.alike {slot : ℕ} {txn : Txn D} (halike : cache.Alike cache')
    (hbatch : BatchTxn cache' slot txn) : BatchTxn cache slot txn := by
  obtain ⟨buffer, rfl⟩ := hbatch
  refine ⟨buffer, ?_⟩
  have hsame := halike.same slot
  simp only [CacheEntry.writeback, hsame.nsid_eq, hsame.lpa_eq, hsame.bitmap_eq,
    halike.data_eq slot]

variable {holder : ℕ → Option Tid} {post : Unit → Sys D μ → Prop}

/-- The loop of `flush_cache_range` that copies the batch. -/
theorem wp_collectBatch (hreliable : env.Reliable) (hinv : cache.Inv holder) (hnodup : slots.Nodup)
    (hslots : ∀ slot ∈ slots, cache.Flushable nsid tag start stop slot ∧ holder slot = none)
    {post : List (Txn D) → Sys D μ → Prop} (hpost : ∀ cache' tick' txns, cache.Alike cache' →
      cache'.Inv (lockAll holder s.current slots) → List.Forall₂ (BatchTxn cache) slots txns →
      post txns (s.dc cache' back tick')) :
    wp rules (collectBatch env nsid tag start stop slots) post (s.dc cache back tick) := by
  induction slots generalizing cache holder tick post with
  | nil =>
    refine hpost cache tick [] (.refl cache) ?_ List.Forall₂.nil
    exact hinv
  | cons slot slots ih =>
    obtain ⟨hslot, hfree⟩ := hslots slot mem_cons_self
    rw [nodup_cons] at hnodup
    have hwanted : ¬((cache.entries slot).status ≠ .dirty ∨
        (cache.entries slot).nsid ≠ nsid ∨ (cache.entries slot).lpa < start ∨
        stop ≤ (cache.entries slot).lpa ∨ (cache.entries slot).lpa % nrFlushers ≠ tag) := by
      simp [hslot.dirty, hslot.nsid_eq, hslot.start_le, hslot.lt_stop, hslot.tag_eq]
    simp only [collectBatch, wp_bind, wp_get, cache_dc, wp_ite]
    refine (if_neg hwanted).mpr ?_
    apply wp_holdEntry_inv hinv hslot.mem hfree
    intro cache' halike hinv'
    simp only [generateWriteback, wp_bind, wp_get, wp_allocBuffer, tick_dc,
      hreliable _, if_true, wp_pure, cache_dc]
    refine ih hinv' hnodup.2 ?_ ?_
    · intro other hother
      obtain ⟨hflush, hother_free⟩ := hslots other (.tail slot hother)
      have hne : other ≠ slot := by
        rintro rfl
        exact hnodup.1 hother
      refine ⟨hflush.alike halike, ?_⟩
      rw [update_of_ne hne]
      exact hother_free
    · intro cache'' tick'' txns halike' hinv'' htxns
      refine hpost cache'' tick'' _ (halike.trans halike') ?_ ?_
      · rw [lockAll_cons]
        exact hinv''
      · refine List.Forall₂.cons ?_ (htxns.imp fun _ _ => BatchTxn.alike halike)
        exact BatchTxn.alike halike ⟨_, rfl⟩

/-- The loop of `flush_cache_range` after the dispatch. -/
theorem wp_finishBatch (hinv : cache.Inv (lockAll unheld s.current slots))
    (hnodup : slots.Nodup) (hslots : ∀ slot ∈ slots, slot ∈ cache.tree)
    (hentries : txns.map entry = slots.map some)
    (hpost : ∀ cache', cache.Cleaned slots cache' → cache'.Inv unheld →
      post () (s.dc cache' back tick)) :
    wp rules (finishBatch txns) post (s.dc cache back tick) := by
  induction slots generalizing cache txns with
  | nil =>
    rw [map_nil, map_eq_nil_iff] at hentries
    subst hentries
    exact hpost cache (DataCache.Alike.refl cache).cleaned hinv
  | cons slot slots ih =>
    cases txns with
    | nil => exact absurd hentries (by simp)
    | cons txn txns =>
      obtain ⟨hentry, hrest⟩ := List.cons.inj hentries
      rw [nodup_cons] at hnodup
      have hslot := hslots slot mem_cons_self
      have hheld : lockAll unheld s.current (slot :: slots) slot =
          some s.current := lockAll_of_mem mem_cons_self
      let entry : CacheEntry D := { cache.entries slot with status := .clean }
      have hinv₁ : (cache.setEntry slot entry cache.lru).Inv
          (lockAll unheld s.current (slot :: slots)) :=
        hinv.update hslot hheld rfl rfl rfl CacheEntryStatus.noConfusion
      simp only [finishBatch, hentry, wp_bind, wp_modify, modifyEntry_dc]
      apply wp_releaseEntry_inv hinv₁ hslot hheld
      intro cache₂ halike hinv₂
      rw [update_lockAll rfl hnodup.1] at hinv₂
      have hcleaned : cache.Cleaned [slot] cache₂ := DataCache.Cleaned.setEntry.trans halike.cleaned
      refine ih hinv₂ hnodup.2 ?_ hrest ?_
      · intro other hother
        rw [halike.tree_eq]
        exact hslots other (.tail slot hother)
      · intro cache₃ hcleaned' hinv₃
        exact hpost cache₃ (hcleaned.trans hcleaned') hinv₃

theorem map_entry_of_batch (htxns : List.Forall₂ (BatchTxn cache) slots txns) :
    txns.map entry = slots.map some := by
  induction htxns with
  | nil => rfl
  | cons hhead _ ih =>
    obtain ⟨buffer, rfl⟩ := hhead
    rw [map_cons, map_cons, ih]

theorem map_page_of_batch (htxns : List.Forall₂ (BatchTxn cache) slots txns) :
    txns.map page = slots.map fun slot => (cache.entries slot).page := by
  induction htxns with
  | nil => rfl
  | cons hhead _ ih =>
    obtain ⟨buffer, rfl⟩ := hhead
    rw [map_cons, map_cons, ih]
    rfl

/-- The transactions of a batch are for different pages. -/
theorem DataCache.Inv.batch_pages
    (hinv : cache.Inv holder) (hslots : ∀ slot ∈ slots, slot ∈ cache.tree)
    (hnodup : slots.Nodup) (htxns : List.Forall₂ (BatchTxn cache) slots txns) :
    (txns.map page).Nodup := by
  rw [map_page_of_batch htxns]
  refine List.Nodup.map_on ?_ hnodup
  intro left hleft right hright hsame
  obtain ⟨hnsid, hlpa⟩ := Prod.ext_iff.mp hsame
  exact hinv.eq_of_same_page (hslots left hleft) (hslots right hright) hnsid hlpa

/-- Entries that have been written below can be clean. -/
theorem Tracks.cleaned (hinv : cache.Inv holder) (htracks : Tracks cache low store fun _ _ => False)
    (hslots : ∀ slot ∈ slots, slot ∈ cache.tree) (hnodup : slots.Nodup)
    (htxns : List.Forall₂ (BatchTxn cache) slots txns) (hcleaned : cache.Cleaned slots cache') :
    Tracks cache' (low.absorbAll txns) store fun _ _ => False := by
  constructor
  · intro slot hslot sector hbit _
    rw [hcleaned.tree_eq] at hslot
    rw [hcleaned.bitmap_eq] at hbit
    obtain ⟨hnsid, hlpa⟩ := Prod.ext_iff.mp (hcleaned.page_eq slot)
    change (cache'.entries slot).nsid = (cache.entries slot).nsid at hnsid
    change (cache'.entries slot).lpa = (cache.entries slot).lpa at hlpa
    rw [hnsid, hlpa, hcleaned.data_eq]
    exact htracks.cached slot hslot sector hbit not_false
  · intro nsid lpa sector hclear
    by_cases hwritten : ∃ slot ∈ slots, (cache.entries slot).page = (nsid, lpa) ∧
        (cache.entries slot).bitmap.getLsbD sector
    · obtain ⟨slot, hslot, hpage, hbit⟩ := hwritten
      obtain ⟨txn, htxn, buffer, rfl⟩ := exists_of_mem_left htxns hslot
      have habsorbed : low.absorbAll txns _ _ sector = _ :=
        Store.absorbAll_of_mem (hinv.batch_pages hslots hnodup htxns) htxn hbit
      obtain ⟨rfl, rfl⟩ := CacheEntry.page_eq.mp hpage
      rw [htracks.cached slot (hslots slot hslot) sector hbit not_false]
      refine habsorbed.trans ?_
      simp [CacheEntry.writeback, overlay, hbit]
    · rw [Store.absorbAll_of_clear]
      · refine htracks.below nsid lpa sector ?_
        intro slot hslot hpage hdirty hbit
        have hnotMem : slot ∉ slots := fun hmem => hwritten ⟨slot, hmem, hpage, hbit⟩
        rw [← hcleaned.tree_eq] at hslot
        rw [← hcleaned.page_eq] at hpage
        rw [← hcleaned.bitmap_eq] at hbit
        exact hclear slot hslot hpage ((hcleaned.dirty_iff slot).mpr ⟨hnotMem, hdirty⟩) hbit
      · intro txn htxn hpage hbit
        obtain ⟨slot, hslot, buffer, rfl⟩ := exists_of_mem_right htxns htxn
        exact hwritten ⟨slot, hslot, hpage, hbit⟩

/-! ### The whole flush -/

/-- A flush from this state is over: it has cleaned some entries, and every
dirty entry has the credit for its transaction. -/
structure Flushed (layer : MappingLayer lower env tolerated virgin) (credits : ℕ)
    (cache : DataCache D) (back : μ) (store : Store D) (slots : List ℕ)
    (cache' : DataCache D) (back' : μ) : Prop where
  cached : Cached layer (credits + cache'.dirtyCount) cache' unheld back' store
  cleaned : cache.Cleaned slots cache'
  serves : ∀ nsid lpa, layer.Serves back nsid lpa → layer.Serves back' nsid lpa

theorem Flushed.refl (hcached : Cached layer (credits + cache.dirtyCount) cache unheld back store) :
    Flushed layer credits cache back store [] cache back :=
  ⟨hcached, (DataCache.Alike.refl cache).cleaned, fun _ _ hserved => hserved⟩

theorem Flushed.trans {cache'' : DataCache D} {back' back'' : μ} {others : List ℕ}
    (hfirst : Flushed layer credits cache back store slots cache' back')
    (hsecond : Flushed layer credits cache' back' store others cache'' back'') :
    Flushed layer credits cache back store (slots ++ others) cache'' back'' :=
  ⟨hsecond.cached, hfirst.cleaned.trans hsecond.cleaned, fun nsid lpa hserved =>
    hsecond.serves nsid lpa (hfirst.serves nsid lpa hserved)⟩

variable (hreliable : env.Reliable)
include hreliable

/-- One round of `flush_cache_range`. -/
theorem wp_flushBatch (hcached : Cached layer (credits + cache.dirtyCount) cache unheld back store)
    (hnodup : slots.Nodup) (hslots : ∀ slot ∈ slots, cache.Flushable nsid tag start stop slot)
    {next : Coro D μ Unit} (hpost : ∀ cache' back' tick',
      Flushed layer credits cache back store slots cache' back' →
      wp (aloneOver lower env tolerated False) next post (s.dc cache' back' tick')) :
    wp (aloneOver lower env tolerated False) (do
        let txns ← collectBatch env nsid tag start stop slots
        let result ← layer.dispatch txns
        finishBatch result.2
        next) post (s.dc cache back tick) := by
  obtain ⟨low, hholds, htracks⟩ := hcached.tracks
  have htree : ∀ slot ∈ slots, slot ∈ cache.tree := fun slot hslot => (hslots slot hslot).mem
  rw [wp_bind]
  apply wp_collectBatch hreliable hcached.inv hnodup fun slot hslot => ⟨hslots slot hslot, rfl⟩
  intro cache₁ tick₁ txns halike hinv₁ htxns
  have hwrites : ∀ txn ∈ txns, txn.type = .write ∧ BitmapFits txn.bitmap ∧
      layer.Serves back txn.nsid txn.lpa := by
    intro txn htxn
    obtain ⟨slot, hslot, buffer, rfl⟩ := exists_of_mem_right htxns htxn
    exact ⟨rfl, hcached.fits slot (htree slot hslot),
      hcached.served slot (htree slot hslot) (hslots slot hslot).dirty⟩
  have hpages := hcached.inv.batch_pages htree hnodup htxns
  have hdirty : ∀ slot ∈ slots, (cache.entries slot).status = .dirty :=
    fun slot hslot => (hslots slot hslot).dirty
  have hlength : txns.length = slots.length := htxns.length_eq.symm
  have hcredits : credits + (cache.dirtyCount - slots.length) + txns.length ≤
      credits + cache.dirtyCount := by
    have hle := DataCache.length_le_dirtyCount hnodup htree hdirty
    omega
  rw [wp_bind]
  refine wp_mono (layer.write_spec (layer.holds_mono hcredits hholds) hwrites hpages) ?_
  rintro ⟨status, written⟩ s' ⟨-, hentries, hframe, hserves, hholds'⟩
  have hstate : s' = s.dc cache₁ s'.back s'.tick := hframe
  rw [hstate]
  simp only [wp_bind]
  apply wp_finishBatch hinv₁ hnodup
  · intro slot hslot
    rw [halike.tree_eq]
    exact htree slot hslot
  · rw [hentries, map_entry_of_batch htxns]
  · intro cache₂ hcleaned₂ hinv₂
    have hcleaned : cache.Cleaned slots cache₂ := halike.cleaned.trans hcleaned₂
    rw [← DataCache.Cleaned.dirtyCount_eq hnodup htree hdirty hcached.inv hcleaned] at hholds'
    refine hpost cache₂ s'.back s'.tick ⟨⟨hinv₂, ?_, ?_, ?_⟩, hcleaned, hserves⟩
    · exact ⟨_, hholds', htracks.cleaned hcached.inv htree hnodup htxns hcleaned⟩
    · intro slot hslot
      rw [hcleaned.tree_eq] at hslot
      rw [hcleaned.bitmap_eq]
      exact hcached.fits slot hslot
    · intro slot hslot hstill
      rw [hcleaned.tree_eq] at hslot
      obtain ⟨hnsid, hlpa⟩ := Prod.ext_iff.mp (hcleaned.page_eq slot)
      have hserved := hcached.served slot hslot ((hcleaned.dirty_iff slot).mp hstill).2
      rw [← show _ = (cache.entries slot).nsid from hnsid,
        ← show _ = (cache.entries slot).lpa from hlpa] at hserved
      exact hserves _ _ hserved

/-- `flush_cache_range`: nothing is left to flush when it ends. -/
theorem wp_flushCacheRange {rounds : ℕ} (hrounds : stop ≤ index + rounds)
    (hbehind : ∀ slot, cache.Flushable nsid tag 0 stop slot → index ≤ (cache.entries slot).lpa)
    (hcached : Cached layer (credits + cache.dirtyCount) cache unheld back store)
    (hpost : ∀ slots cache' back' tick', Flushed layer credits cache back store slots cache' back' →
      (∀ slot, ¬cache'.Flushable nsid tag 0 stop slot) → post () (s.dc cache' back' tick')) :
    wp (aloneOver lower env tolerated False)
      (flushCacheRange env layer.dispatch nsid tag 0 stop rounds index) post
      (s.dc cache back tick) := by
  induction rounds generalizing index cache back tick post with
  | zero =>
    refine hpost [] cache back tick (.refl hcached) ?_
    intro slot hslot
    have hle := hbehind slot hslot
    have hlt := hslot.lt_stop
    omega
  | succ rounds ih =>
    simp only [flushCacheRange, wp_ite]
    by_cases hlt : index < stop
    · simp only [if_pos hlt, wp_bind, wp_get, cache_dc]
      obtain ⟨slots, next, hlookup⟩ : ∃ slots next,
          cacheLookupRange cache nsid index stop tag wbBatchSize = (slots, next) := ⟨_, _, rfl⟩
      simp only [hlookup]
      have hbatch := cacheLookupRange_batch hcached.inv.sorted hlt (by decide) hlookup
      have hrange : ∀ slot, cache.Flushable nsid tag 0 stop slot →
          cache.Flushable nsid tag index stop slot := fun slot hslot =>
        { hslot with start_le := hbehind slot hslot }
      by_cases hempty : slots = []
      · simp only [if_pos hempty, wp_pure]
        refine hpost [] cache back tick (.refl hcached) ?_
        intro slot hslot
        have hmem := hbatch.complete slot (hrange slot hslot) (by
          rw [hbatch.exhausted hempty]
          exact hslot.lt_stop)
        rw [hempty] at hmem
        exact absurd hmem not_mem_nil
      · simp only [if_neg hempty]
        have hflush : ∀ slot ∈ slots, cache.Flushable nsid tag 0 stop slot :=
          fun slot hslot =>
            { hbatch.flushable slot hslot with start_le := Nat.zero_le _ }
        refine wp_flushBatch hreliable hcached hbatch.nodup hflush ?_
        intro cache₁ back₁ tick₁ hflushed
        have hadvances := hbatch.advances hempty
        refine ih (by omega) ?_ hflushed.cached ?_
        · -- what is still dirty lies behind the new index
          intro slot hslot
          obtain ⟨hnotMem, hbefore⟩ := hflushed.cleaned.flushable hslot
          have hlpa : (cache₁.entries slot).lpa = (cache.entries slot).lpa :=
            (Prod.ext_iff.mp (hflushed.cleaned.page_eq slot)).2
          rw [hlpa]
          by_contra hlt'
          exact hnotMem (hbatch.complete slot (hrange slot hbefore) (not_le.mp hlt'))
        · intro others cache₂ back₂ tick₂ hflushed' hnone
          exact hpost _ cache₂ back₂ tick₂ (hflushed.trans hflushed') hnone
    · simp only [if_neg hlt, wp_pure]
      refine hpost [] cache back tick (.refl hcached) ?_
      intro slot hslot
      have hle := hbehind slot hslot
      have hlt' := hslot.lt_stop
      omega

/-- One round of `flusher_main`. -/
theorem wp_flusherRound (hactive : s.flusher.active index = some nsid)
    (hcached : Cached layer (credits + cache.dirtyCount) cache unheld back store)
    (hpost : ∀ slots cache' back' tick', Flushed layer credits cache back store slots cache' back' →
      (∀ slot, ¬cache'.Flushable nsid index 0 lpaEnd slot) →
      post () ({ s with flusher := { s.flusher with
        active := update s.flusher.active index none } }.dc cache' back' tick')) :
    wp (aloneOver lower env tolerated False)
      (flusherRound env layer.dispatch index) post (s.dc cache back tick) := by
  rw [flusherRound, wp_bind, wp_get, flusher_dc]
  simp only [hactive, wp_bind]
  refine wp_flushCacheRange hreliable (by norm_num [lpaEnd]) (fun _ _ => Nat.zero_le _) hcached ?_
  exact hpost

/-- One flusher after the other. -/
theorem wp_runFlusherList {indexes : List ℕ}
    (hactive : ∀ index ∈ indexes, s.flusher.active index = some nsid) (hnodup : indexes.Nodup)
    (hcached : Cached layer (credits + cache.dirtyCount) cache unheld back store)
    (hpost : ∀ slots cache' back' tick' active' current',
      Flushed layer credits cache back store slots cache' back' →
      (∀ tag ∈ indexes, ∀ slot, ¬cache'.Flushable nsid tag 0 lpaEnd slot) →
      (∀ index, active' index = if index ∈ indexes then none else s.flusher.active index) →
      post () ({ s with
        flusher := ⟨s.flusher.flushing, active'⟩, current := current' }.dc cache' back' tick')) :
    wp (aloneOver lower env tolerated False) (runFlusherList env layer.dispatch indexes) post
      (s.dc cache back tick) := by
  induction indexes generalizing s cache back tick post with
  | nil =>
    refine hpost [] cache back tick s.flusher.active s.current (.refl hcached) nofun ?_
    intro index
    rw [if_neg not_mem_nil]
  | cons index indexes ih =>
    rw [nodup_cons] at hnodup
    rw [runFlusherList, wp_bind, wp_modify, wp_bind]
    refine wp_flusherRound hreliable (s := { s with current := flusherTid index })
      (hactive index mem_cons_self) hcached ?_
    intro slots cache₁ back₁ tick₁ hflushed hnone
    refine ih ?_ hnodup.2 hflushed.cached ?_
    · intro other hother
      have hne : other ≠ index := by
        rintro rfl
        exact hnodup.1 hother
      change update s.flusher.active index none other = _
      rw [update_of_ne hne]
      exact hactive other (.tail index hother)
    · intro others cache₂ back₂ tick₂ active' current' hflushed' hnone' hactive'
      refine hpost _ cache₂ back₂ tick₂ active' current' (hflushed.trans hflushed') ?_ ?_
      · intro tag htag slot hslot
        rcases mem_cons.mp htag with rfl | hrest
        · exact hnone slot (hflushed'.cleaned.flushable hslot).2
        · exact hnone' tag hrest slot hslot
      · intro other
        have hvalue := hactive' other
        change _ = if other ∈ indexes then none
          else update s.flusher.active index none other at hvalue
        by_cases hother : other = index
        · rw [hvalue, hother]
          simp
        · rw [hvalue, update_of_ne hother]
          simp [hother]

def FlusherState.Idle (flusher : FlusherState) : Prop :=
  flusher.flushing = false ∧ ∀ index < nrFlushers, flusher.active index = none

/-- `dc_flush_ns`: afterwards the namespace has no dirty entry. -/
theorem wp_dcFlushNs (hidle : s.flusher.Idle)
    (hcached : Cached layer (credits + cache.dirtyCount) cache unheld back store)
    (hpost : ∀ slots cache' back' tick' flusher',
      Flushed layer credits cache back store slots cache' back' →
      (∀ slot ∈ cache'.tree, (cache'.entries slot).nsid = nsid →
        (cache'.entries slot).lpa < lpaEnd → (cache'.entries slot).status ≠ .dirty) →
      flusher'.Idle → post () ({ s with flusher := flusher' }.dc cache' back' tick')) :
    wp (aloneOver lower env tolerated False) (dcFlushNs (runFlushers env layer.dispatch) nsid) post
      (s.dc cache back tick) := by
  obtain ⟨hflushing, hnone⟩ := hidle
  have hassert : decide (∀ index < nrFlushers, s.flusher.active index = none) = true :=
    decide_eq_true hnone
  simp only [dcFlushNs, startFlushSync, wp_bind, wp_get, flusher_dc, hflushing,
    Bool.false_eq_true, if_false, wp_assert, wp_modify, runFlushers]
  refine (if_pos hassert).mpr ?_
  have hstarted : ∀ index ∈ range nrFlushers,
      (if index < nrFlushers then some nsid else none) = some nsid :=
    fun index hindex => if_pos (mem_range.mp hindex)
  refine wp_runFlusherList hreliable
    (s := { s with flusher := ⟨true, fun index =>
      if index < nrFlushers then some nsid else none⟩ }) hstarted
    nodup_range hcached ?_
  · intro slots cache' back' tick' active' current' hflushed hclean hactive
    refine hpost slots cache' back' tick' ⟨false, active'⟩ hflushed ?_ ⟨rfl, ?_⟩
    · intro slot hslot hnsid hlt hdirty
      refine hclean ((cache'.entries slot).lpa % nrFlushers) ?_ slot
        ⟨hslot, hdirty, hnsid, Nat.zero_le _, hlt, rfl⟩
      exact mem_range.mpr (Nat.mod_lt _ (by decide))
    · intro index hindex
      exact (hactive index).trans (if_pos (mem_range.mpr hindex))

end Flush

end Soda
