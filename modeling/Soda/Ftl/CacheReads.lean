import Soda.Ftl.CacheWrites

/-!
# Reads through the data cache

`handle_cached_read`, run alone, answers from the store, whether a page is
cached, partly cached or not cached at all, and leaves the store as it is.
-/

namespace Soda

variable {D μ : Type}

open Function Prog Sys List Txn DataCache ReadItem

/-! ### Locking a list of entries -/

def lockAll (holder : ℕ → Option Tid) (owner : Tid) (slots : List ℕ) : ℕ → Option Tid :=
  fun slot => if slot ∈ slots then some owner else holder slot

section LockAll

variable {holder : ℕ → Option Tid} {owner : Tid} {slot : ℕ} {slots others : List ℕ}

@[simp]
theorem lockAll_nil : lockAll holder owner [] = holder := by
  funext other
  simp [lockAll]

theorem lockAll_of_mem (hmem : slot ∈ slots) : lockAll holder owner slots slot = some owner :=
  if_pos hmem

theorem lockAll_cons : lockAll holder owner (slot :: slots) =
    lockAll (update holder slot (some owner)) owner slots := by
  funext other
  by_cases hother : other = slot
  · simp [lockAll, hother]
  · simp [lockAll, hother]

theorem lockAll_lockAll : lockAll (lockAll holder owner slots) owner others =
    lockAll holder owner (slots ++ others) := by
  funext other
  by_cases hother : other ∈ others
  · simp [lockAll, hother]
  · simp [lockAll, hother]

theorem lockAll_congr (hsame : ∀ slot, slot ∈ slots ↔ slot ∈ others) :
    lockAll holder owner slots = lockAll holder owner others := by
  funext other
  simp only [lockAll, hsame]

theorem update_lockAll (hfree : holder slot = none) (hnotMem : slot ∉ slots) :
    update (lockAll holder owner (slot :: slots)) slot none = lockAll holder owner slots := by
  funext other
  by_cases hother : other = slot
  · simp [lockAll, hother, hnotMem, hfree]
  · simp [lockAll, hother]

end LockAll

def entrySlots (txns : List (Txn D)) : List ℕ := txns.filterMap entry

/-! ### Finding entries and buffers -/

/-- What the first loop makes of one transaction. -/
inductive Prepared (cache : DataCache D) (txn : Txn D) : ReadItem D → Prop
  | hit {slot : ℕ} : slot ∈ cache.tree → (cache.entries slot).page = txn.page →
      (∀ sector, txn.bitmap.getLsbD sector → (cache.entries slot).bitmap.getLsbD sector) →
      Prepared cache txn ⟨true, { txn with entry := some slot }⟩
  | partly {slot : ℕ} (data : ℕ → D) (bitmap : PageBitmap) : slot ∈ cache.tree →
      (cache.entries slot).page = txn.page → Prepared cache txn
        ⟨false, { txn with data := data, bitmap := bitmap, entry := some slot }⟩
  | missed (data : ℕ → D) (bitmap : PageBitmap) :
      (∀ slot ∈ cache.tree, (cache.entries slot).page = txn.page → ∀ sector,
        txn.bitmap.getLsbD sector → ¬(cache.entries slot).bitmap.getLsbD sector) →
      Prepared cache txn ⟨false, { txn with data := data, bitmap := bitmap, entry := none }⟩

theorem Prepared.alike {cache cache' : DataCache D} {txn : Txn D}
    {item : ReadItem D} (hprepared : Prepared cache' txn item)
    (halike : cache.Alike cache') : Prepared cache txn item := by
  have htree := halike.tree_eq
  cases hprepared with
  | hit hslot hpage hbits =>
    rw [htree] at hslot
    rw [(halike.same _).page_eq] at hpage
    rw [(halike.same _).bitmap_eq] at hbits
    exact .hit hslot hpage hbits
  | partly data bitmap hslot hpage =>
    rw [htree] at hslot
    rw [(halike.same _).page_eq] at hpage
    exact .partly data bitmap hslot hpage
  | missed data bitmap hclear =>
    refine .missed data bitmap ?_
    intro slot hslot hpage sector hbit
    rw [← htree] at hslot
    rw [← (halike.same slot).page_eq] at hpage
    rw [← (halike.same slot).bitmap_eq]
    exact hclear slot hslot hpage sector hbit

/-- The entry of a prepared transaction is the one of its page. -/
theorem Prepared.entry_page {cache : DataCache D} {txn : Txn D}
    {item : ReadItem D} {slot : ℕ} (hprepared : Prepared cache txn item)
    (hentry : item.txn.entry = some slot) :
    slot ∈ cache.tree ∧ (cache.entries slot).page = txn.page := by
  cases hprepared with
  | hit hslot hpage _ | partly data bitmap hslot hpage =>
    cases hentry
    exact ⟨hslot, hpage⟩
  | missed data bitmap _ => exact absurd hentry (by simp)

section Read

variable {lower : Tid → Wait → Sys D μ → Option (Answer D × Sys D μ)} {env : Env D}
  {tolerated : Fault → Prop} {virgin : D → Prop} {layer : MappingLayer lower env tolerated virgin}
  {back : μ} {low store : Store D} {cache : DataCache D} {holder : ℕ → Option Tid} {txn : Txn D}
  {txns : List (Txn D)} {s : Sys D μ} {tick credits : ℕ}
  {rules : Rules (Sys D μ) Wait (Answer D) Fault}

variable {left right : PageBitmap} {post : Unit → Sys D μ → Prop}

theorem and_eq_right_iff : left &&& right = right ↔
    ∀ sector, right.getLsbD sector → left.getLsbD sector := by
  constructor
  · intro heq sector hbit
    rw [← heq, BitVec.getLsbD_and, Bool.and_eq_true] at hbit
    exact hbit.1
  · intro hbits
    apply BitVec.eq_of_getLsbD_eq
    intro sector _
    rw [BitVec.getLsbD_and]
    cases hbit : right.getLsbD sector with
    | true => simp [hbits sector hbit]
    | false => simp

theorem and_eq_zero_iff : left &&& right = 0 ↔
    ∀ sector, right.getLsbD sector → ¬left.getLsbD sector := by
  constructor
  · intro heq sector hbit hleft
    have hand : (left &&& right).getLsbD sector = true := by
      rw [BitVec.getLsbD_and, hleft, hbit]
      rfl
    rw [heq] at hand
    simp at hand
  · intro hclear
    apply BitVec.eq_of_getLsbD_eq
    intro sector _
    rw [BitVec.getLsbD_and]
    cases hbit : right.getLsbD sector with
    | true => simp [hclear sector hbit]
    | false => simp

/-- Touching an entry makes it the most recently used one. -/
theorem wp_cacheTouchLru {slot : ℕ} (hinv : cache.Inv holder)
    (hslot : slot ∈ cache.tree) (hfree : holder slot = none)
    (hpost : ∀ cache', cache.Alike cache' → cache'.Inv holder → post () (s.dc cache' back tick)) :
    wp rules (cacheTouchLru slot) post (s.dc cache back tick) := by
  have hpin : (cache.entries slot).pinCount = 0 := by
    rw [hinv.pin_eq slot hslot, hfree]
    rfl
  have hmem : slot ∈ cache.lru := by
    rw [hinv.lru_perm.mem_iff, mem_unheldOf]
    exact ⟨hslot, hfree⟩
  have hself : update holder slot none = holder := by
    rw [← hfree, update_eq_self]
  have hinv' : (cache.setEntry slot { cache.entries slot with pinCount := 0 }
      (slot :: cache.lru.erase slot)).Inv (update holder slot none) := by
    refine hinv.setEntry rfl ?_ rfl (hinv.used slot hslot) ?_
    · rw [← hfree]
      exact hinv.mutex_eq slot hslot
    · rw [hself]
      exact (perm_cons_erase hmem).symm.trans hinv.lru_perm
  rw [hself] at hinv'
  rw [cacheTouchLru, wp_bind, wp_pinEntry, wp_unpinEntry (by simp)]
  rw [setEntry_setEntry, entries_setEntry_self]
  simp only [unpin, pin, entries_setEntry_self, hpin, if_true]
  exact hpost _ (DataCache.Alike.setEntry ⟨rfl, rfl, rfl, rfl⟩ rfl) hinv'

/-- One transaction of a read. -/
theorem wp_prepareRead (hreliable : env.Reliable) (hinv : cache.Inv holder)
    (hfree : ∀ slot ∈ cache.tree, (cache.entries slot).page = txn.page → holder slot = none)
    {post : Option (ReadItem D) → Sys D μ → Prop} (hpost : ∀ cache' tick' item, cache.Alike cache' →
      cache'.Inv (lockAll holder s.current (entrySlots [item.txn])) →
      Prepared cache txn item → post (some item) (s.dc cache' back tick')) :
    wp rules (prepareRead env txn) post (s.dc cache back tick) := by
  rw [prepareRead, wp_bind, wp_get, cache_dc]
  cases hfind : cache.find txn.nsid txn.lpa with
  | none =>
    simp only [wp_bind, wp_allocBuffer, tick_dc, hreliable _, if_true, advance_dc, wp_pure]
    refine hpost cache _ _ (.refl cache) ?_ (.missed _ _ ?_)
    · simpa [entrySlots] using hinv
    · intro slot hslot hpage
      obtain ⟨hnsid, hlpa⟩ := CacheEntry.page_eq_txn.mp hpage
      exact absurd hlpa (find_eq_none.mp hfind slot hslot hnsid)
  | some slot =>
    obtain ⟨hslot, hnsid, hlpa⟩ := mem_of_find hfind
    have hpage : (cache.entries slot).page = txn.page := CacheEntry.page_eq_txn.mpr ⟨hnsid, hlpa⟩
    have hlocked : lockAll holder s.current [slot] = update holder slot (some s.current) := by
      rw [lockAll_cons, lockAll_nil]
    by_cases hall : (cache.entries slot).bitmap &&& txn.bitmap = txn.bitmap
    · simp only [if_pos hall, wp_bind]
      apply wp_holdEntry_inv hinv hslot (hfree slot hslot hpage)
      intro cache' halike hinv'
      refine hpost cache' tick _ halike ?_ (.hit hslot hpage (and_eq_right_iff.mp hall))
      rw [← hlocked] at hinv'
      exact hinv'
    · simp only [if_neg hall, wp_bind, wp_allocBuffer, tick_dc, hreliable _,
        if_true, advance_dc, wp_ite]
      by_cases hsome : (cache.entries slot).bitmap &&& txn.bitmap = 0
      · simp only [hsome, ne_eq, not_true_eq_false, if_false]
        apply wp_cacheTouchLru hinv hslot (hfree slot hslot hpage)
        intro cache' halike hinv'
        refine hpost cache' _ _ halike ?_ (.missed _ _ ?_)
        · simpa [entrySlots] using hinv'
        · intro other hother hother_page sector hbit
          obtain ⟨hnsid', hlpa'⟩ := CacheEntry.page_eq_txn.mp hother_page
          obtain rfl : other = slot := hinv.eq_of_same_page hother hslot
            (hnsid'.trans hnsid.symm) (hlpa'.trans hlpa.symm)
          exact and_eq_zero_iff.mp hsome sector hbit
      · simp only [ne_eq, hsome, not_false_eq_true, if_true]
        apply wp_holdEntry_inv hinv hslot (hfree slot hslot hpage)
        intro cache' halike hinv'
        refine hpost cache' _ _ halike ?_ (.partly _ _ hslot hpage)
        rw [← hlocked] at hinv'
        exact hinv'

/-- First loop of `handle_cached_read`. -/
theorem wp_prepareReads (hreliable : env.Reliable) (hinv : cache.Inv holder)
    (hfree : ∀ txn ∈ txns, ∀ slot ∈ cache.tree,
      (cache.entries slot).page = txn.page → holder slot = none)
    (hpages : (txns.map page).Nodup) {post : Status × List (ReadItem D) → Sys D μ → Prop}
    (hpost : ∀ cache' tick' items, cache.Alike cache' → cache'.Inv (lockAll holder s.current
        (entrySlots (items.map ReadItem.txn))) → List.Forall₂ (Prepared cache) txns items →
      post (none, items) (s.dc cache' back tick')) :
    wp rules (prepareReads env txns) post (s.dc cache back tick) := by
  induction txns generalizing cache holder tick post with
  | nil =>
    refine hpost cache tick [] (.refl cache) ?_ List.Forall₂.nil
    simpa [entrySlots] using hinv
  | cons txn txns ih =>
    rw [map_cons, nodup_cons] at hpages
    rw [prepareReads, wp_bind]
    apply wp_prepareRead hreliable hinv (hfree txn mem_cons_self)
    intro cache' tick' item halike hinv' hitem
    rw [wp_bind]
    refine ih hinv' ?_ hpages.2 ?_
    · -- the entry just locked is for another page
      intro other hother slot hslot hpage
      rw [halike.tree_eq] at hslot
      rw [(halike.same slot).page_eq] at hpage
      have hnotMem : slot ∉ entrySlots [item.txn] := by
        intro hmem
        have hentry : item.txn.entry = some slot := by
          simpa [entrySlots] using hmem
        refine hpages.1 ?_
        rw [← (hitem.entry_page hentry).2, hpage]
        exact mem_map_of_mem hother
      rw [lockAll, if_neg hnotMem]
      exact hfree other (.tail txn hother) slot hslot hpage
    · intro cache'' tick'' items halike' hinv'' hitems
      refine hpost cache'' tick'' (item :: items) (halike.trans halike') ?_ ?_
      · have hslots : lockAll (lockAll holder s.current (entrySlots [item.txn]))
            s.current (entrySlots (items.map ReadItem.txn)) = lockAll holder s.current
              (entrySlots ((item :: items).map ReadItem.txn)) := by
          rw [lockAll_lockAll, map_cons, entrySlots, entrySlots, ← filterMap_append]
          rfl
        rw [← hslots]
        exact hinv''
      · exact List.Forall₂.cons hitem (hitems.imp fun _ _ hprepared => hprepared.alike halike)

variable {items : List (ReadItem D)}

/-- The entries locked for a request are all different. -/
theorem entrySlots_nodup (hpages : (txns.map page).Nodup)
    (hitems : List.Forall₂ (Prepared cache) txns items) :
    (entrySlots (items.map ReadItem.txn)).Nodup := by
  induction hitems with
  | nil => exact nodup_nil
  | @cons txn item txns items hitem hitems ih =>
    rw [map_cons, nodup_cons] at hpages
    rw [map_cons, entrySlots, filterMap_cons]
    cases hentry : item.txn.entry with
    | none => exact ih hpages.2
    | some slot =>
      refine nodup_cons.mpr ⟨?_, ih hpages.2⟩
      intro hmem
      obtain ⟨other, hother, hsame⟩ := mem_filterMap.mp hmem
      obtain ⟨item', hitem', rfl⟩ := mem_map.mp hother
      obtain ⟨txn', htxn', hprepared⟩ := exists_of_mem_right hitems hitem'
      refine hpages.1 ?_
      rw [← (hitem.entry_page hentry).2, (hprepared.entry_page hsame).2]
      exact mem_map_of_mem htxn'

/-! ### Copying cached sectors over -/

/-- What the second loop makes of a transaction that was read from below. -/
def overlaid (cache : DataCache D) (txn : Txn D) : Txn D :=
  match txn.entry with
  | none => txn
  | some slot => { txn with data := overlayCached txn (cache.entries slot) }

theorem overlaid_alike {cache' : DataCache D} (halike : cache.Alike cache') :
    overlaid cache' = overlaid cache := by
  have hcopy : ∀ (txn : Txn D) slot, overlayCached txn (cache'.entries slot) =
      overlayCached txn (cache.entries slot) := by
    intro txn slot
    funext sector
    rw [overlayCached, overlayCached, (halike.same slot).bitmap_eq, halike.data_eq slot]
  funext txn
  simp only [overlaid, hcopy]

/-- Second loop of `handle_cached_read`. -/
theorem wp_overlayMisses (hreliable : env.Reliable) {others : List ℕ}
    (hinv : cache.Inv (lockAll unheld s.current (entrySlots txns ++ others)))
    (hslots : ∀ slot ∈ entrySlots txns, slot ∈ cache.tree)
    (hnodup : (entrySlots txns ++ others).Nodup) {post : Status × List (Txn D) → Sys D μ → Prop}
    (hpost : ∀ cache' tick', cache.Alike cache' → cache'.Inv (lockAll unheld s.current others) →
      post (none, txns.map (overlaid cache)) (s.dc cache' back tick')) :
    wp (aloneOver lower env tolerated False) (overlayMisses none txns) post
      (s.dc cache back tick) := by
  induction txns generalizing cache tick post with
  | nil => exact hpost cache tick (.refl cache) hinv
  | cons txn txns ih =>
    cases hentry : txn.entry with
    | none =>
      have hsame : entrySlots (txn :: txns) = entrySlots txns := by
        rw [entrySlots, filterMap_cons, hentry]
        rfl
      rw [hsame] at hinv hslots hnodup
      rw [overlayMisses, hentry]
      simp only [wp_bind, wp_pure]
      refine ih hinv hslots hnodup ?_
      intro cache' tick' halike hinv'
      have hresult := hpost cache' tick' halike hinv'
      rw [map_cons, overlaid, hentry] at hresult
      exact hresult
    | some slot =>
      have hcons : entrySlots (txn :: txns) = slot :: entrySlots txns := by
        rw [entrySlots, filterMap_cons, hentry]
        rfl
      rw [hcons, cons_append] at hinv hnodup
      rw [hcons] at hslots
      rw [nodup_cons] at hnodup
      rw [overlayMisses, hentry]
      simp only [if_true, wp_bind, wp_await, onBlock_zdma, wp_get, tick_dc,
        hreliable _, wp_pure, cache_dc]
      apply wp_releaseEntry_inv hinv (hslots slot mem_cons_self) (lockAll_of_mem mem_cons_self)
      intro cache' halike hinv'
      rw [update_lockAll rfl hnodup.1] at hinv'
      refine ih hinv' ?_ hnodup.2 ?_
      · intro other hother
        rw [halike.tree_eq]
        exact hslots other (.tail slot hother)
      · intro cache'' tick'' halike' hinv''
        have hresult := hpost cache'' tick'' (halike.trans halike') hinv''
        simp only [map_cons, overlaid, hentry] at hresult
        rw [overlaid_alike halike]
        exact hresult

/-- `cleanup` of `handle_cached_read`. -/
theorem wp_releaseHits
    (hinv : cache.Inv (lockAll unheld s.current
      (entrySlots ((items.filter ReadItem.hit).map ReadItem.txn))))
    (hslots : ∀ slot ∈ entrySlots ((items.filter ReadItem.hit).map ReadItem.txn), slot ∈ cache.tree)
    (hnodup : (entrySlots ((items.filter ReadItem.hit).map ReadItem.txn)).Nodup)
    (hpost : ∀ cache', cache.Alike cache' → cache'.Inv unheld → post () (s.dc cache' back tick)) :
    wp rules (releaseHits items) post (s.dc cache back tick) := by
  induction items generalizing cache with
  | nil =>
    refine hpost cache (.refl cache) ?_
    simpa [entrySlots] using hinv
  | cons item items ih =>
    obtain ⟨hit, txn⟩ := item
    cases hit with
    | false =>
      exact ih hinv hslots hnodup hpost
    | true =>
      cases hentry : txn.entry with
      | none =>
        have hsame : entrySlots (((⟨true, txn⟩ :: items).filter ReadItem.hit).map ReadItem.txn) =
            entrySlots ((items.filter ReadItem.hit).map ReadItem.txn) := by
          simp [entrySlots, hentry]
        rw [hsame] at hinv hslots hnodup
        simp only [releaseHits, hentry]
        exact ih hinv hslots hnodup hpost
      | some slot =>
        have hcons : entrySlots (((⟨true, txn⟩ :: items).filter ReadItem.hit).map ReadItem.txn) =
            slot :: entrySlots ((items.filter ReadItem.hit).map ReadItem.txn) := by
          simp [entrySlots, hentry]
        rw [hcons] at hinv hslots hnodup
        rw [nodup_cons] at hnodup
        simp only [releaseHits, hentry, wp_bind]
        apply wp_releaseEntry_inv hinv (hslots slot mem_cons_self) (lockAll_of_mem mem_cons_self)
        intro cache' halike hinv'
        rw [update_lockAll rfl hnodup.1] at hinv'
        refine ih hinv' ?_ hnodup.2 ?_
        · intro other hother
          rw [halike.tree_eq]
          exact hslots other (.tail slot hother)
        · intro cache'' halike' hinv''
          exact hpost cache'' (halike.trans halike') hinv''

/-! ### What the host is sent -/

/-- Namespace, logical page and sector, in the order of the transfer. -/
def Txn.positions (txn : Txn D) : List (ℕ × ℕ × ℕ) :=
  txn.sectors.map fun sector => (txn.nsid, txn.lpa, sector)

/-- An answer for one sector: its last content, and something virgin when the
page was never written. -/
structure Served (store : Store D) (virgin : D → Prop) (position : ℕ × ℕ × ℕ)
    (value : D) : Prop where
  last : ∀ written, store position.1 position.2.1 position.2.2 = some written → value = written
  blank : (∀ sector, store position.1 position.2.1 sector = none) → virgin value

theorem covers_of_mem_sectors {sector : ℕ} (hmem : sector ∈ txn.sectors) : txn.covers sector := by
  obtain ⟨index, hindex, rfl⟩ := mem_map.mp hmem
  rw [mem_range] at hindex
  refine ⟨Nat.le_add_right _ _, ?_⟩
  have hsum : txn.offset / 2 ^ sectorShift + txn.length / 2 ^ sectorShift ≤
      (txn.offset + txn.length) / 2 ^ sectorShift := Nat.div_add_div_le_add_div
  omega

theorem served_sectors {content : ℕ → D}
    (hcontent : ∀ sector, txn.covers sector →
      Served store virgin (txn.nsid, txn.lpa, sector) (content sector)) :
    List.Forall₂ (Served store virgin) txn.positions (txn.sectors.map content) := by
  rw [positions, forall₂_map_left_iff, forall₂_map_right_iff, forall₂_same]
  intro sector hmem
  exact hcontent sector (covers_of_mem_sectors hmem)

section Contents

variable (htracks : Tracks cache low store fun _ _ => False)
include htracks

variable {sector : ℕ}

theorem Tracks.store_of_bit {slot : ℕ} (hslot : slot ∈ cache.tree)
    (hpage : (cache.entries slot).page = txn.page)
    (hbit : (cache.entries slot).bitmap.getLsbD sector) :
    store txn.nsid txn.lpa sector = some ((cache.entries slot).data sector) := by
  obtain ⟨hnsid, hlpa⟩ := CacheEntry.page_eq_txn.mp hpage
  rw [← hnsid, ← hlpa]
  exact htracks.cached slot hslot sector hbit not_false

/-- A valid sector of an entry is a good answer. -/
theorem Tracks.served_cached {slot : ℕ} (hslot : slot ∈ cache.tree)
    (hpage : (cache.entries slot).page = txn.page)
    (hbit : (cache.entries slot).bitmap.getLsbD sector) :
    Served store virgin (txn.nsid, txn.lpa, sector) ((cache.entries slot).data sector) := by
  have hstore := htracks.store_of_bit hslot hpage hbit
  constructor
  · intro written hwritten
    exact Option.some.inj (hstore.symm.trans hwritten)
  · intro hblank
    exact absurd (hstore.symm.trans (hblank sector)) (by simp)

/-- Where no entry has the sector, what was read from below is a good
answer. -/
theorem Tracks.served_below {prior txn' : Txn D} (hread : ReadResult low virgin prior txn')
    (hprior : prior.nsid = txn.nsid ∧ prior.lpa = txn.lpa ∧
      ∀ sector, prior.covers sector ↔ txn.covers sector) (hcovers : txn.covers sector)
    (hclear : ∀ slot ∈ cache.tree, (cache.entries slot).page = txn.page →
      ¬(cache.entries slot).bitmap.getLsbD sector) :
    Served store virgin (txn.nsid, txn.lpa, sector) (txn'.data sector) := by
  obtain ⟨hnsid, hlpa, hsame⟩ := hprior
  constructor
  · intro written hwritten
    refine hread.data_eq sector written ((hsame sector).mpr hcovers) ?_
    rw [hnsid, hlpa, htracks.below txn.nsid txn.lpa sector]
    · exact hwritten
    · intro slot hslot hpage _
      exact hclear slot hslot hpage
  · intro hblank
    refine hread.blank ?_ sector ((hsame sector).mpr hcovers)
    intro other
    rw [hnsid, hlpa, htracks.below txn.nsid txn.lpa other]
    · exact hblank other
    · intro slot hslot hpage _ hbit
      have hstore := htracks.store_of_bit hslot hpage hbit
      exact absurd (hstore.symm.trans (hblank other)) (by simp)

end Contents

variable {prior txn' : Txn D} {missed : List (Txn D)}

theorem covers_of_read (hread : ReadResult low virgin prior txn')
    (sector : ℕ) : txn'.covers sector ↔ prior.covers sector := by
  rw [covers, covers, hread.offset_eq, hread.length_eq]

theorem served_overlaid (hread : ReadResult low virgin prior txn')
    (hprior : prior.offset = txn.offset ∧ prior.length = txn.length)
    (hcontent : ∀ sector, txn.covers sector → Served store virgin (txn.nsid, txn.lpa, sector)
        ((overlaid cache txn').data sector)) :
    List.Forall₂ (Served store virgin) txn.positions
      ((overlaid cache txn').sectors.map (overlaid cache txn').data) := by
  have hsectors : (overlaid cache txn').sectors = txn.sectors := by
    have hoverlaid : (overlaid cache txn').sectors = txn'.sectors := by
      cases hentry : txn'.entry with
      | none => simp only [overlaid, hentry]
      | some slot =>
        simp only [overlaid, hentry]
        rfl
    rw [hoverlaid, sectors, sectors, hread.offset_eq, hread.length_eq, hprior.1, hprior.2]
  rw [hsectors]
  exact served_sectors hcontent

/-- The transfer to the host answers from the store. -/
theorem gather_served {cache' : DataCache D} (hinv : cache.Inv holder)
    (htracks : Tracks cache low store fun _ _ => False)
    (halike : cache.Alike cache') (hexact : ∀ txn ∈ txns, txn.Exact)
    (hitems : List.Forall₂ (Prepared cache) txns items)
    (hmissed : List.Forall₂ (ReadResult low virgin) (misses items) missed) :
    List.Forall₂ (Served store virgin) (txns.flatMap positions)
      (gather cache' (replaceMisses items (missed.map (overlaid cache)))) := by
  induction hitems generalizing missed with
  | nil => exact List.Forall₂.nil
  | @cons txn item txns items hitem hitems ih =>
    have hexact' := hexact txn mem_cons_self
    have hrest : ∀ missed, List.Forall₂ (ReadResult low virgin) (misses items) missed →
        List.Forall₂ (Served store virgin) (txns.flatMap positions)
          (gather cache' (replaceMisses items (missed.map (overlaid cache)))) :=
      fun missed => ih fun item hitem => hexact item (.tail txn hitem)
    have hunique : ∀ {slot other : ℕ}, slot ∈ cache.tree →
        (cache.entries slot).page = txn.page → other ∈ cache.tree →
        (cache.entries other).page = txn.page → other = slot := by
      intro slot other hslot hpage hother hother_page
      obtain ⟨hnsid, hlpa⟩ := Prod.ext_iff.mp (hother_page.trans hpage.symm)
      exact hinv.eq_of_same_page hother hslot hnsid hlpa
    cases hitem with
    | @hit slot hslot hpage hbits =>
      refine rel_append ?_ (hrest missed hmissed)
      change List.Forall₂ _ txn.positions (txn.sectors.map (cache'.entries slot).data)
      rw [halike.data_eq]
      refine served_sectors ?_
      intro sector hcovers
      exact htracks.served_cached hslot hpage (hbits sector ((hexact' sector).mpr hcovers))
    | @partly slot data bitmap hslot hpage =>
      cases hmissed with
      | @cons _ txn' _ missed hread hmissed =>
        refine rel_append ?_ (hrest missed hmissed)
        refine served_overlaid hread ⟨rfl, rfl⟩ ?_
        intro sector hcovers
        have hentry : txn'.entry = some slot := hread.entry_eq
        simp only [overlaid, hentry, overlayCached]
        by_cases hbit : (cache.entries slot).bitmap.getLsbD sector
        · rw [if_pos ⟨(covers_of_read hread sector).mpr hcovers, hbit⟩]
          exact htracks.served_cached hslot hpage hbit
        · rw [if_neg fun hboth => hbit hboth.2]
          refine htracks.served_below hread ⟨rfl, rfl, fun _ => Iff.rfl⟩ hcovers ?_
          intro other hother hother_page
          rw [hunique hslot hpage hother hother_page]
          exact hbit
    | missed data bitmap hclear =>
      cases hmissed with
      | @cons _ txn' _ missed hread hmissed =>
        refine rel_append ?_ (hrest missed hmissed)
        refine served_overlaid hread ⟨rfl, rfl⟩ ?_
        intro sector hcovers
        have hentry : txn'.entry = none := hread.entry_eq
        simp only [overlaid, hentry]
        refine htracks.served_below hread ⟨rfl, rfl, fun _ => Iff.rfl⟩ hcovers ?_
        intro slot hslot hpage
        exact hclear slot hslot hpage sector ((hexact' sector).mpr hcovers)

/-! ### The whole read -/

theorem filter_replaceMisses (items : List (ReadItem D)) (missed : List (Txn D)) :
    (replaceMisses items missed).filter hit = items.filter hit := by
  induction items generalizing missed with
  | nil => rfl
  | cons item items ih =>
    obtain ⟨hit, txn⟩ := item
    cases hit with
    | true => simp [replaceMisses, ih]
    | false =>
      cases missed with
      | nil | cons txn' missed => simp [replaceMisses, ih]

/-- The entries of a read are those of its misses and those of its hits. -/
theorem entrySlots_perm (items : List (ReadItem D)) :
    (entrySlots (misses items) ++ entrySlots ((items.filter ReadItem.hit).map ReadItem.txn)).Perm
      (entrySlots (items.map ReadItem.txn)) := by
  rw [entrySlots, entrySlots, ← filterMap_append, misses, ← map_append]
  refine List.Perm.filterMap _ (List.Perm.map _ ?_)
  refine perm_append_comm.trans ?_
  exact filter_append_perm hit items

theorem entrySlots_of_read (hread : List.Forall₂ (ReadResult low virgin) txns missed) :
    entrySlots missed = entrySlots txns := by
  induction hread with
  | nil => rfl
  | cons hhead _ ih =>
    rw [entrySlots, entrySlots, filterMap_cons, filterMap_cons, hhead.entry_eq]
    rw [entrySlots, entrySlots] at ih
    rw [ih]

theorem Prepared.txn_eq {item : ReadItem D} (hprepared : Prepared cache txn item) :
    item.txn.type = txn.type ∧ item.txn.nsid = txn.nsid ∧ item.txn.lpa = txn.lpa := by
  cases hprepared with
  | hit _ _ _ | partly _ _ _ _ | missed _ _ _ => exact ⟨rfl, rfl, rfl⟩

/-- `handle_cached_read` answers from the store. -/
theorem wp_handleCachedRead (hreliable : env.Reliable) (htype : ∀ txn ∈ txns, txn.type = .read)
    (hexact : ∀ txn ∈ txns, txn.Exact) (hserves : ∀ txn ∈ txns, layer.Serves back txn.nsid txn.lpa)
    (hpages : (txns.map page).Nodup)
    (hcached : Cached layer (credits + txns.length) cache unheld back store)
    {post : Status × List D → Sys D μ → Prop} (hpost : ∀ cache' back' tick' data,
      List.Forall₂ (Served store virgin) (txns.flatMap positions) data →
      Cached layer credits cache' unheld back' store →
      (∀ nsid lpa, layer.Serves back nsid lpa → layer.Serves back' nsid lpa) →
      cache.Alike cache' → post (none, data) (s.dc cache' back' tick')) :
    wp (aloneOver lower env tolerated False)
      (handleCachedRead env layer.dispatch txns) post (s.dc cache back tick) := by
  obtain ⟨low, hholds, htracks⟩ := hcached.tracks
  rw [handleCachedRead, wp_bind]
  apply wp_prepareReads hreliable hcached.inv (fun _ _ _ _ _ => rfl) hpages
  intro cache₁ tick₁ items halike₁ hinv₁ hitems
  have hmissed : ∀ txn ∈ misses items, txn.type = .read ∧ layer.Serves back txn.nsid txn.lpa := by
    intro txn htxn
    obtain ⟨item, hitem, rfl⟩ := mem_map.mp htxn
    obtain ⟨prior, hprior, hprepared⟩ := exists_of_mem_right hitems (mem_of_mem_filter hitem)
    obtain ⟨htype', hnsid, hlpa⟩ := hprepared.txn_eq
    rw [htype', hnsid, hlpa]
    exact ⟨htype prior hprior, hserves prior hprior⟩
  have hcount : (misses items).length ≤ txns.length := by
    rw [misses, length_map, hitems.length_eq]
    exact length_filter_le _ _
  simp only [if_true, wp_bind]
  refine wp_mono (layer.read_spec
    (layer.holds_mono (Nat.add_le_add_left hcount credits) hholds) hmissed) ?_
  rintro ⟨status, missed⟩ s' ⟨rfl, hread, hframe, hserves', hholds'⟩
  have hstate : s' = s.dc cache₁ s'.back s'.tick := hframe
  -- the locked entries: those behind misses and those behind hits
  let hits := entrySlots ((items.filter hit).map txn)
  have hperm : (entrySlots missed ++ hits).Perm (entrySlots (items.map txn)) := by
    rw [entrySlots_of_read hread]
    exact entrySlots_perm items
  have hnodup : (entrySlots missed ++ hits).Nodup :=
    hperm.nodup_iff.mpr (entrySlots_nodup hpages hitems)
  have htree : ∀ slot ∈ entrySlots missed ++ hits, slot ∈ cache.tree := by
    intro slot hslot
    obtain ⟨txn, htxn, hentry⟩ := mem_filterMap.mp (hperm.mem_iff.mp hslot)
    obtain ⟨item, hitem, rfl⟩ := mem_map.mp htxn
    obtain ⟨prior, -, hprepared⟩ := exists_of_mem_right hitems hitem
    exact (hprepared.entry_page hentry).1
  rw [lockAll_congr fun slot => hperm.mem_iff.symm] at hinv₁
  simp only [if_true, wp_bind]
  rw [hstate]
  apply wp_overlayMisses hreliable hinv₁ _ hnodup
  · intro cache₂ tick₂ halike₂ hinv₂
    simp only [wp_await, onBlock_hostDma, wp_get, tick_dc, hreliable _, if_true, wp_pure, cache_dc]
    have hhits : entrySlots ((((replaceMisses items
        (missed.map (overlaid cache₁))).reverse).filter hit).map txn) = hits.reverse := by
      rw [filter_reverse, filter_replaceMisses, map_reverse, entrySlots, filterMap_reverse]
      rfl
    rw [nodup_append] at hnodup
    apply wp_releaseHits
    · rw [hhits, lockAll_congr fun slot => mem_reverse]
      exact hinv₂
    · rw [hhits]
      intro slot hslot
      rw [halike₂.tree_eq, halike₁.tree_eq]
      exact htree slot (mem_append_right _ (mem_reverse.mp hslot))
    · rw [hhits]
      exact nodup_reverse.mpr hnodup.2.1
    · intro cache₃ halike₃ hinv₃
      have halike := halike₁.trans (halike₂.trans halike₃)
      refine hpost cache₃ s'.back _ _ ?_ ?_ hserves' halike
      · rw [overlaid_alike halike₁]
        exact gather_served hcached.inv htracks (halike₁.trans halike₂) hexact hitems hread
      · have hbelow : Cached layer credits cache unheld s'.back store :=
          ⟨hcached.inv, ⟨low, hholds', htracks⟩, hcached.fits, fun slot hslot hdirty =>
              hserves' _ _ (hcached.served slot hslot hdirty)⟩
        exact hbelow.alike halike hinv₃
  · intro slot hslot
    rw [halike₁.tree_eq]
    exact htree slot (mem_append_left _ hslot)

end Read

end Soda
