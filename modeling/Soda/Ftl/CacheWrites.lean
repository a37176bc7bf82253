import Soda.Ftl.CacheRefinement

/-!
# Writes through the data cache

`write_buffers`, run alone, makes the store remember what the host sent,
whether the pages were cached, fitted in beside the others or took the place
of another page.
-/

namespace Soda

variable {D μ : Type}

open Prog Sys DataCache List Function Option Txn Store

/-! ### Symbolic execution -/

/-- The parts of the state that the data cache changes. -/
def Sys.dc (s : Sys D μ) (cache : DataCache D) (back : μ) (tick : ℕ) : Sys D μ :=
  { s with cache := cache, back := back, tick := tick }

theorem dc_self (s : Sys D μ) : s.dc s.cache s.back s.tick = s := rfl

section Dc

variable {s : Sys D μ} {cache : DataCache D} {back : μ} {tick slot : ℕ}
  {rules : Rules (Sys D μ) Wait (Answer D) Fault} {post : Unit → Sys D μ → Prop}

@[simp]
theorem cache_dc : (s.dc cache back tick).cache = cache := rfl

@[simp]
theorem back_dc : (s.dc cache back tick).back = back := rfl

@[simp]
theorem tick_dc : (s.dc cache back tick).tick = tick := rfl

@[simp]
theorem current_dc : (s.dc cache back tick).current = s.current := rfl

@[simp]
theorem flusher_dc : (s.dc cache back tick).flusher = s.flusher := rfl

theorem advance_dc (tick' : ℕ) :
    { s.dc cache back tick with tick := tick' } = s.dc cache back tick' := rfl

theorem modifyCache_dc (update : DataCache D → DataCache D) :
    (s.dc cache back tick).modifyCache update = s.dc (update cache) back tick := rfl

theorem modifyEntry_dc (update : CacheEntry D → CacheEntry D) :
    (s.dc cache back tick).modifyEntry slot update =
      s.dc (cache.setEntry slot (update (cache.entries slot)) cache.lru) back tick := rfl

theorem wp_pinEntry :
    wp rules (pinEntry slot) post (s.dc cache back tick) ↔ post () (s.dc (cache.setEntry slot
        { cache.entries slot with
          pinCount := (cache.entries slot).pinCount + 1 }
        (cache.pin slot).lru) back tick) := Iff.rfl

theorem wp_unpinEntry (hpinned : 0 < (cache.entries slot).pinCount) :
    wp rules (unpinEntry slot) post (s.dc cache back tick) ↔ post () (s.dc (cache.setEntry slot
        { cache.entries slot with
          pinCount := (cache.entries slot).pinCount - 1 }
        (cache.unpin slot).lru) back tick) := by
  simp only [unpinEntry, wp_bind, wp_get, wp_assert, cache_dc, hpinned,
    decide_true, if_true, wp_modify, modifyCache_dc]
  exact Iff.rfl

theorem wp_lockEntry (hfree : (cache.entries slot).mutex = ⟨none, []⟩) :
    wp rules (lockEntry slot) post (s.dc cache back tick) ↔ post () (s.dc (cache.setEntry slot
        { cache.entries slot with mutex := ⟨some s.current, []⟩ } cache.lru) back tick) := by
  rw [lockEntry, wp_lockWith_free (by rw [cache_dc, hfree]), modifyEntry_dc, hfree, current_dc]

theorem wp_unlockEntry (hheld : (cache.entries slot).mutex = ⟨some s.current, []⟩) :
    wp rules (unlockEntry slot) post (s.dc cache back tick) ↔ post () (s.dc (cache.setEntry slot
        { cache.entries slot with mutex := ⟨none, []⟩ } cache.lru) back tick) := by
  rw [unlockEntry, wp_modify, modifyEntry_dc, hheld, current_dc]
  simp [Mutex.unlock]

/-- An entry that nobody holds is pinned and locked. -/
theorem wp_holdEntry (hmutex : (cache.entries slot).mutex = ⟨none, []⟩)
    (hpin : (cache.entries slot).pinCount = 0) (hpost : post () (s.dc (cache.setEntry slot
      { cache.entries slot with pinCount := 1, mutex := ⟨some s.current, []⟩ }
      (cache.lru.erase slot)) back tick)) :
    wp rules (pinEntry slot) (fun _ middle => wp rules (lockEntry slot) post middle)
      (s.dc cache back tick) := by
  have hlru : (cache.pin slot).lru = cache.lru.erase slot := by
    rw [pin, if_pos hpin]
  rw [wp_pinEntry, wp_lockEntry (by rw [entries_setEntry_self, hmutex]),
    setEntry_setEntry, entries_setEntry_self, hpin, hlru]
  exact hpost

/-- An entry that the coroutine holds is unlocked and unpinned. -/
theorem wp_releaseEntry (hmutex : (cache.entries slot).mutex = ⟨some s.current, []⟩)
    (hpin : (cache.entries slot).pinCount = 1) (hpost : post () (s.dc (cache.setEntry slot
      { cache.entries slot with pinCount := 0, mutex := ⟨none, []⟩ }
      (slot :: cache.lru)) back tick)) :
    wp rules (unlockEntry slot) (fun _ middle => wp rules (unpinEntry slot) post middle)
      (s.dc cache back tick) := by
  rw [wp_unlockEntry hmutex, wp_unpinEntry (by simp [hpin]),
    setEntry_setEntry, entries_setEntry_self, hpin]
  have hlru : ((cache.setEntry slot
      { cache.entries slot with mutex := ⟨none, []⟩ } cache.lru).unpin slot).lru =
        slot :: cache.lru := by
    rw [unpin, if_pos (by rw [entries_setEntry_self, hpin])]
    rfl
  rw [hlru]
  exact hpost

/-- Holding changes nothing else. -/
theorem wp_holdEntry_inv {holder : ℕ → Option Tid} (hinv : cache.Inv holder)
    (hmem : slot ∈ cache.tree) (hfree : holder slot = none) (hpost : ∀ cache', cache.Alike cache' →
      cache'.Inv (update holder slot (some s.current)) → post () (s.dc cache' back tick)) :
    wp rules (pinEntry slot) (fun _ middle => wp rules (lockEntry slot) post middle)
      (s.dc cache back tick) := by
  apply wp_holdEntry
  · rw [hinv.mutex_eq slot hmem, hfree]
  · rw [hinv.pin_eq slot hmem, hfree]
    rfl
  · apply hpost
    · exact .setEntry ⟨rfl, rfl, rfl, rfl⟩ rfl
    · exact hinv.setEntry rfl rfl rfl (hinv.used slot hmem) hinv.hold_lru

/-- Releasing changes nothing else. -/
theorem wp_releaseEntry_inv {holder : ℕ → Option Tid} (hinv : cache.Inv holder)
    (hmem : slot ∈ cache.tree) (hheld : holder slot = some s.current)
    (hpost : ∀ cache', cache.Alike cache' → cache'.Inv (update holder slot none) →
      post () (s.dc cache' back tick)) :
    wp rules (unlockEntry slot) (fun _ middle => wp rules (unpinEntry slot) post middle)
      (s.dc cache back tick) := by
  apply wp_releaseEntry
  · rw [hinv.mutex_eq slot hmem, hheld]
  · rw [hinv.pin_eq slot hmem, hheld]
    rfl
  · apply hpost
    · exact .setEntry ⟨rfl, rfl, rfl, rfl⟩ rfl
    · exact hinv.setEntry rfl rfl rfl (hinv.used slot hmem) (hinv.release_lru hmem hheld)

end Dc

/-! ### Acquiring the entries -/

section Acquire

variable {lower : Tid → Wait → Sys D μ → Option (Answer D × Sys D μ)} {env : Env D}
  {tolerated : Fault → Prop} {virgin : D → Prop} {layer : MappingLayer lower env tolerated virgin}
  {back : μ} {low store : Store D} {owner : Tid} {cache : DataCache D} {holder : ℕ → Option Tid}
  {held writebacks : List (Txn D)} {txn : Txn D} {s : Sys D μ} {tick credits : ℕ}
  {rules : Rules (Sys D μ) Wait (Answer D) Fault}

variable (hacq : Acquired layer back low store owner cache holder held writebacks)
include hacq

variable {slot : ℕ} {status : Status} {post : Unit → Sys D μ → Prop} {zeroes : Bool}

/-- The entry to evict is not in use. -/
theorem Acquired.free_of_last
    (hlast : cache.lru.getLast? = some slot) : slot ∈ cache.tree ∧ holder slot = none := by
  have hmem := mem_of_getLast? hlast
  rw [hacq.inv.lru_perm.mem_iff, mem_unheldOf] at hmem
  exact hmem

/-- A full cache without an entry to evict is held by one request. -/
theorem Acquired.all_held
    (hfull : cache.capacityPages ≤ cache.nrPages) (hlast : cache.lru.getLast? = none) :
    cache.capacityPages ≤ held.length := by
  have hempty : cache.lru = [] := getLast?_eq_none_iff.mp hlast
  have hall : ∀ slot ∈ cache.tree, holder slot ≠ none := by
    intro slot hslot hfree
    have hmem : slot ∈ cache.lru := by
      rw [hacq.inv.lru_perm.mem_iff, mem_unheldOf]
      exact ⟨hslot, hfree⟩
    rw [hempty] at hmem
    exact not_mem_nil hmem
  have hsubset : cache.tree.map some ⊆ held.map entry := by
    intro entry hentry
    obtain ⟨slot, hslot, rfl⟩ := mem_map.mp hentry
    obtain ⟨item, hitem, hsome⟩ := hacq.holder_held slot hslot (hall slot hslot)
    exact mem_map.mpr ⟨item, hitem, hsome⟩
  have hnodup : (cache.tree.map some).Nodup := hacq.inv.nodup.map (some_injective ℕ)
  calc cache.capacityPages ≤ cache.nrPages := hfull
    _ = (cache.tree.map some).length := by rw [length_map, hacq.inv.count]
    _ ≤ (held.map entry).length := (subperm_of_subset hnodup hsubset).length_le
    _ = held.length := length_map _

omit hacq

/-- The entry for one more transaction, unless the request already holds every
page of the cache. -/
theorem wp_acquireEntry (hreliable : env.Reliable)
    (hacq : Acquired layer back low store s.current cache holder held writebacks)
    (hnew : ∀ item ∈ held, item.page ≠ txn.page) (hfits : BitmapFits txn.bitmap)
    (hserves : layer.Serves back txn.nsid txn.lpa)
    {post : Status × Option ℕ × List (Txn D) → Sys D μ → Prop}
    (hpost : ∀ cache' tick' status' slot others, Acquired layer back low store s.current cache'
        (update holder slot (some s.current))
        (held ++ [{ txn with entry := some slot }]) (writebacks ++ others) →
      (∀ other, other ≠ slot → cache'.entries other = cache.entries other) →
      cache'.capacityPages = cache.capacityPages → others.length ≤ 1 →
      (status' = none ∨ status' = status ∧ cache.find txn.nsid txn.lpa ≠ none ∧
        ∀ nsid lpa, cache'.find nsid lpa = cache.find nsid lpa) →
      post (status', some slot, others) (s.dc cache' back tick'))
    (hnoroom : cache.capacityPages ≤ held.length →
      post (some .enomem, none, []) (s.dc cache back tick)) :
    wp rules (acquireEntry env status txn) post (s.dc cache back tick) := by
  rw [acquireEntry, wp_bind, wp_get, cache_dc]
  cases hfind : cache.find txn.nsid txn.lpa with
  | some slot =>
    obtain ⟨hmem, hnsid, hlpa⟩ := mem_of_find hfind
    have hpage : (cache.entries slot).page = txn.page := CacheEntry.page_eq_txn.mpr ⟨hnsid, hlpa⟩
    have hfree : holder slot = none := by
      by_contra hheld
      obtain ⟨item, hitem, hentry⟩ := hacq.holder_held slot hmem hheld
      obtain ⟨other, -, hsome, -, hother_page, -⟩ := hacq.has_entry item hitem
      obtain rfl : other = slot := some.inj (hsome.symm.trans hentry)
      exact hnew item hitem (hother_page.symm.trans hpage)
    simp only [wp_bind]
    apply wp_holdEntry
    · rw [hacq.inv.mutex_eq slot hmem, hfree]
    · rw [hacq.inv.pin_eq slot hmem, hfree]
      rfl
    · simp only [wp_modify, modifyEntry_dc, wp_get, wp_assert, cache_dc,
        setEntry_setEntry, entries_setEntry_self, wp_pure]
      rw [if_pos (decide_eq_true hlpa)]
      refine hpost _ _ _ slot [] ?_ ?_ rfl (Nat.zero_le _) (.inr ⟨rfl, by simp [hfind], ?_⟩)
      · rw [append_nil]
        exact hacq.hit hmem hfree hpage hfits hserves
      · intro other hother
        exact entries_setEntry_of_ne _ hother _ _
      · exact find_setEntry rfl rfl
  | none =>
    simp only [cacheAdd, wp_bind, wp_get, cache_dc, wp_ite]
    by_cases hfull : cache.capacityPages ≤ cache.nrPages
    · cases hlast : cache.lru.getLast? with
      | none =>
        simp only [if_pos hfull, wp_pure, cacheEvictEntry, wp_bind, wp_get,
          cache_dc, hlast, reduceCtorEq, if_false, wp_ite]
        exact hnoroom (hacq.all_held hfull hlast)
      | some slot =>
        obtain ⟨hmem, hfree⟩ := hacq.free_of_last hlast
        have hmutex := hacq.inv.mutex_eq slot hmem
        have hpin : (cache.entries slot).pinCount = 0 := by
          rw [hacq.inv.pin_eq slot hmem, hfree]
          rfl
        rw [hfree] at hmutex
        simp only [if_pos hfull, wp_pure, cacheEvictEntry, wp_bind, wp_get,
          cache_dc, hlast, wp_assert, hpin, decide_true, if_true, wp_modify,
          modifyCache_dc, evictedWriteback, wp_ite]
        -- what the recycled entry looks like, dirty before or not
        have hrecycle : ∀ others tick', Evicted (cache.entries slot) others →
            wp rules (recycleEntry txn slot) (fun _ middle => post (none, some slot, others) middle)
              (s.dc (cache.evict slot) back tick') := by
          intro others tick' hevicted
          have hlru : (cache.lru.erase slot).erase slot = cache.lru.erase slot := by
            refine erase_of_not_mem (List.Nodup.not_mem_erase ?_)
            exact hacq.inv.lru_perm.nodup_iff.mpr (hacq.inv.nodup.filter _)
          rw [recycleEntry, wp_bind, wp_modify, modifyCache_dc, wp_bind]
          apply wp_holdEntry
          · rw [entries_recycle_self, hmutex]
          · rw [entries_recycle_self, hpin]
          · rw [entries_recycle_self]
            change post _ (s.dc (setEntry _ slot _ ((cache.lru.erase slot).erase slot)) back tick')
            rw [hlru]
            refine hpost _ _ _ slot others (hacq.evict hmem hfree hfind hfits hserves hevicted) ?_
              rfl hevicted.length_le (.inl rfl)
            intro other hother
            rw [entries_setEntry_of_ne _ hother, entries_recycle_of_ne _ hother]
        have hsame : (cache.evict slot).entries slot = cache.entries slot := rfl
        by_cases hdirty : (cache.entries slot).status = .dirty
        · simp only [hsame, if_pos hdirty, wp_allocMem, hreliable _, decide_true,
            if_true, wp_bind, generateWriteback, wp_get, wp_allocBuffer, wp_pure, tick_dc, cache_dc]
          exact hrecycle _ _ (Evicted.dirty _ hdirty)
        · simp only [hsame, if_neg hdirty]
          exact hrecycle _ _ (Evicted.clean hdirty)
    · simp only [if_neg hfull, wp_allocMem, hreliable _, decide_true, if_true,
        wp_bind, wp_allocBuffer, wp_modify, wp_pure, advance_dc, tick_dc, modifyCache_dc]
      rw [wp_lockEntry (by rw [entries_newEntry_self]), entries_newEntry_self]
      have hroom' : cache.nrPages < cache.capacityPages := not_le.mp hfull
      refine hpost _ _ _ cache.nextEntry [] ?_ ?_ rfl (Nat.zero_le _) (.inl rfl)
      · rw [append_nil]
        exact hacq.add hfind hroom' hfits hserves
      · intro other hother
        rw [entries_setEntry_of_ne _ hother, entries_newEntry_of_ne _ hother]

/-- The bitmap says which sectors lie in `[offset, offset + length)`. -/
def Txn.Exact (txn : Txn D) : Prop := ∀ sector, txn.bitmap.getLsbD sector ↔ txn.covers sector

def Txn.SameButEntry (txn txn' : Txn D) : Prop := txn' = { txn with entry := txn'.entry }

def Zeroed [Zero D] (cache : DataCache D) (txn : Txn D) : Prop :=
  ∀ slot, txn.entry = some slot → ∀ sector, txn.covers sector → (cache.entries slot).data sector = 0

variable {txns items : List (Txn D)} {data : ℕ → D}

theorem map_page_of_sameButEntry (hsame : List.Forall₂ Txn.SameButEntry txns items) :
    items.map page = txns.map page := by
  induction hsame with
  | nil => rfl
  | cons hhead _ ih =>
    rw [map_cons, map_cons, ih, hhead]
    rfl

/-- The sectors that a held transaction overwrites can change. -/
theorem Acquired.setData (hacq : Acquired layer back low store owner cache holder held writebacks)
    (hmem : txn ∈ held) (hentry : txn.entry = some slot) (hexact : txn.Exact)
    (hdata : ∀ sector, ¬txn.covers sector → data sector = (cache.entries slot).data sector) :
    Acquired layer back low store owner
      (cache.setEntry slot { cache.entries slot with data := data } cache.lru)
      holder held writebacks := by
  obtain ⟨other, hslot, hother, hheld, -⟩ := hacq.has_entry _ hmem
  obtain rfl : slot = other := some.inj (hentry.symm.trans hother)
  refine hacq.congr ?_ rfl ?_ ?_
  · exact hacq.inv.update hslot hheld rfl rfl rfl (hacq.inv.used slot hslot)
  · apply same_setEntry
    exact ⟨rfl, rfl, rfl, rfl⟩
  · intro other _ sector hpending
    by_cases hsame : other = slot
    · rw [hsame] at hpending ⊢
      rw [entries_setEntry_self]
      apply hdata
      intro hcovers
      exact hpending ⟨_, hmem, hentry, (hexact sector).mpr hcovers⟩
    · rw [entries_setEntry_of_ne _ hsame]

/-- First loop of `write_buffers`. -/
theorem wp_acquireEntries [Zero D] (hreliable : env.Reliable)
    (txns : List (Txn D)) {index : ℕ} (hexact : ∀ txn ∈ txns, txn.Exact)
    (hfits : ∀ txn ∈ txns, BitmapFits txn.bitmap)
    (hserves : ∀ txn ∈ txns, layer.Serves back txn.nsid txn.lpa)
    (hpages : ((held ++ txns).map page).Nodup)
    (hacq : Acquired layer back low store s.current cache holder held writebacks)
    (hzero : zeroes → ∀ txn ∈ held, Zeroed cache txn)
    {post : Status × List (Txn D) × List (Txn D) × Bool → Sys D μ → Prop}
    (hpost : ∀ cache' holder' tick' status' rest others, List.Forall₂ Txn.SameButEntry txns rest →
      Acquired layer back low store s.current cache' holder' (held ++ rest) (writebacks ++ others) →
      (zeroes → ∀ txn ∈ held ++ rest, Zeroed cache' txn) →
      cache'.capacityPages = cache.capacityPages → others.length ≤ txns.length →
      (status' = none ∨ status' = status ∧ ∀ txn ∈ txns, cache.find txn.nsid txn.lpa ≠ none) →
      post (status', rest, others, true) (s.dc cache' back tick'))
    (htoolong : ∀ cache' holder' tick' rest others left, (maxIovecs < index + txns.length ∨
        cache.capacityPages < held.length + txns.length) → left ≠ [] → (∀ txn ∈ left, txn ∈ txns) →
      ((held ++ rest).map page).Nodup →
      Acquired layer back low store s.current cache' holder' (held ++ rest) (writebacks ++ others) →
      post (some .enomem, rest ++ left, others, false) (s.dc cache' back tick')) :
    wp rules (acquireEntries env zeroes index status txns) post (s.dc cache back tick) := by
  induction txns generalizing index status held writebacks cache holder tick post with
  | nil =>
    refine hpost cache holder tick status [] [] List.Forall₂.nil ?_ ?_ rfl le_rfl
      (.inr ⟨rfl, (by simp)⟩)
    · rw [append_nil, append_nil]
      exact hacq
    · rw [append_nil]
      exact hzero
  | cons txn txns ih =>
    have hnew : ∀ item ∈ held, item.page ≠ txn.page := by
      intro item hitem hsame
      rw [map_append, map_cons, nodup_append] at hpages
      exact hpages.2.2 _ (mem_map_of_mem hitem) _ mem_cons_self hsame
    rw [length_cons] at htoolong
    -- no entry for this transaction and the rest
    have hstop : (maxIovecs < index + (txns.length + 1) ∨
        cache.capacityPages < held.length + (txns.length + 1)) →
        post (some .enomem, txn :: txns, [], false) (s.dc cache back tick) := by
      intro hlong
      have hheld : ((held ++ []).map page).Nodup := by
        rw [append_nil]
        exact hpages.sublist ((sublist_append_left held (txn :: txns)).map page)
      refine htoolong cache holder tick [] [] (txn :: txns) hlong (by simp) (fun _ => id) hheld ?_
      rw [append_nil, append_nil]
      exact hacq
    rw [acquireEntries]
    by_cases hlt : maxIovecs ≤ index
    · rw [if_pos hlt]
      exact hstop (.inl (by omega))
    rw [if_neg hlt, wp_bind]
    refine wp_acquireEntry hreliable hacq hnew (hfits txn mem_cons_self)
      (hserves txn mem_cons_self) ?_ fun hfull => hstop (.inr (by omega))
    intro cache' tick' status' slot others hacq' hentries hcapacity hothers hstatus
    have hlast : { txn with entry := some slot } ∈ held ++ [{ txn with entry := some slot }] :=
      mem_append_right _ (mem_singleton_self _)
    have hne : ∀ item ∈ held, item.entry ≠ some slot := by
      intro item hitem hentry
      have hpage := hacq'.page_eq (mem_append_left _ hitem) hlast hentry
      exact hnew item hitem hpage
    -- the rest of the loop, from either state of the new entry
    have hrest : ∀ cache'', cache''.capacityPages = cache.capacityPages →
        (∀ nsid lpa, cache''.find nsid lpa = cache'.find nsid lpa) →
        Acquired layer back low store s.current cache'' (update holder slot (some s.current))
          (held ++ [{ txn with entry := some slot }]) (writebacks ++ others) →
        (zeroes → ∀ item ∈ held ++ [{ txn with entry := some slot }], Zeroed cache'' item) →
        wp rules (acquireEntries env zeroes (index + 1) status' txns)
          (fun result middle => post (result.1, { txn with entry := some slot } :: result.2.1,
            others ++ result.2.2.1, result.2.2.2) middle) (s.dc cache'' back tick') := by
      intro cache'' hcapacity' hfind hacq'' hzero'
      refine ih (fun item hitem => hexact item (.tail txn hitem)) (fun item hitem => hfits item
        (.tail txn hitem)) (fun item hitem => hserves item (.tail txn hitem)) ?_ hacq'' hzero' ?_ ?_
      · simpa [page] using hpages
      · intro cache₃ holder₃ tick₃ status₃ rest others₃ hsame hacq₃ hzero₃
          hcapacity₃ hothers₃ hstatus₃
        rw [append_assoc] at hacq₃ hzero₃
        rw [append_assoc] at hacq₃
        have hcount : (others ++ others₃).length ≤ (txn :: txns).length := by
          rw [length_append, length_cons]
          omega
        refine hpost cache₃ holder₃ tick₃ status₃ _ _ (List.Forall₂.cons rfl hsame) hacq₃ hzero₃
          (hcapacity₃.trans hcapacity') hcount ?_
        rcases hstatus₃ with hnone | ⟨rfl, hfound⟩
        · exact .inl hnone
        · refine hstatus.imp id ?_
          rintro ⟨rfl, hhit, hfind'⟩
          refine ⟨rfl, ?_⟩
          rintro item (_ | ⟨_, hitem⟩)
          · exact hhit
          · rw [← hfind', ← hfind]
            exact hfound item hitem
      · intro cache₃ holder₃ tick₃ rest others₃ left hlength hleft hsubset hpages₃ hacq₃
        rw [append_assoc] at hpages₃ hacq₃
        rw [append_assoc] at hacq₃
        rw [length_append, length_singleton, hcapacity'] at hlength
        exact htoolong cache₃ holder₃ tick₃ _ _ left (by omega) hleft
          (fun item hitem => mem_cons_of_mem txn (hsubset item hitem)) hpages₃ hacq₃
    cases zeroes with
    | false =>
      simp only [Bool.false_eq_true, if_false, wp_bind, wp_pure]
      exact hrest cache' hcapacity (fun _ _ => rfl) hacq' (by simp)
    | true =>
      simp only [if_true, wp_bind, wp_modify, modifyEntry_dc]
      refine hrest _ hcapacity (find_setEntry rfl rfl)
        (hacq'.setData hlast rfl (hexact txn mem_cons_self) fun _ hcovers => if_neg hcovers) ?_
      intro _ item hitem other hentry sector hcovers
      rcases mem_append.mp hitem with hold | hnew'
      · have hother : other ≠ slot := by
          rintro rfl
          exact hne item hold hentry
        rw [entries_setEntry_of_ne _ hother, hentries other hother]
        exact hzero rfl item hold other hentry sector hcovers
      · rw [mem_singleton.mp hnew'] at hentry hcovers
        obtain rfl : slot = other := some.inj hentry
        rw [entries_setEntry_self]
        exact if_pos hcovers

/-! ### Filling the entries -/

/-- The transactions with the data of the host, from sector `base` of its buffer
on. -/
def hostTxns (data : ℕ → D) : ℕ → List (Txn D) → List (Txn D)
  | _, [] => []
  | base, txn :: txns =>
    { txn with
      data := fun sector => data (base + (sector - txn.offset >>> sectorShift)) } ::
      hostTxns data (base + txn.length >>> sectorShift) txns

def Txn.SameButData (txn txn' : Txn D) : Prop := txn' = { txn with data := txn'.data }

theorem hostTxns_sameButData (data : ℕ → D) (base : ℕ) (txns : List (Txn D)) :
    List.Forall₂ Txn.SameButData txns (hostTxns data base txns) := by
  induction txns generalizing base with
  | nil => exact List.Forall₂.nil
  | cons txn txns ih => exact List.Forall₂.cons rfl (ih _)

theorem map_page_of_sameButData (hsame : List.Forall₂ Txn.SameButData txns items) :
    items.map page = txns.map page := by
  induction hsame with
  | nil => rfl
  | cons hhead _ ih =>
    rw [map_cons, map_cons, ih, hhead]
    rfl

def Filled (cache : DataCache D) (txn : Txn D) : Prop :=
  ∀ slot, txn.entry = some slot → ∀ sector, txn.bitmap.getLsbD sector →
    (cache.entries slot).data sector = txn.data sector

/-- With the entries filled, the store has taken the request in. -/
theorem Acquired.filled (hacq : Acquired layer back low store owner cache holder held [])
    (hpages : (held.map page).Nodup) (hitems : List.Forall₂ Txn.SameButData held items)
    (hfilled : ∀ item ∈ items, Filled cache item) :
    Tracks cache low (store.absorbAll items) fun _ _ => False := by
  have hpages' : (items.map page).Nodup := by
    rw [map_page_of_sameButData hitems]
    exact hpages
  -- a sector that the request writes is in one of the held entries
  have hcovered : ∀ item ∈ items, ∀ sector, item.bitmap.getLsbD sector →
      ∃ slot ∈ cache.tree, item.entry = some slot ∧ (cache.entries slot).page = item.page ∧
        (cache.entries slot).status = .dirty ∧ (cache.entries slot).bitmap.getLsbD sector := by
    intro item hitem sector hbit
    obtain ⟨txn, htxn, hsame⟩ := exists_of_mem_right hitems hitem
    obtain ⟨slot, hslot, hentry, -, hpage, hdirty, hbits⟩ := hacq.has_entry txn htxn
    rw [hsame] at hbit ⊢
    exact ⟨slot, hslot, hentry, hpage, hdirty, hbits sector hbit⟩
  constructor
  · intro slot hslot sector hbit _
    by_cases hwritten : ∃ item ∈ items, item.page = (cache.entries slot).page ∧
        item.bitmap.getLsbD sector
    · obtain ⟨item, hitem, hpage, hitem_bit⟩ := hwritten
      obtain ⟨other, hother, hentry, hother_page, -⟩ := hcovered item hitem sector hitem_bit
      obtain ⟨hnsid, hlpa⟩ := Prod.ext_iff.mp hpage
      obtain ⟨hnsid', hlpa'⟩ := CacheEntry.page_eq_txn.mp hother_page
      obtain rfl : other = slot := hacq.inv.eq_of_same_page hother hslot
        (hnsid'.trans hnsid) (hlpa'.trans hlpa)
      rw [hfilled item hitem other hentry sector hitem_bit, hnsid', hlpa']
      exact absorbAll_of_mem hpages' hitem hitem_bit
    · rw [absorbAll_of_clear]
      · refine hacq.tracks.cached slot hslot sector hbit ?_
        rintro ⟨txn, htxn, hentry, htxn_bit⟩
        obtain ⟨item, hitem, hsame⟩ := exists_of_mem_left hitems htxn
        have hitem_bit : item.bitmap.getLsbD sector := by
          rw [hsame]
          exact htxn_bit
        obtain ⟨other, -, hother, hpage, -⟩ := hcovered item hitem sector hitem_bit
        obtain rfl : slot = other := by
          rw [hsame] at hother
          exact some.inj (hentry.symm.trans hother)
        exact hwritten ⟨item, hitem, hpage.symm, hitem_bit⟩
      · intro item hitem hpage hitem_bit
        exact hwritten ⟨item, hitem, hpage, hitem_bit⟩
  · intro nsid lpa sector hclear
    rw [absorbAll_of_clear]
    · exact hacq.tracks.below nsid lpa sector hclear
    · intro item hitem hpage hbit
      obtain ⟨slot, hslot, -, hslot_page, hdirty, hslot_bit⟩ := hcovered item hitem sector hbit
      exact hclear slot hslot (hslot_page.trans hpage) hdirty hslot_bit

/-- The transfer from the host fills one entry after the other. -/
theorem Acquired.scatter (hexact : ∀ txn ∈ held, txn.Exact) (hpages : (held.map page).Nodup)
    (hacq : Acquired layer back low store owner cache holder held writebacks)
    {filled rest : List (Txn D)} (hheld : held = filled ++ rest) (base : ℕ)
    (hitems : List.Forall₂ Txn.SameButData filled items)
    (hfilled : ∀ item ∈ items, Filled cache item) :
    Acquired layer back low store owner (Soda.scatter data base rest cache) holder held writebacks ∧
      (Soda.scatter data base rest cache).capacityPages = cache.capacityPages ∧
      ∀ item ∈ items ++ hostTxns data base rest,
        Filled (Soda.scatter data base rest cache) item := by
  induction rest generalizing cache filled items base with
  | nil =>
    refine ⟨hacq, rfl, ?_⟩
    rw [hostTxns, append_nil]
    exact hfilled
  | cons txn rest ih =>
    have hmem : txn ∈ held := by
      rw [hheld]
      exact mem_append_right _ mem_cons_self
    obtain ⟨slot, -, hentry, -⟩ := hacq.has_entry txn hmem
    let content : ℕ → D := fun sector =>
      if txn.covers sector then
        data (base + (sector - txn.offset >>> sectorShift))
      else (cache.entries slot).data sector
    let cache' : DataCache D := cache.setEntry slot
      { cache.entries slot with data := content } cache.lru
    have hstep : Soda.scatter data base (txn :: rest) cache =
        Soda.scatter data (base + txn.length >>> sectorShift) rest cache' := by
      rw [Soda.scatter, hentry]
      rfl
    let item : Txn D := { txn with
      data := fun sector => data (base + (sector - txn.offset >>> sectorShift)) }
    have hacq' : Acquired layer back low store owner cache' holder held writebacks :=
      hacq.setData hmem hentry (hexact txn hmem) fun _ hcovers => if_neg hcovers
    have hheld' : held = (filled ++ [txn]) ++ rest := by
      rw [hheld, append_assoc]
      rfl
    have hne : ∀ other ∈ filled, other.entry ≠ some slot := by
      intro other hother hsame
      have hother' : other ∈ held := by
        rw [hheld]
        exact mem_append_left _ hother
      have hpage := hacq.page_eq hother' hmem (hsame.trans hentry.symm)
      rw [hheld, map_append, nodup_append] at hpages
      exact hpages.2.2 _ (mem_map_of_mem hother) _ (mem_map_of_mem mem_cons_self) hpage
    have hitems' : List.Forall₂ Txn.SameButData (filled ++ [txn]) (items ++ [item]) :=
      rel_append hitems (List.Forall₂.cons rfl List.Forall₂.nil)
    have hrest := ih hacq' hheld' (base + txn.length >>> sectorShift) hitems' ?_
    · rw [hstep, hostTxns, append_cons]
      exact hrest
    · intro other hother slot' hslot' sector hbit
      rcases mem_append.mp hother with hold | hnew
      · obtain ⟨txn', htxn', hsame⟩ := exists_of_mem_right hitems hold
        have hslot_ne : slot' ≠ slot := by
          rintro rfl
          rw [hsame] at hslot'
          exact hne txn' htxn' hslot'
        rw [entries_setEntry_of_ne _ hslot_ne]
        exact hfilled other hold slot' hslot' sector hbit
      · rw [mem_singleton.mp hnew] at hslot' hbit ⊢
        obtain rfl : slot = slot' := some.inj (hentry.symm.trans hslot')
        rw [entries_setEntry_self]
        exact if_pos ((hexact txn hmem sector).mp hbit)

def sentData [Zero D] (zeroes : Bool) (data : ℕ → D) : ℕ → D :=
  if zeroes then fun _ => 0 else data

/-- The write-backs have reached the layer below. -/
theorem Acquired.written {back' : μ}
    (hacq : Acquired layer back low store owner cache holder held writebacks)
    (hserves : ∀ nsid lpa, layer.Serves back nsid lpa → layer.Serves back' nsid lpa) :
    Acquired layer back' (low.absorbAll writebacks) store owner cache holder held [] := by
  refine ⟨hacq.inv, hacq.tracks, hacq.has_entry, hacq.holder_held, hacq.fits, ?_,
    by simp, by simp, by simp⟩
  intro slot hslot hdirty
  exact hserves _ _ (hacq.served slot hslot hdirty)

/-- Entries that were zeroed are filled. -/
theorem filled_of_zeroed [Zero D] (hexact : ∀ txn ∈ held, txn.Exact)
    (hzero : ∀ txn ∈ held, Zeroed cache txn) (base : ℕ) :
    ∀ item ∈ hostTxns (fun _ => (0 : D)) base held, Filled cache item := by
  induction held generalizing base with
  | nil => exact nofun
  | cons txn held ih =>
    intro item hitem slot hentry sector hbit
    rcases mem_cons.mp hitem with rfl | hrest
    · exact hzero txn mem_cons_self slot hentry sector ((hexact txn mem_cons_self sector).mp hbit)
    · exact ih (fun item hitem => hexact item (.tail txn hitem))
        (fun item hitem => hzero item (.tail txn hitem)) _ item hrest slot hentry sector hbit

/-- `write_buffers` between the first loop and `cleanup`. -/
theorem wp_fillEntries [Zero D] (hreliable : env.Reliable) {data : ℕ → D}
    (hexact : ∀ txn ∈ held, txn.Exact) (hpages : (held.map page).Nodup)
    (hacq : Acquired layer back low store s.current cache holder held writebacks)
    (hholds : layer.Holds (credits + writebacks.length) back low)
    (hzero : zeroes → ∀ txn ∈ held, Zeroed cache txn) {post : Status → Sys D μ → Prop}
    (hpost : ∀ cache' back' low' tick' status',
      Acquired layer back' low' store s.current cache' holder held [] →
      layer.Holds credits back' low' →
      (∀ item ∈ hostTxns (sentData zeroes data) 0 held, Filled cache' item) →
      (∀ nsid lpa, layer.Serves back nsid lpa → layer.Serves back' nsid lpa) →
      cache'.capacityPages = cache.capacityPages →
      (status' = none ∨ zeroes = true ∧ writebacks = [] ∧ status' = status) →
      post status' (s.dc cache' back' tick')) :
    wp (aloneOver lower env tolerated False)
      (fillEntries layer.dispatch zeroes data status held writebacks) post
      (s.dc cache back tick) := by
  -- what happens once the write-backs are out of the way
  have hfill : ∀ back' low' tick' status',
      Acquired layer back' low' store s.current cache holder held [] →
      layer.Holds credits back' low' →
      (∀ nsid lpa, layer.Serves back nsid lpa → layer.Serves back' nsid lpa) →
      (status' = none ∨ writebacks = [] ∧ status' = status) →
      wp (aloneOver lower env tolerated False) (if zeroes then pure status'
        else do
          let answer ← await .hostDma
          if answer.status = none then do
            modify (modifyCache (Soda.scatter data 0 held))
            pure none
          else pure answer.status) post (s.dc cache back' tick') := by
    intro back' low' tick' status' hacq' hholds' hserves hstatus
    cases zeroes with
    | true =>
      refine hpost cache back' low' tick' status' hacq' hholds' ?_ hserves rfl ?_
      · exact filled_of_zeroed hexact (hzero rfl) 0
      · exact hstatus.imp id fun hsame => ⟨rfl, hsame⟩
    | false =>
      have hscatter : Acquired layer back' low' store s.current
            (Soda.scatter data 0 held cache) holder held [] ∧ _ :=
        hacq'.scatter hexact hpages (nil_append held).symm 0 List.Forall₂.nil (by simp)
      obtain ⟨hscattered, hcapacity, hfilled⟩ := hscatter
      simp only [Bool.false_eq_true, if_false, wp_bind, wp_await, onBlock_hostDma, tick_dc,
        hreliable _, if_true, wp_modify, wp_pure, advance_dc, modifyCache_dc, wp_ite]
      refine hpost _ back' low' _ none hscattered hholds' ?_ hserves hcapacity (.inl rfl)
      exact hfilled
  rw [fillEntries]
  by_cases hempty : writebacks = []
  · subst hempty
    exact hfill back low tick status hacq hholds (fun _ _ hserved => hserved) (.inr ⟨rfl, rfl⟩)
  · simp only [if_neg hempty, wp_bind, wp_pure]
    refine wp_mono (layer.write_spec hholds hacq.writeback_served hacq.writeback_nodup) ?_
    rintro ⟨status', txns⟩ s' ⟨rfl, -, hframe, hserves, hholds'⟩
    have hstate : s' = s.dc cache s'.back s'.tick := hframe
    simp only [ne_eq, not_true_eq_false, and_false, if_false]
    rw [hstate]
    exact hfill s'.back _ s'.tick none (hacq.written hserves) hholds' hserves (.inl rfl)

/-! ### Releasing the entries -/

/-- `cleanup` after a success. -/
theorem wp_releaseEntries_done (hinv : cache.Inv holder)
    (hheld : ∀ txn ∈ held, ∃ slot ∈ cache.tree, txn.entry = some slot ∧
      holder slot = some s.current) (hentries : (held.map entry).Nodup)
    (hall : ∀ slot ∈ cache.tree, holder slot ≠ none → ∃ txn ∈ held, txn.entry = some slot)
    (hpost : ∀ cache', cache.Alike cache' → cache'.Inv unheld → post () (s.dc cache' back tick)) :
    wp rules (releaseEntries none held) post (s.dc cache back tick) := by
  induction held generalizing cache holder with
  | nil =>
    refine hpost cache (.refl cache) (hinv.congr_holder ?_)
    intro slot hslot
    by_contra hne
    obtain ⟨txn, htxn, -⟩ := hall slot hslot fun hnone => hne hnone.symm
    exact absurd htxn not_mem_nil
  | cons txn held ih =>
    obtain ⟨slot, hslot, hentry, hholder⟩ := hheld txn mem_cons_self
    rw [map_cons, nodup_cons] at hentries
    have hne : ∀ item ∈ held, item.entry ≠ some slot := by
      intro item hitem hsame
      refine hentries.1 ?_
      rw [hentry, ← hsame]
      exact mem_map_of_mem hitem
    simp only [releaseEntries, hentry, if_true, wp_bind]
    apply wp_releaseEntry_inv hinv hslot hholder
    intro cache' halike hinv'
    refine ih hinv' ?_ hentries.2 ?_ ?_
    · intro item hitem
      obtain ⟨other, hother, hsome, hheld'⟩ := hheld item (.tail txn hitem)
      have hother_ne : other ≠ slot := by
        rintro rfl
        exact hne item hitem hsome
      refine ⟨other, ?_, hsome, ?_⟩
      · rw [halike.tree_eq]
        exact hother
      · rw [update_of_ne hother_ne]
        exact hheld'
    · intro other hother hholder'
      have hother_ne : other ≠ slot := by
        rintro rfl
        simp at hholder'
      rw [update_of_ne hother_ne] at hholder'
      rw [halike.tree_eq] at hother
      obtain ⟨item, hitem, hsome⟩ := hall other hother hholder'
      rcases mem_cons.mp hitem with rfl | hrest
      · exact absurd (some.inj (hsome.symm.trans hentry)) hother_ne
      · exact ⟨item, hrest, hsome⟩
    · intro cache'' halike' hinv''
      exact hpost cache'' (halike.trans halike') hinv''

/-- `cleanup` after a failure, up to the transactions that have no entry. -/
theorem wp_releaseEntries_failed {left : List (Txn D)} (hstatus : status ≠ none)
    (hheld : ∀ txn ∈ held, ∃ slot, txn.entry = some slot ∧
      (cache.entries slot).mutex = ⟨some s.current, []⟩ ∧ (cache.entries slot).pinCount = 1)
    (hentries : (held.map entry).Nodup)
    (hpost : ∀ cache', wp rules (releaseEntries status left) post (s.dc cache' back tick)) :
    wp rules (releaseEntries status (held ++ left)) post (s.dc cache back tick) := by
  induction held generalizing cache with
  | nil => exact hpost cache
  | cons txn held ih =>
    obtain ⟨slot, hentry, hmutex, hpin⟩ := hheld txn mem_cons_self
    rw [map_cons, nodup_cons] at hentries
    simp only [cons_append, releaseEntries, hentry, if_neg hstatus, wp_bind,
      wp_modify, modifyEntry_dc, modifyCache_dc]
    apply wp_releaseEntry
    · rw [eraseTree, entries_setEntry_self]
      exact hmutex
    · rw [eraseTree, entries_setEntry_self]
      exact hpin
    · refine ih ?_ hentries.2
      intro item hitem
      obtain ⟨other, hsome, hmutex', hpin'⟩ := hheld item (.tail txn hitem)
      have hother : other ≠ slot := by
        rintro rfl
        refine hentries.1 ?_
        rw [hentry, ← hsome]
        exact mem_map_of_mem hitem
      refine ⟨other, hsome, ?_⟩
      rw [entries_setEntry_of_ne _ hother, eraseTree, entries_setEntry_of_ne _ hother]
      exact ⟨hmutex', hpin'⟩

/-! ### The whole write -/

/-- The store does not look at the entries. -/
theorem Store.absorbAll_hostTxns {rest : List (Txn D)}
    (hsame : List.Forall₂ Txn.SameButEntry txns rest) (base : ℕ) (store : Store D) :
    store.absorbAll (hostTxns data base rest) = store.absorbAll (hostTxns data base txns) := by
  induction hsame generalizing base store with
  | nil => rfl
  | cons hhead _ ih =>
    rw [hhead]
    exact ih _ _

variable (hacq : Acquired layer back low store owner cache holder held writebacks)
include hacq

theorem Acquired.entries_nodup (hpages : (held.map page).Nodup) : (held.map entry).Nodup := by
  rw [List.Nodup, pairwise_map] at hpages ⊢
  refine hpages.imp_of_mem ?_
  intro left right hleft hright hne hsame
  exact hne (hacq.page_eq hleft hright hsame)

theorem Acquired.locked :
    ∀ txn ∈ held, ∃ slot, txn.entry = some slot ∧ (cache.entries slot).mutex = ⟨some owner, []⟩ ∧
      (cache.entries slot).pinCount = 1 := by
  intro txn htxn
  obtain ⟨slot, hslot, hentry, hholder, -⟩ := hacq.has_entry txn htxn
  refine ⟨slot, hentry, ?_, ?_⟩
  · rw [hacq.inv.mutex_eq slot hslot, hholder]
  · rw [hacq.inv.pin_eq slot hslot, hholder]
    rfl

omit hacq

/-- `write_buffers`: after a success the store has the data of the request.
Only a write of zeroes whose pages are all cached can fail, with whatever the
uninitialised return code holds. -/
theorem wp_writeBuffers [Zero D] (hreliable : env.Reliable) {data : ℕ → D} {txns : List (Txn D)}
    (hlength : maxIovecs < txns.length ∨ cache.capacityPages < txns.length → tolerated .nullPointer)
    (hnew : ∀ txn ∈ txns, txn.entry = none) (hexact : ∀ txn ∈ txns, txn.Exact)
    (hfits : ∀ txn ∈ txns, BitmapFits txn.bitmap)
    (hserves : ∀ txn ∈ txns, layer.Serves back txn.nsid txn.lpa) (hpages : (txns.map page).Nodup)
    (hcached : Cached layer (credits + txns.length) cache unheld back store)
    {post : Status → Sys D μ → Prop} (hdone : ∀ cache' back' tick',
      Cached layer credits cache' unheld back'
        (store.absorbAll (hostTxns (sentData zeroes data) 0 txns)) →
      (∀ nsid lpa, layer.Serves back nsid lpa → layer.Serves back' nsid lpa) →
      cache'.capacityPages = cache.capacityPages → post none (s.dc cache' back' tick'))
    (hfailed : ∀ s', zeroes = true → (∀ txn ∈ txns, cache.find txn.nsid txn.lpa ≠ none) →
      env.stray tick ≠ none → post (env.stray tick) s') :
    wp (aloneOver lower env tolerated False) (writeBuffers env layer.dispatch zeroes data txns) post
      (s.dc cache back tick) := by
  obtain ⟨low, hholds, htracks⟩ := hcached.tracks
  have hacq : Acquired layer back low store s.current cache unheld [] [] := by
    refine ⟨hcached.inv, ?_, by simp, by simp [unheld], hcached.fits,
      hcached.served, by simp, by simp, by simp⟩
    rw [pending_nil]
    exact htracks
  rw [writeBuffers, wp_bind, wp_get, wp_bind]
  refine wp_acquireEntries hreliable txns hexact hfits hserves
    (nil_append txns ▸ hpages) hacq (fun _ => nofun) ?_ ?_
  rotate_left
  · -- too many pages: the pages without an entry are not told apart
    intro cache' holder tick' rest others left hlong hleft hsubset hpages' hacq'
    rw [length_nil, zero_add] at hlong
    simp only [Bool.false_eq_true, if_false, wp_bind, wp_pure]
    refine wp_releaseEntries_failed (by simp) hacq'.locked (hacq'.entries_nodup hpages') ?_
    intro cache''
    cases left with
    | nil => exact absurd rfl hleft
    | cons txn left =>
      rw [releaseEntries, hnew txn (hsubset txn mem_cons_self)]
      exact hlength hlong
  intro cache' holder tick' status rest writebacks hsame hacq' hzero hcapacity hlength' hstatus
  have hpages' : (rest.map page).Nodup := by
    rw [map_page_of_sameButEntry hsame]
    exact hpages
  have hexact' : ∀ txn ∈ rest, txn.Exact := by
    intro txn htxn
    obtain ⟨item, hitem, hitem_same⟩ := exists_of_mem_right hsame htxn
    rw [hitem_same]
    exact hexact item hitem
  simp only [if_true, wp_bind]
  apply wp_fillEntries hreliable hexact' hpages' hacq'
    (layer.holds_mono (Nat.add_le_add_left hlength' credits) hholds) hzero
  intro cache'' back' low' tick'' status'' hacq'' hholds' hfilled hserves' hcapacity' hstatus''
  have hentries := hacq''.entries_nodup hpages'
  by_cases hnone : status'' = none
  · subst hnone
    apply wp_releaseEntries_done hacq''.inv _ hentries hacq''.holder_held
    · intro cache₃ halike hinv
      have hcached' : Cached layer credits cache'' holder back'
          (store.absorbAll (hostTxns (sentData zeroes data) 0 txns)) := by
        refine ⟨hacq''.inv, ⟨low', hholds', ?_⟩, hacq''.fits, hacq''.served⟩
        rw [← absorbAll_hostTxns hsame]
        exact hacq''.filled hpages' (hostTxns_sameButData _ _ _) hfilled
      exact hdone cache₃ back' tick'' (hcached'.alike halike hinv) hserves'
        (halike.capacity_eq.trans (hcapacity'.trans hcapacity))
    · intro txn htxn
      obtain ⟨slot, hslot, hentry, hholder, -⟩ := hacq''.has_entry txn htxn
      exact ⟨slot, hslot, hentry, hholder⟩
  · obtain ⟨hzeroes, -, rfl⟩ := hstatus''.resolve_left hnone
    obtain ⟨rfl, hfound⟩ := hstatus.resolve_left hnone
    rw [← append_nil rest]
    apply wp_releaseEntries_failed hnone hacq''.locked hentries
    intro cache₃
    exact hfailed _ hzeroes hfound hnone

end Acquire

end Soda
