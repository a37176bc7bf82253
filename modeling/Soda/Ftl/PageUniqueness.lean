import Soda.Ftl.BlockManager

/-!
# No physical page is handed out twice

`PlaneInv` relates the free list and the three write frontiers of a plane to
the set of pages handed out so far: blocks of the free list are untouched, and
a frontier has given out exactly a prefix of `page_idx_map`.  Allocation keeps
it, and so does an orderly restart, because the saved block map names only
untouched blocks.  The freshness statement `bmAllocPage_fresh` is what the
address mapping unit builds on.
-/

namespace Soda

open PlaneAllocator List Option Function Prod Bitmap

/-! ### The files give back the maps stored in them -/

section Files

variable {perPage length : ℕ}

theorem PageBuf.load_store (buf : PageBuf) (offset : ℕ) (map : Bitmap) :
    (buf.store offset map).load offset map.length = map := by
  apply ext_getElem
  · simp [PageBuf.load]
  · intro index hload hmap
    have hindex : index < map.length := hmap
    simp [PageBuf.load, PageBuf.store, hindex]

theorem PageBuf.load_congr (left right : PageBuf) {offset length : ℕ}
    (hagree : ∀ index, index < offset + length → left index = right index) :
    left.load offset length = right.load offset length := by
  apply map_congr_left
  intro index hindex
  exact hagree _ (by have := mem_range.mp hindex; omega)

/-- The first page written starts with the maps that were already in the
buffer, and reading from there gives back the remaining ones. -/
theorem unpackMaps_packMaps (hperPage : 0 < perPage) (maps : List Bitmap)
    (hlength : ∀ map ∈ maps, map.length = length) (buf : PageBuf) (count : ℕ)
    (hcount : count ≤ perPage) (hsome : count ≠ 0 ∨ maps ≠ []) :
    ∃ first rest, packMaps perPage length buf count maps = first :: rest ∧
      (∀ index, index < count * length → first index = buf index) ∧
      unpackMaps perPage length first count maps.length rest = some maps := by
  induction maps generalizing buf count with
  | nil =>
    have hne : count ≠ 0 := by simpa using hsome
    exact ⟨buf, [], by simp [packMaps, hne], fun _ _ => rfl, rfl⟩
  | cons map maps ih =>
    have hmap : map.length = length := hlength map mem_cons_self
    have hrest : ∀ other ∈ maps, other.length = length := fun other hmem =>
      hlength other (.tail _ hmem)
    by_cases hfull : count = perPage
    · obtain ⟨first, rest, hpack, hagree, hunpack⟩ :=
        ih hrest (buf.store 0 map) 1 hperPage (.inl one_ne_zero)
      have hload : first.load 0 length = map := by
        rw [PageBuf.load_congr first (buf.store 0 map) (by
          intro index hindex
          exact hagree index (by omega))]
        rw [← hmap]
        exact PageBuf.load_store buf 0 map
      refine ⟨buf, first :: rest, ?_, fun _ _ => rfl, ?_⟩
      · simp [packMaps, hfull, hpack]
      · simp [unpackMaps, hfull, hunpack, hload]
    · obtain ⟨first, rest, hpack, hagree, hunpack⟩ :=
        ih hrest (buf.store (count * length) map) (count + 1)
          (by omega) (.inl (Nat.succ_ne_zero count))
      have hload : first.load (count * length) length = map := by
        rw [PageBuf.load_congr first (buf.store (count * length) map) (by
          intro index hindex
          exact hagree index (by rw [Nat.succ_mul]; exact hindex))]
        rw [← hmap]
        exact PageBuf.load_store buf _ map
      refine ⟨first, rest, ?_, ?_, ?_⟩
      · simp [packMaps, hfull, hpack]
      · intro index hindex
        rw [hagree index (by rw [Nat.succ_mul]; omega)]
        simp [PageBuf.store, not_le.mpr hindex]
      · simp [unpackMaps, hfull, hunpack, hload]

variable {maps : List Bitmap} {addr : PlaneAddr} {map : Bitmap}

theorem unpackFile_packMaps (hperPage : 0 < perPage)
    (hlength : ∀ map ∈ maps, map.length = length) (hne : maps ≠ []) (buf : PageBuf) :
    unpackFile perPage length maps.length (packMaps perPage length buf 0 maps) = some maps := by
  obtain ⟨first, rest, hpack, _, hunpack⟩ :=
    unpackMaps_packMaps hperPage maps hlength buf 0 (Nat.zero_le _) (.inr hne)
  rw [hpack]
  exact hunpack

variable (g : Geometry)

theorem planesPerPage_pos : 0 < planesPerPage g := by
  apply Nat.div_pos g.blockMap_fits
  exact Nat.lt_of_le_of_lt (Nat.zero_le _) (lt_bitchunks g.blocks_pos)

theorem planeAddrs_ne_nil : planeAddrs g ≠ [] :=
  ne_nil_of_mem (mem_planeAddrs.mpr ⟨g.channels_pos, g.chips_pos, g.dies_pos, g.planes_pos⟩ :
      (⟨0, 0, 0, 0⟩ : PlaneAddr) ∈ planeAddrs g)

/-- Whatever per-plane maps were saved are the ones restored. -/
theorem unpackFile_saved (buf : PageBuf) (mapOf : PlaneAddr → Bitmap)
    (hlength : ∀ addr, (mapOf addr).length = bitchunks g.blocksPerPlane) :
    unpackFile (planesPerPage g) (bitchunks g.blocksPerPlane) (planeAddrs g).length
        (packMaps (planesPerPage g) (bitchunks g.blocksPerPlane) buf 0
          ((planeAddrs g).map mapOf)) = some ((planeAddrs g).map mapOf) := by
  have hall : ∀ map ∈ (planeAddrs g).map mapOf, map.length = bitchunks g.blocksPerPlane := by
    intro map hmem
    obtain ⟨addr, _, rfl⟩ := mem_map.mp hmem
    exact hlength addr
  have hne : (planeAddrs g).map mapOf ≠ [] := by
    simpa using planeAddrs_ne_nil g
  simpa using unpackFile_packMaps (planesPerPage_pos g) hall hne buf

theorem eq_of_mem_zip_map {addrs : List PlaneAddr} {mapOf : PlaneAddr → Bitmap}
    (hmem : (addr, map) ∈ addrs.zip (addrs.map mapOf)) : map = mapOf addr := by
  rw [List.zip_map_right, List.mem_map] at hmem
  obtain ⟨⟨left, right⟩, hpair, heq⟩ := hmem
  have hsame : left = right := by
    rw [zip_eq_zipWith, zipWith_self, List.mem_map] at hpair
    obtain ⟨other, _, hother⟩ := hpair
    simp only [Prod.mk.injEq] at hother
    rw [← hother.1, ← hother.2]
  simp only [Prod.map, id, Prod.mk.injEq] at heq
  rw [← heq.2, ← heq.1, hsame]

variable (update : Bitmap → PlaneAllocator → PlaneAllocator)

theorem updatePlanes_of_notMem (maps : List (PlaneAddr × Bitmap)) (planes : Planes)
    (hmem : addr ∉ maps.map fst) : updatePlanes planes update maps addr = planes addr := by
  induction maps generalizing planes with
  | nil => rfl
  | cons head maps ih =>
    rw [map_cons, mem_cons, not_or] at hmem
    rw [updatePlanes, ih _ hmem.2, update_of_ne hmem.1]

/-- Every plane is updated with the one map stored for it. -/
theorem updatePlanes_of_mem (maps : List (PlaneAddr × Bitmap)) (planes : Planes)
    (hnodup : (maps.map fst).Nodup) (hmem : (addr, map) ∈ maps) :
    updatePlanes planes update maps addr = update map (planes addr) := by
  induction maps generalizing planes with
  | nil => simp at hmem
  | cons head maps ih =>
    rw [map_cons, nodup_cons] at hnodup
    rcases mem_cons.mp hmem with heq | htail
    · subst heq
      rw [updatePlanes, updatePlanes_of_notMem update maps _ hnodup.1, update_self]
    · have hne : addr ≠ head.1 := by
        intro heq
        apply hnodup.1
        rw [← heq]
        exact mem_map_of_mem htail
      rw [updatePlanes, ih _ hnodup.2 htail, update_of_ne hne]

theorem length_unpackMaps {buf : PageBuf} {count nr : ℕ} {pages : List PageBuf}
    (hunpack : unpackMaps perPage length buf count nr pages = some maps) : maps.length = nr := by
  induction nr generalizing buf count pages maps with
  | zero =>
    simp only [unpackMaps, some.injEq] at hunpack
    simp [← hunpack]
  | succ nr ih =>
    by_cases hfull : count = perPage
    · cases pages with
      | nil => simp [unpackMaps, hfull] at hunpack
      | cons page pages =>
        simp only [unpackMaps, hfull, if_true] at hunpack
        obtain ⟨rest, hrest, rfl⟩ := map_eq_some_iff.mp hunpack
        simp [ih hrest]
    · simp only [unpackMaps, hfull, if_false] at hunpack
      obtain ⟨rest, hrest, rfl⟩ := map_eq_some_iff.mp hunpack
      simp [ih hrest]

theorem length_unpackFile {nr : ℕ} {file : List PageBuf}
    (hunpack : unpackFile perPage length nr file = some maps) : maps.length = nr := by
  cases file with
  | nil => simp [unpackFile] at hunpack
  | cons page pages => exact length_unpackMaps hunpack

variable (hlength : maps.length = (planeAddrs g).length)
include hlength

theorem zip_keys : ((planeAddrs g).zip maps).map fst = planeAddrs g := by
  rw [map_fst_zip]
  exact hlength.ge

theorem zip_keys_nodup : (((planeAddrs g).zip maps).map fst).Nodup := by
  rw [zip_keys g hlength]
  exact planeAddrs_nodup g

/-- A restore treats every plane in range once, with some map. -/
theorem updatePlanes_zip (planes : Planes) (hrange : addr.InRange g) :
    ∃ map, (addr, map) ∈ (planeAddrs g).zip maps ∧
      updatePlanes planes update ((planeAddrs g).zip maps) addr = update map (planes addr) := by
  have hmem : addr ∈ ((planeAddrs g).zip maps).map fst := by
    rw [zip_keys g hlength]
    exact mem_planeAddrs.mpr hrange
  obtain ⟨⟨other, map⟩, hpair, heq⟩ := mem_map.mp hmem
  simp only at heq
  subst heq
  exact ⟨map, hpair, updatePlanes_of_mem update _ planes (zip_keys_nodup g hlength) hpair⟩

end Files

/-! ### The page order within a block -/

variable (g : Geometry)

theorem pageIdxMap_perm : (pageIdxMap g).Perm (range g.pagesPerBlock) :=
  filter_append_perm g.lsbBitmap.getBit (range g.pagesPerBlock)

theorem pageIdxMap_nodup : (pageIdxMap g).Nodup := (pageIdxMap_perm g).nodup_iff.mpr nodup_range

@[simp]
theorem length_pageIdxMap : (pageIdxMap g).length = g.pagesPerBlock := by
  simpa using (pageIdxMap_perm g).length_eq

theorem pageIdxMap_getD_lt {index : ℕ} (hindex : index < g.pagesPerBlock) :
    (pageIdxMap g).getD index 0 < g.pagesPerBlock := by
  have hlt : index < (pageIdxMap g).length := by simpa using hindex
  rw [getD_eq_getElem _ _ hlt]
  have hmem := (pageIdxMap_perm g).mem_iff.mp (getElem_mem hlt)
  simpa using hmem

theorem pageIdxMap_getD_inj {left right : ℕ}
    (hleft : left < g.pagesPerBlock) (hright : right < g.pagesPerBlock)
    (heq : (pageIdxMap g).getD left 0 = (pageIdxMap g).getD right 0) : left = right := by
  have hleft' : left < (pageIdxMap g).length := by simpa using hleft
  have hright' : right < (pageIdxMap g).length := by simpa using hright
  rw [getD_eq_getElem _ _ hleft', getD_eq_getElem _ _ hright'] at heq
  exact (pageIdxMap_nodup g).getElem_inj_iff.mp heq

/-! ### The invariant of one plane -/

/-- `used` holds the (block, page) pairs this plane has handed out. -/
structure PlaneInv (g : Geometry) (plane : PlaneAllocator)
    (used : Set (ℕ × ℕ)) : Prop where
  free_nodup : plane.freeList.Nodup
  free_lt : ∀ block ∈ plane.freeList, block < g.blocksPerPlane
  free_index : ∀ block ∈ plane.freeList, (plane.blocks block).pageWriteIndex = 0
  free_unused : ∀ block ∈ plane.freeList, ∀ page, (block, page) ∉ used
  wf_lt : ∀ role block, plane.wf role = some block → block < g.blocksPerPlane
  wf_notMem : ∀ role block, plane.wf role = some block → block ∉ plane.freeList
  wf_inj : ∀ role other block, plane.wf role = some block →
    plane.wf other = some block → role = other
  wf_index : ∀ role block, plane.wf role = some block →
    (plane.blocks block).pageWriteIndex < g.pagesUsed
  wf_used : ∀ role block, plane.wf role = some block → ∀ page,
    (block, page) ∈ used → ∃ index < (plane.blocks block).pageWriteIndex,
      (pageIdxMap g).getD index 0 = page

namespace PlaneInv

variable {g : Geometry} {plane : PlaneAllocator} {used : Set (ℕ × ℕ)}

variable {plane' : PlaneAllocator}

/-- Frontiers can be given up at any time. -/
theorem restrict (hinv : PlaneInv g plane used) (hlist : plane'.freeList = plane.freeList)
    (hwf : ∀ role block, plane'.wf role = some block → plane.wf role = some block)
    (hindex : ∀ block, (plane'.blocks block).pageWriteIndex =
      (plane.blocks block).pageWriteIndex) : PlaneInv g plane' used where
  free_nodup := hlist ▸ hinv.free_nodup
  free_lt := hlist ▸ hinv.free_lt
  free_index := by
    rw [hlist]
    simpa only [hindex] using hinv.free_index
  free_unused := hlist ▸ hinv.free_unused
  wf_lt role block hsome := hinv.wf_lt role block (hwf role block hsome)
  wf_notMem role block hsome := by
    rw [hlist]
    exact hinv.wf_notMem role block (hwf role block hsome)
  wf_inj role other block hrole hother :=
    hinv.wf_inj role other block (hwf role block hrole) (hwf other block hother)
  wf_index role block hsome := by
    rw [hindex]
    exact hinv.wf_index role block (hwf role block hsome)
  wf_used role block hsome := by
    rw [hindex]
    exact hinv.wf_used role block (hwf role block hsome)

theorem setWf_none (hinv : PlaneInv g plane used) (role : Role) :
    PlaneInv g (plane.setWf role none) used := by
  refine hinv.restrict (setWf_freeList ..) ?_ fun block => by rw [setWf_blocks]
  intro other block hsome
  rw [wf_setWf] at hsome
  split at hsome
  · simp at hsome
  · exact hsome

/-- Taking the head of the free list as a new frontier. -/
theorem refill (role : Role) (nsid : ℕ) (forMapping : Bool)
    (hinv : PlaneInv g (plane.setWf role none) used) :
    PlaneInv g ((plane.getFreeBlock nsid forMapping).2.setWf role
      (plane.getFreeBlock nsid forMapping).1) used := by
  cases hfree : plane.freeList with
  | nil =>
    have hget : plane.getFreeBlock nsid forMapping = (none, plane) := by
      simp [getFreeBlock, hfree]
    rw [hget]
    exact hinv
  | cons head rest =>
    have hnodup : (head :: rest).Nodup := by
      simpa [hfree] using hinv.free_nodup
    have hmem : ∀ block ∈ rest, block ∈ (plane.setWf role none).freeList := by
      intro block hblock
      simp [hfree, hblock]
    have hhead : head ∈ (plane.setWf role none).freeList := by simp [hfree]
    obtain ⟨got, hgot⟩ : ∃ got, plane.getFreeBlock nsid forMapping = (some head, got) := by
      simp [getFreeBlock, hfree]
    have hlist : (got.setWf role (some head)).freeList = rest := by
      simp only [getFreeBlock, hfree, Prod.mk.injEq] at hgot
      simp [← hgot.2]
    have hindex : ∀ block, ((got.setWf role (some head)).blocks block).pageWriteIndex =
        ((plane.setWf role none).blocks block).pageWriteIndex := by
      intro block
      simp only [getFreeBlock, hfree, Prod.mk.injEq] at hgot
      by_cases hblock : block = head
      · subst hblock
        simp [← hgot.2]
      · simp [← hgot.2, hblock]
    -- a frontier afterwards is either the new one or an old one
    have hcases : ∀ other block, (got.setWf role (some head)).wf other = some block →
        (role = other ∧ block = head) ∨ (plane.setWf role none).wf other = some block := by
      intro other block hsome
      simp only [getFreeBlock, hfree, Prod.mk.injEq] at hgot
      rw [wf_setWf] at hsome ⊢
      split at hsome
      · exact .inl ⟨‹_›, by simpa using hsome.symm⟩
      · rw [if_neg ‹_›, ← hsome, ← hgot.2]
        cases other <;> exact .inr rfl
    rw [hgot]
    refine ⟨?_, ?_, ?_, ?_, ?_, ?_, ?_, ?_, ?_⟩
    · rw [hlist]
      exact hnodup.of_cons
    · rw [hlist]
      exact fun block hblock => hinv.free_lt block (hmem block hblock)
    · intro block hblock
      rw [hlist] at hblock
      rw [hindex]
      exact hinv.free_index block (hmem block hblock)
    · rw [hlist]
      exact fun block hblock => hinv.free_unused block (hmem block hblock)
    · intro other block hsome
      rcases hcases other block hsome with ⟨_, rfl⟩ | hold
      · exact hinv.free_lt _ hhead
      · exact hinv.wf_lt other block hold
    · intro other block hsome
      rw [hlist]
      rcases hcases other block hsome with ⟨_, rfl⟩ | hold
      · exact (nodup_cons.mp hnodup).1
      · exact fun hblock => hinv.wf_notMem other block hold (hmem block hblock)
    · intro first second block hfirst hsecond
      rcases hcases first block hfirst with ⟨rfl, rfl⟩ | hfirst' <;>
        rcases hcases second _ hsecond with ⟨rfl, hsame⟩ | hsecond'
      · rfl
      · exact absurd hhead (hinv.wf_notMem second _ hsecond')
      · subst hsame
        exact absurd hhead (hinv.wf_notMem first _ hfirst')
      · exact hinv.wf_inj first second block hfirst' hsecond'
    · intro other block hsome
      rw [hindex]
      rcases hcases other block hsome with ⟨_, rfl⟩ | hold
      · rw [hinv.free_index _ hhead]
        exact g.pagesUsed_pos
      · exact hinv.wf_index other block hold
    · intro other block hsome page hused
      rw [hindex]
      rcases hcases other block hsome with ⟨_, rfl⟩ | hold
      · exact absurd hused (hinv.free_unused _ hhead page)
      · exact hinv.wf_used other block hold page hused

/-- One more page of a frontier.  A full block must not stay a frontier. -/
theorem advance (hinv : PlaneInv g plane used) {role : Role} {block : ℕ}
    (hwf : plane.wf role = some block) (hlist : plane'.freeList = plane.freeList)
    (hself : (plane'.blocks block).pageWriteIndex = (plane.blocks block).pageWriteIndex + 1)
    (hat : ∀ other ≠ block, (plane'.blocks other).pageWriteIndex =
      (plane.blocks other).pageWriteIndex)
    (hfront : ∀ other front, plane'.wf other = some front → plane.wf other = some front ∧
      (other = role → (plane.blocks block).pageWriteIndex + 1 ≠ g.pagesUsed)) :
    PlaneInv g plane'
      (insert (block, (pageIdxMap g).getD (plane.blocks block).pageWriteIndex 0) used) := by
  have hblock : ∀ free ∈ plane.freeList, free ≠ block := by
    intro free hfree heq
    subst heq
    exact hinv.wf_notMem role _ hwf hfree
  refine ⟨hlist ▸ hinv.free_nodup, hlist ▸ hinv.free_lt, ?_, ?_, ?_, ?_, ?_, ?_, ?_⟩
  · intro free hfree
    rw [hlist] at hfree
    rw [hat free (hblock free hfree)]
    exact hinv.free_index free hfree
  · intro free hfree other hmem
    rw [hlist] at hfree
    rcases Set.mem_insert_iff.mp hmem with heq | hold
    · simp only [Prod.mk.injEq] at heq
      exact hblock free hfree heq.1
    · exact hinv.free_unused free hfree other hold
  · exact fun other front hsome => hinv.wf_lt other front (hfront other front hsome).1
  · intro other front hsome
    rw [hlist]
    exact hinv.wf_notMem other front (hfront other front hsome).1
  · exact fun first second front hfirst hsecond =>
      hinv.wf_inj first second front (hfront _ _ hfirst).1 (hfront _ _ hsecond).1
  · intro other front hsome
    obtain ⟨hold, hneed⟩ := hfront other front hsome
    have hlt := hinv.wf_index other front hold
    by_cases hsame : front = block
    · subst hsame
      have := hneed (hinv.wf_inj other role front hold hwf)
      omega
    · rw [hat front hsame]
      exact hlt
  · intro other front hsome page hmem
    rcases Set.mem_insert_iff.mp hmem with heq | hold
    · simp only [Prod.mk.injEq] at heq
      rw [heq.1, heq.2]
      exact ⟨_, by omega, rfl⟩
    · obtain ⟨earlier, hlt, hsame⟩ :=
        hinv.wf_used other front (hfront other front hsome).1 page hold
      refine ⟨earlier, ?_, hsame⟩
      by_cases heq : front = block
      · subst heq
        omega
      · rw [hat front heq]
        exact hlt

/-- Handing out one more page of a frontier; a full block has to be retired
by the caller. -/
theorem handOut (hinv : PlaneInv g plane used) {role : Role} {block : ℕ}
    (hwf : plane.wf role = some block) :
    let index := (plane.blocks block).pageWriteIndex
    let page := (pageIdxMap g).getD index 0
    let plane' := plane.modifyBlock block fun data =>
      { data with pageWriteIndex := index + 1 }
    (block, page) ∉ used ∧ PlaneInv g (plane'.setWf role none) (insert (block, page) used) ∧
      (index + 1 ≠ g.pagesUsed → PlaneInv g plane' (insert (block, page) used)) := by
  intro index page plane'
  have hindex : index < g.pagesUsed := hinv.wf_index role block hwf
  have hpages : g.pagesUsed ≤ g.pagesPerBlock := g.pagesUsed_le
  have hwfEq : ∀ other, plane'.wf other = plane.wf other := by
    intro other
    simp [plane']
  refine ⟨?_, hinv.advance hwf ?_ ?_ ?_ ?_, fun hnotFull => hinv.advance hwf ?_ ?_ ?_ ?_⟩
  · intro hused
    obtain ⟨earlier, hearlier, hsame⟩ := hinv.wf_used role block hwf page hused
    have := pageIdxMap_getD_inj g (by omega) (by omega) hsame
    omega
  · simp [plane']
  · simp [plane', index]
  · intro other hne
    simp [plane', hne]
  · intro other front hsome
    rw [wf_setWf, hwfEq] at hsome
    split at hsome
    · simp at hsome
    · exact ⟨hsome, fun heq => absurd heq.symm ‹_›⟩
  · rfl
  · simp [plane', index]
  · intro other hne
    simp [plane', hne]
  · intro other front hsome
    rw [hwfEq] at hsome
    exact ⟨hsome, fun _ => hnotFull⟩

end PlaneInv

/-! ### The invariant of all planes -/

def usedIn (used : Set FlashAddress) (addr : PlaneAddr) : Set (ℕ × ℕ) :=
  {slot | (⟨addr, slot.1, slot.2⟩ : FlashAddress) ∈ used}

theorem usedIn_insert_self (used : Set FlashAddress) (addr : PlaneAddr) (block page : ℕ) :
    usedIn (insert ⟨addr, block, page⟩ used) addr = insert (block, page) (usedIn used addr) := by
  ext ⟨otherBlock, otherPage⟩
  simp [usedIn]

variable {addr : PlaneAddr} {nsid : ℕ} {forGc forMapping : Bool} {result : FlashAddress}

theorem usedIn_insert_of_ne (used : Set FlashAddress) {other : PlaneAddr}
    (hne : other ≠ addr) (block page : ℕ) :
    usedIn (insert ⟨addr, block, page⟩ used) other = usedIn used other := by
  ext ⟨otherBlock, otherPage⟩
  simp [usedIn, hne]

structure BmInv (g : Geometry) (planes : Planes) (used : Set FlashAddress) : Prop where
  plane : ∀ addr, addr.InRange g → PlaneInv g (planes addr) (usedIn used addr)
  used_inRange : ∀ addr ∈ used, addr.InRange g

variable {g : Geometry} {planes planes' : Planes} {used : Set FlashAddress} {plane : PlaneAllocator}
  {env : BmEnv} {files files' : BmFiles}

/-- What one allocation does: it returns the next page of the frontier and
retires a frontier that has become full. -/
theorem bmAllocPage_eq_some
    (halloc : bmAllocPage g planes nsid addr forGc forMapping = some (result, planes')) :
    addr.InRange g ∧ ∃ block, (planes addr).wf (Role.ofFlags forGc forMapping) = some block ∧
      result = ⟨addr, block, (pageIdxMap g).getD ((planes addr).blocks block).pageWriteIndex 0⟩ ∧
      planes' = update planes addr (let role := Role.ofFlags forGc forMapping
        let index := ((planes addr).blocks block).pageWriteIndex
        let plane := (planes addr).modifyBlock block fun data =>
          { data with pageWriteIndex := index + 1 }
        if index + 1 = g.pagesUsed then
          (plane.getFreeBlock nsid forMapping).2.setWf role (plane.getFreeBlock nsid forMapping).1
        else plane) := by
  simp only [bmAllocPage] at halloc
  split at halloc
  · rename_i hrange
    split at halloc
    · simp at halloc
    · rename_i block hwf
      simp only [some.injEq, Prod.mk.injEq] at halloc
      exact ⟨hrange, block, hwf, halloc.1.symm, halloc.2.symm⟩
  · simp at halloc

variable (hinv : BmInv g planes used)
include hinv

/-- The page that `bm_alloc_page` returns has never been handed out before. -/
theorem bmAllocPage_fresh
    (halloc : bmAllocPage g planes nsid addr forGc forMapping = some (result, planes')) :
    result ∉ used ∧ result.InRange g ∧ BmInv g planes' (insert result used) := by
  obtain ⟨hrange, block, hwf, rfl, rfl⟩ := bmAllocPage_eq_some halloc
  have hplane := hinv.plane addr hrange
  obtain ⟨hfresh, hretire, hkeep⟩ := hplane.handOut hwf
  have hindex := hplane.wf_index _ block hwf
  have hpages := g.pagesUsed_le
  have hresult : FlashAddress.InRange g ⟨addr, block, (pageIdxMap g).getD
      ((planes addr).blocks block).pageWriteIndex 0⟩ :=
    ⟨hrange, hplane.wf_lt _ block hwf, pageIdxMap_getD_lt g (by omega)⟩
  refine ⟨hfresh, hresult, ?_, ?_⟩
  · intro other hother
    by_cases hsame : other = addr
    · subst hsame
      rw [update_self, usedIn_insert_self]
      simp only
      split
      · exact PlaneInv.refill _ nsid forMapping hretire
      · exact hkeep ‹_›
    · rw [update_of_ne hsame, usedIn_insert_of_ne used hsame]
      exact hinv.plane other hother
  · intro other hother
    rcases Set.mem_insert_iff.mp hother with rfl | hold
    · exact hresult
    · exact hinv.used_inRange other hold

/-- An update of one block that leaves its write index alone does not touch
the frontiers. -/
theorem BmInv.modifyBlock {update : BlockData → BlockData}
    (hindex : ∀ data, (update data).pageWriteIndex = data.pageWriteIndex)
    (addr : PlaneAddr) (block : ℕ) :
    BmInv g (Function.update planes addr ((planes addr).modifyBlock block update)) used := by
  refine ⟨fun other hother => ?_, hinv.used_inRange⟩
  by_cases hsame : other = addr
  · subst hsame
    rw [update_self]
    refine (hinv.plane _ hother).restrict rfl (by simp) ?_
    intro otherBlock
    by_cases hblock : otherBlock = block
    · subst hblock
      simp [hindex]
    · simp [hblock]
  · rw [update_of_ne hsame]
    exact hinv.plane other hother

/-- Counting a page as invalid does not touch the frontiers. -/
theorem BmInv.invalidatePage (addr : FlashAddress) :
    BmInv g (bmInvalidatePage planes addr) used := by
  rw [bmInvalidatePage]
  apply hinv.modifyBlock
  intro data
  rfl

omit hinv

/-! ### Restart -/

/-- A plane right after its free list was filled and before it has
frontiers, with no block of the list touched. -/
structure FreshPlane (g : Geometry) (plane : PlaneAllocator)
    (used : Set (ℕ × ℕ)) : Prop where
  nodup : plane.freeList.Nodup
  lt : ∀ block ∈ plane.freeList, block < g.blocksPerPlane
  unused : ∀ block ∈ plane.freeList, ∀ page, (block, page) ∉ used
  index : ∀ block, (plane.blocks block).pageWriteIndex = 0
  no_wf : ∀ role, plane.wf role = none

namespace FreshPlane

variable {g : Geometry} {plane : PlaneAllocator} {used : Set (ℕ × ℕ)}

variable (hfresh : FreshPlane g plane used)
include hfresh

theorem planeInv : PlaneInv g plane used := by
  have hno : ∀ role block, plane.wf role ≠ some block := by
    intro role block
    rw [hfresh.no_wf role]
    simp
  exact ⟨hfresh.nodup, hfresh.lt, fun block _ => hfresh.index block,
    hfresh.unused, fun role block h => absurd h (hno role block),
    fun role block h => absurd h (hno role block), fun role _ block h => absurd h (hno role block),
    fun role block h => absurd h (hno role block), fun role block h => absurd h (hno role block)⟩

theorem dropBad (block : ℕ) : FreshPlane g (plane.dropBad block) used := by
  refine ⟨hfresh.nodup.erase block, ?_, ?_, ?_, ?_⟩
  · exact fun other hother => hfresh.lt other (mem_of_mem_erase hother)
  · exact fun other hother => hfresh.unused other (mem_of_mem_erase hother)
  · intro other
    by_cases hsame : other = block
    · subst hsame
      simpa [PlaneAllocator.dropBad] using hfresh.index other
    · simpa [PlaneAllocator.dropBad, hsame] using hfresh.index other
  · intro role
    have hwf := hfresh.no_wf role
    cases role <;> exact hwf

theorem foldl_dropBad (blocks : List ℕ) :
    FreshPlane g (blocks.foldl PlaneAllocator.dropBad plane) used := by
  induction blocks generalizing plane with
  | nil => exact hfresh
  | cons block blocks ih => exact ih (hfresh.dropBad block)

theorem initWf : PlaneInv g plane.initWf used := by
  have hdata := PlaneInv.refill Role.data 1 false (hfresh.planeInv.setWf_none Role.data)
  have hgc := PlaneInv.refill Role.gc 1 false (hdata.setWf_none Role.gc)
  exact PlaneInv.refill Role.mapping 1 true (hgc.setWf_none Role.mapping)

omit hfresh

/-- The first `nr` blocks in the free list, each put in front of it. -/
theorem foldl_reset (nr : ℕ) (plane : PlaneAllocator) :
    let reset := (range nr).foldl (fun (plane : PlaneAllocator) block =>
      { plane with
        freeList := block :: plane.freeList
        freeListSize := plane.freeListSize + 1 }) plane
    reset.freeList = (range nr).reverse ++ plane.freeList ∧
      reset.blocks = plane.blocks ∧ ∀ role, reset.wf role = plane.wf role := by
  induction nr with
  | zero => simp
  | succ nr ih =>
    rw [range_succ, foldl_append]
    obtain ⟨hlist, hblocks, hwf⟩ := ih
    refine ⟨?_, ?_, ?_⟩
    · simp [hlist]
    · simpa using hblocks
    · intro role
      rw [← hwf role]
      cases role <;> rfl

theorem resetBlocks (g : Geometry) : FreshPlane g ((init g).resetBlocks g) ∅ := by
  obtain ⟨hlist, hblocks, hwf⟩ := foldl_reset g.blocksPerPlane (init g)
  refine ⟨?_, ?_, ?_, ?_, ?_⟩
  · rw [PlaneAllocator.resetBlocks, hlist]
    simp [init, nodup_range]
  · intro block hmem
    rw [PlaneAllocator.resetBlocks, hlist] at hmem
    simpa [init] using hmem
  · simp
  · intro block
    rw [PlaneAllocator.resetBlocks, hblocks]
    rfl
  · intro role
    rw [PlaneAllocator.resetBlocks, hwf]
    cases role <;> rfl

theorem resetBlocks_size (g : Geometry) :
    ((init g).resetBlocks g).freeListSize = ((init g).resetBlocks g).freeList.length := by
  rw [PlaneAllocator.resetBlocks]
  induction g.blocksPerPlane with
  | zero => rfl
  | succ nr ih =>
    rw [range_succ, foldl_append]
    simp [ih]

/-- A restored plane is fresh when the map names untouched blocks only. -/
theorem restoreFree {map : Bitmap}
    (hmap : ∀ block < g.blocksPerPlane, map.getBit block = true → ∀ page, (block, page) ∉ used) :
    FreshPlane g ((PlaneAllocator.init g).restoreFree g map) used := by
  have hmem : ∀ block, block ∈ ((PlaneAllocator.init g).restoreFree g map).freeList ↔
        block < g.blocksPerPlane ∧ map.getBit block = true := by
    intro block
    simp [PlaneAllocator.restoreFree, PlaneAllocator.init]
  refine ⟨?_, ?_, ?_, fun _ => rfl, ?_⟩
  · simpa [PlaneAllocator.restoreFree, PlaneAllocator.init] using nodup_range.filter _
  · exact fun block hblock => ((hmem block).mp hblock).1
  · exact fun block hblock => hmap block ((hmem block).mp hblock).1 ((hmem block).mp hblock).2
  · intro role
    cases role <;> rfl

end FreshPlane

theorem length_freeMap (g : Geometry) (plane : PlaneAllocator) :
    (plane.freeMap g).length = bitchunks g.blocksPerPlane := by
  simp [freeMap]

theorem length_badMap (g : Geometry) (plane : PlaneAllocator) :
    (plane.badMap g).length = bitchunks g.blocksPerPlane := by
  simp [badMap]

variable {block : ℕ}

theorem mem_unusedWf {role : Role} :
    block ∈ plane.unusedWf role ↔ plane.wf role = some block ∧
      (plane.blocks block).pageWriteIndex = 0 := by
  rw [unusedWf]
  cases hwf : plane.wf role with
  | none => simp
  | some front =>
    by_cases hzero : (plane.blocks front).pageWriteIndex = 0
    · simp only [hzero, if_true, mem_singleton, some.injEq]
      constructor
      · rintro rfl
        exact ⟨rfl, hzero⟩
      · exact fun h => h.1.symm
    · simp only [hzero, if_false, not_mem_nil, some.injEq, false_iff]
      rintro ⟨rfl, h⟩
      exact hzero h

theorem savedFree_subset (plane : PlaneAllocator) : plane.savedFree ⊆ plane.freeList := by
  rw [savedFree]
  split
  · exact List.Subset.refl _
  · exact take_subset _ _

/-- The saved map names blocks of the free list and unused frontiers; no page
of either has been handed out. -/
theorem PlaneInv.freeMap_unused {used : Set (ℕ × ℕ)} (hinv : PlaneInv g plane used)
    (hbit : (plane.freeMap g).getBit block = true) (page : ℕ) : (block, page) ∉ used := by
  have hwf : ∀ role, ∀ front ∈ plane.unusedWf role,
      front < g.blocksPerPlane ∧ ∀ page, (front, page) ∉ used := by
    intro role front hfront
    obtain ⟨hsome, hzero⟩ := mem_unusedWf.mp hfront
    refine ⟨hinv.wf_lt role front hsome, fun page hused => ?_⟩
    obtain ⟨index, hindex, _⟩ := hinv.wf_used role front hsome page hused
    omega
  have hall : ∀ front ∈ plane.savedFree ++ plane.unusedWf .data ++
      plane.unusedWf .mapping ++ plane.unusedWf .gc,
      front < g.blocksPerPlane ∧ ∀ page, (front, page) ∉ used := by
    intro front hfront
    simp only [mem_append] at hfront
    rcases hfront with ((hfree | hdata) | hmapping) | hgc
    · have hmem := savedFree_subset plane hfree
      exact ⟨hinv.free_lt front hmem, hinv.free_unused front hmem⟩
    · exact hwf .data front hdata
    · exact hwf .mapping front hmapping
    · exact hwf .gc front hgc
  rw [freeMap, getBit_setBits _ _ _ (by
    intro front hfront
    simpa using lt_bitchunks (hall front hfront).1)] at hbit
  simp only [getBit_zero, Bool.or_false, decide_eq_true_eq] at hbit
  exact (hall block hbit).2 page

/-- What `bm_init` may find in the plane file for its planes to be sound:
nothing, or maps of untouched blocks. -/
def PlaneFileSound (g : Geometry) (used : Set FlashAddress) (file : Option (List PageBuf)) : Prop :=
  match file with
  | none => used = ∅
  | some pages => ∀ maps, unpackFile (planesPerPage g) (bitchunks g.blocksPerPlane)
        (planeAddrs g).length pages = some maps →
      ∀ addr map, (addr, map) ∈ (planeAddrs g).zip maps →
        ∀ block < g.blocksPerPlane, map.getBit block = true →
          ∀ page, (⟨addr, block, page⟩ : FlashAddress) ∉ used

theorem planeFileSound_empty (g : Geometry) (file : Option (List PageBuf)) :
    PlaneFileSound g ∅ file := by
  cases file with
  | none => rfl
  | some pages => exact fun _ _ _ _ _ _ _ _ _ => Set.notMem_empty _

/-- The file an orderly shutdown leaves is sound for the next start. -/
theorem BmInv.shutdown_sound (hinv : BmInv g planes used) (env : BmEnv) (files : BmFiles) :
    PlaneFileSound g used (bmShutdown g env planes files).planeInfo := by
  intro maps hunpack addr map hmem block hblock hbit page
  rw [savePlaneInfo, unpackFile_saved g env.buf (fun addr => (planes addr).freeMap g)
    (fun addr => length_freeMap g (planes addr)), some.injEq] at hunpack
  subst hunpack
  have hrange : addr.InRange g := mem_planeAddrs.mp (of_mem_zip hmem).1
  rw [eq_of_mem_zip_map hmem] at hbit
  exact (hinv.plane addr hrange).freeMap_unused hbit page

/-- The first part of a start: the free lists are filled again, or read from a
sound file.  A wipe forgets what was handed out. -/
theorem bmInitPlanes_started {wipe : Bool}
    (hsound : wipe = false → PlaneFileSound g used files.planeInfo) (hwipe : wipe = true → used = ∅)
    (hinit : bmInitPlanes g env files wipe = some (planes, files')) (haddr : addr.InRange g) :
    FreshPlane g (planes addr) (usedIn used addr) ∧
      (planes addr).freeListSize = (planes addr).freeList.length := by
  have hreset : used = ∅ → FreshPlane g ((init g).resetBlocks g) (usedIn used addr) ∧
        ((init g).resetBlocks g).freeListSize = ((init g).resetBlocks g).freeList.length := by
    intro hempty
    have hin : usedIn used addr = ∅ := by simp [hempty, usedIn]
    rw [hin]
    exact ⟨FreshPlane.resetBlocks g, FreshPlane.resetBlocks_size g⟩
  cases hfile : files.planeInfo with
  | none =>
    rw [hfile] at hsound
    simp only [bmInitPlanes, hfile, some.injEq, Prod.mk.injEq] at hinit
    rw [← hinit.1]
    cases wipe with
    | false => exact hreset (hsound rfl)
    | true => exact hreset (hwipe rfl)
  | some pages =>
    rw [hfile] at hsound
    cases wipe with
    | true =>
      simp only [bmInitPlanes, hfile, some.injEq, Prod.mk.injEq] at hinit
      rw [← hinit.1]
      exact hreset (hwipe rfl)
    | false =>
      simp only [bmInitPlanes, hfile, restorePlaneInfo, Option.map_map,
        map_eq_some_iff, comp, Prod.mk.injEq] at hinit
      obtain ⟨maps, hunpack, rfl, _⟩ := hinit
      obtain ⟨map, hmem, heq⟩ := updatePlanes_zip g (restoreFree g) (length_unpackFile hunpack)
        (fun _ => init g) haddr
      rw [heq]
      constructor
      · apply FreshPlane.restoreFree
        exact fun block hblock hbit page =>
          hsound rfl maps hunpack addr map hmem block hblock hbit page
      · simp [restoreFree, init]

theorem bmInitPlanes_fresh (hsound : PlaneFileSound g used files.planeInfo)
    (hinit : bmInitPlanes g env files false = some (planes, files'))
    (haddr : addr.InRange g) : FreshPlane g (planes addr) (usedIn used addr) :=
  (bmInitPlanes_started (fun _ => hsound) (fun h => absurd h (by decide)) hinit haddr).1

variable (hinit : bmInitBad g env planes files = some (planes', files'))
include hinit

/-- The second part of a start unlinks blocks, those of the file or those that
fail the test. -/
theorem bmInitBad_drops (haddr : addr.InRange g) :
    ∃ blocks : List ℕ, planes' addr = blocks.foldl dropBad (planes addr) := by
  cases hfile : files.badBlocks with
  | none =>
    simp only [bmInitBad, hfile, some.injEq, Prod.mk.injEq] at hinit
    rw [← hinit.1]
    exact ⟨_, rfl⟩
  | some pages =>
    simp only [bmInitBad, hfile, restoreBadBlocks, Option.map_map,
      map_eq_some_iff, comp, Prod.mk.injEq] at hinit
    obtain ⟨maps, hunpack, rfl, _⟩ := hinit
    obtain ⟨map, _, heq⟩ := updatePlanes_zip g
      (restoreBad g) (length_unpackFile hunpack) planes haddr
    exact ⟨_, heq⟩

/-- Unlinking bad blocks only shortens the free lists. -/
theorem bmInitBad_fresh
    (haddr : addr.InRange g) (hfresh : FreshPlane g (planes addr) (usedIn used addr)) :
    FreshPlane g (planes' addr) (usedIn used addr) := by
  obtain ⟨blocks, heq⟩ := bmInitBad_drops hinit haddr
  rw [heq]
  exact hfresh.foldl_dropBad blocks

omit hinit

/-- A start without wipe and full scan from a sound plane file establishes
the invariant. -/
theorem bmInit_inv (hsound : PlaneFileSound g used files.planeInfo)
    (hrange : ∀ addr ∈ used, addr.InRange g)
    (hinit : bmInit g env files false false = some (planes, files')) : BmInv g planes used := by
  simp only [bmInit, bind_eq_bind, bind_eq_some_iff] at hinit
  obtain ⟨⟨restored, files₁⟩, hrestore, ⟨scanned, files₂⟩, hscan, hinit⟩ := hinit
  simp only [bmInitScan, Bool.false_eq_true, if_false, some.injEq, Prod.mk.injEq] at hinit
  obtain ⟨rfl, rfl⟩ := hinit
  refine ⟨fun addr haddr => ?_, hrange⟩
  have hfresh := bmInitPlanes_fresh hsound hrestore haddr
  exact (bmInitBad_fresh hscan haddr hfresh).initWf

/-! ### Histories -/

/-- One action on the block manager: an allocation, or an orderly restart
(`bm_shutdown` followed by `bm_init` without wipe and full scan). -/
inductive BmOp
  | alloc (nsid : ℕ) (addr : PlaneAddr) (forGc forMapping : Bool)
  | restart

/-- The pages handed out by a history, in order.  There is no result when an
allocation meets a null frontier or a start panics. -/
def runBm (g : Geometry) (env : BmEnv) :
    List BmOp → Planes × BmFiles → Option (List FlashAddress)
  | [], _ => some []
  | .alloc nsid addr forGc forMapping :: ops, (planes, files) => do
      let (page, planes) ← bmAllocPage g planes nsid addr forGc forMapping
      let pages ← runBm g env ops (planes, files)
      some (page :: pages)
  | .restart :: ops, (planes, files) => do
      let started ← bmInit g env (bmShutdown g env planes files) false false
      runBm g env ops started

/-- From a sound state a history returns pages that are pairwise distinct and
were not handed out before it. -/
theorem runBm_fresh {ops : List BmOp} {pages : List FlashAddress} (hinv : BmInv g planes used)
    (hrun : runBm g env ops (planes, files) = some pages) :
    pages.Nodup ∧ ∀ page ∈ pages, page ∉ used := by
  induction ops generalizing planes files used pages with
  | nil =>
    simp only [runBm, some.injEq] at hrun
    simp [← hrun]
  | cons op ops ih =>
    cases op with
    | alloc nsid addr forGc forMapping =>
      simp only [runBm, bind_eq_bind, bind_eq_some_iff, some.injEq] at hrun
      obtain ⟨⟨page, planes'⟩, halloc, rest, hrest, rfl⟩ := hrun
      obtain ⟨hpage, _, hinv'⟩ := bmAllocPage_fresh hinv halloc
      obtain ⟨hnodup, hnew⟩ := ih hinv' hrest
      refine ⟨nodup_cons.mpr ⟨?_, hnodup⟩, ?_⟩
      · intro hmem
        exact hnew page hmem (Set.mem_insert _ _)
      · intro other hother
        rcases mem_cons.mp hother with rfl | htail
        · exact hpage
        · exact fun hold => hnew other htail (Set.mem_insert_of_mem _ hold)
    | restart =>
      simp only [runBm, bind_eq_bind, bind_eq_some_iff] at hrun
      obtain ⟨⟨planes', files'⟩, hinit, hrest⟩ := hrun
      have hinv' := bmInit_inv (hinv.shutdown_sound env files) hinv.used_inRange hinit
      exact ih hinv' hrest

/-- Over any history of allocations for user data, garbage collection and
mapping, interleaved with orderly restarts, no (plane, block, page) triple is
returned twice, whatever files the first start finds. -/
theorem runBm_pages_nodup {g : Geometry} {env : BmEnv} {files files' : BmFiles}
    {planes : Planes} {ops : List BmOp} {pages : List FlashAddress}
    (hboot : bmInit g env files false false = some (planes, files'))
    (hrun : runBm g env ops (planes, files') = some pages) : pages.Nodup :=
  (runBm_fresh (bmInit_inv (planeFileSound_empty g files.planeInfo)
    (fun _ h => absurd h (Set.notMem_empty _)) hboot) hrun).1

def benchHistory : List BmOp :=
  replicate 5 (.alloc 1 ⟨0, 0, 0, 0⟩ false false) ++ [.restart] ++
    replicate 3 (.alloc 1 ⟨0, 0, 0, 0⟩ false true)

def benchPages : List FlashAddress :=
  [(11, 0), (11, 1), (11, 4), (11, 5), (8, 0), (2, 0), (2, 1), (2, 4)].map
    fun slot => ⟨⟨0, 0, 0, 0⟩, slot.1, slot.2⟩

/-- On the first start of a small device, the half-used data frontier of the
first run, block 8, is not used again. -/
theorem runBm_pages_nodup_bench :
    ∃ planes files, bmInit benchGeometry benchEnv ⟨none, none⟩ false false = some (planes, files) ∧
      runBm benchGeometry benchEnv benchHistory (planes, files) =
        some benchPages ∧ benchPages.Nodup :=
  ⟨_, _, rfl, rfl, @runBm_pages_nodup benchGeometry benchEnv ⟨none, none⟩ _ _
    benchHistory benchPages rfl rfl⟩

end Soda
