import Soda.HostIf.PrpWalk

/-!
# Agreement on PRPs

The device visits a buffer as `setup_buffer` has described it if the buffer
touches at most 513 pages.  Beyond that the host forgets to start again at the
head of the second list page.
-/

namespace Soda

open Function Prog List

/-! ### Writing a list of one page -/

/-- After `pages` entries were written from index `i` of a list page on. -/
structure ListWritten (host host' : HostMem) (prpList i buf pages : ℕ) : Prop where
  entry : ∀ j < pages, host'.word (prpList + (i + j) * 8) = (buf + j * nvmePageSize) % 2 ^ 64
  other : ∀ addr < prpList + i * 8, host'.word addr = host.word addr
  written : ∀ addr ∈ host'.written, addr ∈ host.written ∨ ∃ j < pages, addr = prpList + (i + j) * 8
  allocated : host'.allocated = host.allocated

variable {buf buflen count i pages prpList rounds : ℕ} {host : HostMem}

theorem prpListLoop_written {page : ℕ → ℕ}
    (hlist : prpList + nvmePageSize ≤ 2 ^ 64) (hbuf : buf < 2 ^ 64)
    (hpos : 0 < buflen) (hlow : nvmePageSize * pages < buflen + nvmePageSize)
    (hhigh : buflen ≤ nvmePageSize * pages) (hi : i + pages ≤ prpsPerPage)
    (hrounds : buflen ≤ rounds) :
    ListWritten host (prpListLoop page rounds i prpList buf buflen host) prpList i buf pages := by
  induction rounds generalizing i buf buflen pages host with
  | zero => omega
  | succ rounds ih =>
    simp only [nvmePageSize, prpsPerPage] at hlist hlow hhigh hi
    have hroom : i ≠ prpsPerPage := by
      simp only [prpsPerPage]
      omega
    have haddr : (prpList + i * 8) % 2 ^ 64 = prpList + i * 8 := Nat.mod_eq_of_lt (by omega)
    simp only [prpListLoop, chainPrpList, if_neg hroom, haddr]
    split
    · rename_i hend
      simp only [nvmePageSize] at hend
      obtain rfl : pages = 1 := by omega
      refine ⟨?_, ?_, ?_, rfl⟩
      · intro j hj
        obtain rfl : j = 0 := by omega
        simp only [HostMem.write, add_zero, zero_mul, update_self]
        exact (Nat.mod_eq_of_lt hbuf).symm
      · intro addr hother
        exact update_of_ne (by omega) _ _
      · intro addr hmem
        rcases mem_cons.mp hmem with rfl | hmem
        · exact .inr ⟨0, one_pos, rfl⟩
        · exact .inl hmem
    · rename_i hend
      simp only [nvmePageSize] at hend
      obtain ⟨more, rfl⟩ : ∃ more, pages = more + 1 := ⟨pages - 1, by omega⟩
      have hrest : ListWritten (host.write (prpList + i * 8) buf)
          (prpListLoop page rounds (i + 1) prpList ((buf + nvmePageSize) % 2 ^ 64)
            (buflen - nvmePageSize) (host.write (prpList + i * 8) buf))
          prpList (i + 1) ((buf + nvmePageSize) % 2 ^ 64) more := by
        apply ih (Nat.mod_lt _ (Nat.two_pow_pos 64)) <;>
          simp only [nvmePageSize, prpsPerPage] <;> omega
      refine ⟨?_, ?_, ?_, hrest.allocated⟩
      · intro j hj
        cases j with
        | zero =>
          rw [hrest.other _ (by omega)]
          simp only [HostMem.write, add_zero, zero_mul, update_self]
          exact (Nat.mod_eq_of_lt hbuf).symm
        | succ j =>
          have hentry := hrest.entry j (by omega)
          rw [show i + (j + 1) = i + 1 + j by omega, hentry]
          simp only [nvmePageSize]
          omega
      · intro addr hother
        rw [hrest.other addr (by omega)]
        exact update_of_ne (by omega) _ _
      · intro addr hmem
        rcases hrest.written addr hmem with hmem | ⟨j, hj, rfl⟩
        · rcases mem_cons.mp hmem with rfl | hmem
          · exact .inr ⟨0, by omega, rfl⟩
          · exact .inl hmem
        · exact .inr ⟨j + 1, by omega, by omega⟩

theorem chainPrpList_allocated_le (page : ℕ → ℕ) (i prpList : ℕ) (host : HostMem) :
    host.allocated ≤ (chainPrpList page i prpList host).2.allocated := by
  rw [chainPrpList]
  split
  · exact Nat.le_succ _
  · exact le_rfl

theorem prpListLoop_allocated_le (page : ℕ → ℕ) (rounds i prpList buf buflen : ℕ) (host : HostMem) :
    host.allocated ≤ (prpListLoop page rounds i prpList buf buflen host).allocated := by
  induction rounds generalizing i prpList buf buflen host with
  | zero => exact le_rfl
  | succ rounds ih =>
    have hchain := chainPrpList_allocated_le page i prpList host
    simp only [prpListLoop]
    split
    · exact hchain
    · refine hchain.trans (le_trans ?_ (ih _ _ _ _ _))
      exact le_rfl

/-! ### Agreement -/

/-- What the host relies on: `allocate_pages` hands out distinct whole pages. -/
structure PagesAllocated (page : ℕ → ℕ) (allocated : ℕ) : Prop where
  aligned : ∀ k < allocated, page k % nvmePageSize = 0
  inside : ∀ k < allocated, page k + nvmePageSize ≤ 2 ^ 64
  distinct : ∀ k < allocated, ∀ l < allocated, page k = page l → k = l

/-- Whatever the allocator returns and memory and the list buffer of the
device hold, the host writes to its list pages only, and the device visits the
bytes of the buffer in order unless a transfer fails. -/
def PrpAgrees (buf buflen : ℕ) : Prop :=
  ∀ (page : ℕ → ℕ) (prp2 : ℕ) (word prpList : ℕ → ℕ) (faults : ℕ → Status),
    let setup := setupBuffer page prp2 word buf buflen
    PagesAllocated page setup.host.allocated →
    (∀ addr ∈ setup.host.written, ∃ k < setup.host.allocated,
      page k ≤ addr ∧ addr + 8 ≤ page k + nvmePageSize) ∧
    (exec (fun wait _ => wait.elim)
      (transferPrpData faults setup.host.word prpList setup.prp1 setup.prp2
        buflen buflen) ⟨0, [], []⟩).Meets (fun _ => False) False fun status s =>
        (status = none → s.visited.flatMap dmaBytes = dmaBytes (buf, buflen)) ∧
          (status ≠ none → ∃ tick, faults tick = status)

theorem pageBytes_range (addr : ℕ) (hcount : count ≤ nvmePageSize * pages) :
    pageBytes ((range pages).map fun j => (addr + j * nvmePageSize) % 2 ^ 64)
      count = dmaBytes (addr, count) := by
  induction pages generalizing addr count with
  | zero =>
    obtain rfl : count = 0 := Nat.le_zero.mp hcount
    rfl
  | succ pages ih =>
    have hmod : ∀ size, dmaBytes (addr % 2 ^ 64, size) = dmaBytes (addr, size) := by
      intro size
      simp only [dmaBytes, Nat.mod_add_mod]
    have hnext : ∀ j, addr + (j + 1) * nvmePageSize = addr + nvmePageSize + j * nvmePageSize := by
      intro j
      rw [add_mul, one_mul]
      omega
    rw [range_succ_eq_map, map_cons, map_map, pageBytes_cons]
    simp only [comp_def, Nat.succ_eq_add_one, hnext, Nat.zero_mul, Nat.add_zero]
    rw [ih (addr + nvmePageSize), hmod]
    · by_cases hend : count ≤ nvmePageSize
      · rw [Nat.min_eq_right hend, Nat.sub_self]
        exact append_nil _
      · have hle : nvmePageSize ≤ count := Nat.le_of_not_le hend
        rw [min_eq_left hle]
        conv_rhs => rw [← Nat.add_sub_cancel' hle, dmaBytes_add]
        simp only [dmaBytes, Nat.mod_add_mod]
    · simp only [nvmePageSize] at hcount ⊢
      omega

/-- A buffer that the two entries or a list of one page describe. -/
theorem wp_transferPrpData_buffer {faults : ℕ → Status} {word prpList : ℕ → ℕ}
    {prp2 : ℕ} (hlow : nvmePageSize * pages < buflen - prpFirst buf + nvmePageSize)
    (hhigh : buflen - prpFirst buf ≤ nvmePageSize * pages)
    (hdirect : buflen - prpFirst buf ≤ nvmePageSize → prpFirst buf < buflen →
      prp2 = (buf + prpFirst buf) % 2 ^ 64) (hlisted : nvmePageSize < buflen - prpFirst buf →
      prp2 % nvmePageSize = 0 ∧ prp2 < 2 ^ 64 ∧ pages ≤ prpsPerPage ∧
        ∀ j < pages, word (prp2 + j * 8) =
          ((buf + prpFirst buf) % 2 ^ 64 + j * nvmePageSize) % 2 ^ 64) {tolerated : Fault → Prop} :
    wp (prpRules tolerated) (transferPrpData faults word prpList buf prp2 buflen buflen)
      (fun status s =>
        (status = none → s.visited.flatMap dmaBytes = dmaBytes (buf, buflen)) ∧
          (status ≠ none → ∃ tick, faults tick = status)) ⟨0, [], []⟩ := by
  obtain ⟨named, hnamed⟩ : ∃ named : List ℕ, named = (range pages).map
      fun j => ((buf + prpFirst buf) % 2 ^ 64 + j * nvmePageSize) % 2 ^ 64 :=
    ⟨_, rfl⟩
  have hlength : named.length = pages := by
    rw [hnamed, length_map, length_range]
  have hpages : ∀ page ∈ named, ∃ j < pages,
      ((buf + prpFirst buf) % 2 ^ 64 + j * nvmePageSize) % 2 ^ 64 = page := by
    intro page hpage
    rw [hnamed] at hpage
    obtain ⟨j, hj, hpage⟩ := mem_map.mp hpage
    exact ⟨j, mem_range.mp hj, hpage⟩
  have hbytes : dmaBytes (buf, min (prpFirst buf) buflen) ++
      pageBytes named (buflen - prpFirst buf) = dmaBytes (buf, buflen) := by
    rw [hnamed, pageBytes_range _ hhigh]
    conv_rhs => rw [show buflen = min (prpFirst buf) buflen +
      (buflen - prpFirst buf) by omega, dmaBytes_add]
    by_cases hone : buflen ≤ prpFirst buf
    · rw [Nat.sub_eq_zero_of_le hone]
      rfl
    · rw [Nat.min_eq_left (Nat.le_of_not_le hone)]
  have hwalk := @wp_transferPrpData faults word tolerated prpList named [(prp2, named.length)] buf
    prp2 buflen buflen le_rfl (by rw [Spans, hlength]; exact ⟨hlow, hhigh⟩) ?_ ?_ ?_
  · rw [hbytes] at hwalk
    exact wp_mono hwalk fun _ _ hwalked => ⟨hwalked.moved, hwalked.failed⟩
  · intro page hpage
    obtain ⟨j, -, rfl⟩ := hpages page hpage
    simp only [prpFirst, nvmePageSize]
    omega
  · intro hsmall page hpage
    obtain ⟨j, hj, rfl⟩ := hpages page hpage
    simp only [prpFirst, nvmePageSize] at hlow hsmall hdirect ⊢
    obtain rfl : j = 0 := by omega
    rw [hdirect hsmall (by omega)]
    omega
  · intro hlarge _
    obtain ⟨hprp2, hbits, hroom, hword⟩ := hlisted hlarge
    rw [hlength]
    simp only [nvmePageSize, prpsPerPage] at hprp2 hroom
    refine ⟨by omega, hbits, by omega, ?_⟩
    rw [← hlength]
    refine .last ?_ ?_
    · simp only [prpRoom, nvmePageSize, hprp2]
      omega
    · intro j page hpage
      rw [hnamed, getElem?_map] at hpage
      obtain ⟨k, hk, rfl⟩ := Option.map_eq_some_iff.mp hpage
      obtain ⟨hj, rfl⟩ := List.getElem?_eq_some_iff.mp hk
      rw [length_range] at hj
      rw [getElem_range]
      exact hword _ hj

theorem setupBuffer_list (page : ℕ → ℕ) (prp2 : ℕ) (word : ℕ → ℕ)
    (hlarge : nvmePageSize * 2 < buf % nvmePageSize + buflen)
    (hbits : buf % nvmePageSize + buflen < 2 ^ 64) :
    setupBuffer page prp2 word buf buflen = ⟨buf, page 0,
      prpListLoop page (buflen - prpFirst buf) 0 (page 0)
        ((buf + prpFirst buf) % 2 ^ 64) (buflen - prpFirst buf) ⟨word, [], 1⟩⟩ := by
  simp only [setupBuffer, prpFirst]
  rw [if_neg]
  rw [Nat.mod_eq_of_lt hbits]
  exact not_le.mpr hlarge

/-- The two programs agree on a buffer that touches at most 513 pages. -/
theorem prpAgrees_of_fits (hfits : buf % nvmePageSize + buflen ≤ nvmePageSize * (prpsPerPage + 1)) :
    PrpAgrees buf buflen := by
  intro page prp2 word prpList faults setup hpages
  rw [← wp_alone]
  have hbits : buf % nvmePageSize + buflen < 2 ^ 64 := by
    simp only [nvmePageSize, prpsPerPage] at hfits ⊢
    omega
  obtain ⟨pages, hlow, hhigh, hcount⟩ : ∃ pages,
      nvmePageSize * pages < buflen - prpFirst buf + nvmePageSize ∧
      buflen - prpFirst buf ≤ nvmePageSize * pages ∧ pages ≤ prpsPerPage := by
    refine ⟨(buflen - prpFirst buf + 4095) / 4096, ?_⟩
    simp only [prpFirst, nvmePageSize, prpsPerPage] at hfits ⊢
    omega
  by_cases hsmall : buf % nvmePageSize + buflen ≤ nvmePageSize * 2
  · have hsetup : setup = ⟨buf, if prpFirst buf < buflen then
        (buf + prpFirst buf) % 2 ^ 64 else prp2, ⟨word, [], 0⟩⟩ := by
      rw [← Nat.mod_eq_of_lt hbits] at hsmall
      exact if_pos hsmall
    rw [hsetup]
    refine ⟨by simp, wp_transferPrpData_buffer hlow hhigh ?_ ?_⟩
    · intro _ hmore
      exact if_pos hmore
    · intro hlarge
      simp only [prpFirst, nvmePageSize] at hsmall hlarge
      omega
  · have hlarge : nvmePageSize * 2 < buf % nvmePageSize + buflen := Nat.lt_of_not_le hsmall
    have hsetup := setupBuffer_list page prp2 word hlarge hbits
    have hone : 0 < setup.host.allocated := by
      simp only [setup, hsetup]
      exact prpListLoop_allocated_le page _ _ _ _ _ ⟨word, [], 1⟩
    have hinside := hpages.inside 0 hone
    have hwritten : ListWritten ⟨word, [], 1⟩ setup.host (page 0) 0
        ((buf + prpFirst buf) % 2 ^ 64) pages := by
      simp only [setup, hsetup]
      apply prpListLoop_written hinside (Nat.mod_lt _ (Nat.two_pow_pos 64)) _ hlow hhigh _ le_rfl
      · simp only [prpFirst, nvmePageSize] at hlarge ⊢
        omega
      · rw [zero_add]
        exact hcount
    constructor
    · intro addr haddr
      rcases hwritten.written addr haddr with hmem | ⟨j, hj, rfl⟩
      · exact absurd hmem not_mem_nil
      · refine ⟨0, hone, ?_⟩
        simp only [nvmePageSize, prpsPerPage] at hcount ⊢
        omega
    · have hprp1 : setup.prp1 = buf := by simp only [setup, hsetup]
      have hprp2 : setup.prp2 = page 0 := by simp only [setup, hsetup]
      rw [hprp1, hprp2]
      apply wp_transferPrpData_buffer hlow hhigh
      · intro hdirect
        simp only [prpFirst, nvmePageSize] at hlarge hdirect
        omega
      · intro _
        simp only [nvmePageSize] at hinside
        refine ⟨hpages.aligned 0 hone, by omega, hcount, ?_⟩
        intro j hj
        have hentry := hwritten.entry j hj
        rw [zero_add] at hentry
        exact hentry

/-! ### Longer buffers -/

theorem chainPrpList_written_subset (page : ℕ → ℕ) (i prpList : ℕ) (host : HostMem) :
    host.written ⊆ (chainPrpList page i prpList host).2.written := by
  rw [chainPrpList]
  split
  · exact List.Subset.trans (subset_cons_self _ _) (subset_cons_self _ _)
  · exact List.Subset.refl _

theorem prpListLoop_written_subset (page : ℕ → ℕ)
    (rounds i prpList buf buflen : ℕ) (host : HostMem) :
    host.written ⊆ (prpListLoop page rounds i prpList buf buflen host).written := by
  induction rounds generalizing i prpList buf buflen host with
  | zero => exact List.Subset.refl _
  | succ rounds ih =>
    have hchain : host.written ⊆ ((chainPrpList page i prpList host).2.write
        (((chainPrpList page i prpList host).1 + i * 8) % 2 ^ 64) buf).written :=
      List.Subset.trans (chainPrpList_written_subset page i prpList host) (subset_cons_self _ _)
    simp only [prpListLoop]
    split
    · exact hchain
    · exact List.Subset.trans hchain (ih _ _ _ _ _)

/-- No further list page is taken once the index has passed the first. -/
theorem prpListLoop_allocated_eq (page : ℕ → ℕ) (hi : prpsPerPage < i) :
    (prpListLoop page rounds i prpList buf buflen host).allocated = host.allocated := by
  induction rounds generalizing i prpList buf buflen host with
  | zero => rfl
  | succ rounds ih =>
    simp only [prpListLoop, chainPrpList, if_neg hi.ne']
    split
    · rfl
    · rw [ih (Nat.lt_succ_of_lt hi)]
      rfl

/-- The entry after the first list page goes behind the second. -/
theorem prpListLoop_overrun (page : ℕ → ℕ) (hi : i ≤ prpsPerPage)
    (hlong : nvmePageSize * (prpsPerPage - i) < buflen) (hrounds : buflen ≤ rounds) :
    (page host.allocated + nvmePageSize) % 2 ^ 64 ∈
        (prpListLoop page rounds i prpList buf buflen host).written ∧
      (prpListLoop page rounds i prpList buf buflen host).allocated = host.allocated + 1 := by
  induction rounds generalizing i prpList buf buflen host with
  | zero => omega
  | succ rounds ih =>
    by_cases hfull : i = prpsPerPage
    · have hmem : (page host.allocated + nvmePageSize) % 2 ^ 64 ∈
          ((chainPrpList page i prpList host).2.write
            (((chainPrpList page i prpList host).1 + i * 8) % 2 ^ 64) buf).written := by
        simp [chainPrpList, hfull, HostMem.write, prpsPerPage, nvmePageSize]
      simp only [prpListLoop]
      split
      · refine ⟨hmem, ?_⟩
        simp [chainPrpList, hfull, HostMem.write]
      · refine ⟨prpListLoop_written_subset _ _ _ _ _ _ _ hmem, ?_⟩
        rw [prpListLoop_allocated_eq page (by omega)]
        simp [chainPrpList, hfull, HostMem.write]
    · have hshort : ¬buflen ≤ nvmePageSize := by
        simp only [nvmePageSize, prpsPerPage] at hlong hfull hi ⊢
        omega
      simp only [prpListLoop, chainPrpList, if_neg hfull, if_neg hshort]
      apply ih
      · omega
      · simp only [nvmePageSize, prpsPerPage] at hlong hfull hi hshort ⊢
        omega
      · simp only [nvmePageSize] at hshort ⊢
        omega

/-- A longer buffer makes the host write outside its list pages. -/
theorem not_prpAgrees_of_long
    (hlong : nvmePageSize * (prpsPerPage + 1) < buf % nvmePageSize + buflen)
    (hbits : buf % nvmePageSize + buflen < 2 ^ 64) : ¬PrpAgrees buf buflen := by
  intro hagrees
  let page : ℕ → ℕ := fun k => (k + 1) * nvmePageSize
  have hlarge : nvmePageSize * 2 < buf % nvmePageSize + buflen := by
    simp only [nvmePageSize, prpsPerPage] at hlong ⊢
    omega
  have hfull : nvmePageSize * (prpsPerPage - 0) < buflen - (nvmePageSize - buf % nvmePageSize) := by
    simp only [nvmePageSize, prpsPerPage] at hlong ⊢
    omega
  obtain ⟨setup, hsetup⟩ : ∃ setup, setup = setupBuffer page 0 (fun _ => 0) buf buflen := ⟨_, rfl⟩
  have hoverrun : 3 * nvmePageSize ∈ setup.host.written ∧ setup.host.allocated = 2 := by
    have haddr : (page 1 + nvmePageSize) % 2 ^ 64 = 3 * nvmePageSize := by
      simp only [page, nvmePageSize]
      norm_num
    rw [hsetup, setupBuffer_list page 0 _ hlarge hbits, ← haddr]
    exact prpListLoop_overrun page (Nat.zero_le _) hfull le_rfl
  obtain ⟨hmem, hallocated⟩ := hoverrun
  have hpages : PagesAllocated page setup.host.allocated := by
    rw [hallocated]
    refine ⟨?_, ?_, ?_⟩
    · intro k _
      exact Nat.mul_mod_left _ _
    · intro k hk
      simp only [page, nvmePageSize]
      omega
    · intro k _ l _ heq
      simp only [page, nvmePageSize] at heq
      omega
  obtain ⟨hwritten, -⟩ := hagrees page 0 (fun _ => 0) (fun _ => 0) (fun _ => none)
    (by rwa [hsetup] at hpages)
  rw [← hsetup] at hwritten
  obtain ⟨k, hk, hfirst, hlast⟩ := hwritten _ hmem
  rw [hallocated] at hk
  simp only [page, nvmePageSize] at hfirst hlast
  omega

/-! ### Lengths that overflow -/

/-- A list whose pointer is not aligned hangs the device, if it goes that
far. -/
theorem wp_prpLoop_hangs {nprps last dmaAddr dmaSize : ℕ}
    {s : PrpState} (hlast : (nprps + (2 ^ 32 - 1)) % 2 ^ 32 = last) (hi : i ≤ last)
    (hcount : nvmePageSize * (last - i + 1) < count) (hrounds : count ≤ rounds) :
    wp (prpRules fun _ => True)
      (prpLoop (fun _ => none) (fun _ => 1) rounds (fun _ => 1) i nprps dmaAddr
        dmaSize count) (fun _ _ => False) s := by
  simp only [nvmePageSize] at hcount
  induction rounds generalizing i dmaAddr dmaSize count s with
  | zero => omega
  | succ rounds ih =>
    rw [prpLoop, wp_bind, nextPrpList, wp_ite, hlast]
    split
    case isTrue => trivial
    case isFalse hdata =>
      simp only [nvmePageSize] at hdata
      have hchunk : min (nvmePageSize - 1 % nvmePageSize) count = 4095 := by
        simp only [nvmePageSize]
        omega
      have hmore : count - 4095 ≠ 0 := by omega
      simp only [wp_pure, ne_eq, not_true_eq_false, if_false, wp_bind, hchunk]
      apply wp_extendDma
      · intro _ hsome
        simp at hsome
      · intro _
        simp only [not_true_eq_false, if_false, hmore]
        exact ih (by omega) (by omega) (by omega)
      · intro _ _
        simp only [not_true_eq_false, if_false, hmore]
        exact ih (by omega) (by omega) (by omega)

/-- A length at which the test for two pages overflows makes the host pass data
as a list. -/
theorem not_prpAgrees_of_overflow (hbuflen : buflen < 2 ^ 64)
    (hbits : 2 ^ 64 ≤ buf % nvmePageSize + buflen) : ¬PrpAgrees buf buflen := by
  intro hagrees
  simp only [nvmePageSize] at hbits
  obtain ⟨first, hfirst⟩ : ∃ first, first = 4096 - buf % 4096 := ⟨_, rfl⟩
  have hmore : first < buflen := by omega
  have hsetup : setupBuffer (fun _ => 0) 0 (fun _ => 1) buf buflen =
      ⟨buf, (buf + first) % 2 ^ 64, ⟨fun _ => 1, [], 0⟩⟩ := by
    simp only [setupBuffer, nvmePageSize, ← hfirst]
    rw [if_pos (by omega), if_pos hmore]
  obtain ⟨-, hmeets⟩ := hagrees (fun _ => 0) 0 (fun _ => 1) (fun _ => 1) (fun _ => none) (by
      rw [hsetup]
      exact ⟨by simp, by simp, by simp⟩)
  rw [hsetup] at hmeets
  have hhangs : wp (prpRules fun _ => True)
      (transferPrpData (fun _ => none) (fun _ => 1) (fun _ => 1) buf
        ((buf + first) % 2 ^ 64) buflen buflen) (fun _ _ => False) ⟨0, [], []⟩ := by
    have hzero : buflen ≠ 0 := by omega
    have hrest : buflen - first ≠ 0 := by omega
    have hlarge : ¬buflen - first ≤ 4096 := by omega
    simp only [transferPrpData, wp_bind, wp_assert, le_refl, decide_true, if_true, wp_ite,
      nvmePageSize, ← hfirst, min_eq_left hmore.le, if_neg hzero, if_neg hrest, if_neg hlarge,
      readPrpList, wp_get, wp_modify, wp_pure, ne_eq, not_true_eq_false, if_false, ite_self]
    apply wp_prpLoop_hangs rfl (Nat.zero_le _) _ le_rfl
    simp only [nvmePageSize]
    omega
  rw [wp_alone] at hhangs
  cases hexec : exec (fun wait _ => wait.elim) (transferPrpData (fun _ => none)
      (fun _ => 1) (fun _ => 1) buf ((buf + first) % 2 ^ 64) buflen buflen) ⟨0, [], []⟩ with
  | done ended =>
    rw [hexec] at hhangs
    exact hhangs
  | fault reason =>
    rw [hexec] at hmeets
    exact hmeets
  | stuck =>
    rw [hexec] at hmeets
    exact hmeets

/-! ### When the two programs agree -/

end Soda
