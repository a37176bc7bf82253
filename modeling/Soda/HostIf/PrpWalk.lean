import Soda.HostIf.Prp

/-!
# Walking PRP lists

A list starts anywhere in a page and goes on to its end.  If a command needs
more entries than that, the last one points to the next list, which starts a
page.  `transfer_prp_data` goes by the bytes that are left of the transfer to
tell such a pointer from a data page, and by the size of the command to tell a
list from a second data page.

The two differ for a transfer that is shorter than its command and ends with
the page that follows a pointer: the pointer is then taken for the page.
-/

namespace Soda

open Prog List

/-! ### The rules -/

/-- The entries from a place in a list to the end of its page. -/
def prpRoom (addr : ℕ) : ℕ := (nvmePageSize - addr % nvmePageSize) / 8

/-- The list at `addr` names these data pages.  `lists` are the lists of the
chain, with the number of entries of each. -/
inductive PrpList (word : ℕ → ℕ) : ℕ → List ℕ → List (ℕ × ℕ) → Prop
  | last {addr : ℕ} {pages : List ℕ} (hroom : pages.length ≤ prpRoom addr)
      (hentry : ∀ j page, pages[j]? = some page → word (addr + j * 8) = page) :
      PrpList word addr pages [(addr, pages.length)]
  | chain {addr next : ℕ} {front rest : List ℕ} {lists : List (ℕ × ℕ)}
      (hroom : front.length + 1 = prpRoom addr) (hmore : 2 ≤ rest.length)
      (hentry : ∀ j page, front[j]? = some page → word (addr + j * 8) = page)
      (hnext : word (addr + front.length * 8) = next)
      (haligned : next % nvmePageSize = 0) (hbits : next < 2 ^ 64)
      (hrest : PrpList word next rest lists) :
      PrpList word addr (front ++ rest) ((addr, front.length + 1) :: lists)

def Spans (count : ℕ) (pages : List ℕ) : Prop :=
  nvmePageSize * pages.length < count + nvmePageSize ∧ count ≤ nvmePageSize * pages.length

/-- The bytes on the page of the first entry, if it is used up. -/
def prpFirst (prp1 : ℕ) : ℕ := nvmePageSize - prp1 % nvmePageSize

/-- The two entries describe a command of `size` bytes by the page of the first
entry and these pages. -/
structure PrpPages (word : ℕ → ℕ) (prp1 prp2 size : ℕ) (pages : List ℕ)
    (lists : List (ℕ × ℕ)) : Prop where
  spans : Spans (size - prpFirst prp1) pages
  aligned : ∀ page ∈ pages, page % nvmePageSize = 0
  direct : size - prpFirst prp1 ≤ nvmePageSize → ∀ page ∈ pages, page = prp2
  listed : nvmePageSize < size - prpFirst prp1 →
    prp2 % 8 = 0 ∧ prp2 < 2 ^ 64 ∧ PrpList word prp2 pages lists

def pageBytes (pages : List ℕ) (count : ℕ) : List ℕ :=
  (pages.flatMap fun page => dmaBytes (page, nvmePageSize)).take count

/-- Entries are read 32 bytes at a time, with room for one that is not
needed. -/
def ReadsWithin (lists : List (ℕ × ℕ)) (s : PrpState) : Prop :=
  ∀ read ∈ s.reads, ∃ list ∈ lists, read.1 = list.1 ∧ read.2 ≤ list.2 + 4

/-- The transfer is over: it has moved these bytes in order, or an error is
returned that some transfer met. -/
structure Walked (faults : ℕ → Status) (lists : List (ℕ × ℕ)) (bytes : List ℕ)
    (status : Status) (s : PrpState) : Prop where
  moved : status = none → s.visited.flatMap dmaBytes = bytes
  failed : status ≠ none → ∃ tick, faults tick = status
  reads : ReadsWithin lists s

/-! ### Bytes -/

theorem dmaBytes_add (addr first second : ℕ) :
    dmaBytes (addr, first + second) =
      dmaBytes (addr, first) ++ dmaBytes ((addr + first) % 2 ^ 64, second) := by
  simp only [dmaBytes, range_add, map_append, map_map]
  congr 1
  apply map_congr_left
  intro k _
  simp only [Function.comp_apply, Nat.mod_add_mod, Nat.add_assoc]

theorem pageBytes_cons (page : ℕ) (pages : List ℕ) (count : ℕ) :
    pageBytes (page :: pages) count = dmaBytes (page, min nvmePageSize count) ++
        pageBytes pages (count - min nvmePageSize count) := by
  have htake : (dmaBytes (page, nvmePageSize)).take count =
      dmaBytes (page, min nvmePageSize count) := by
    simp only [dmaBytes, ← map_take, take_range, min_comm]
  have hrest : count - (dmaBytes (page, nvmePageSize)).length = count - min nvmePageSize count := by
    simp only [dmaBytes, length_map, length_range]
    omega
  rw [pageBytes, flatMap_cons, take_append, htake, hrest, pageBytes]

theorem pageBytes_zero (pages : List ℕ) : pageBytes pages 0 = [] := take_zero

/-! ### The walk -/

section Walk

variable {faults : ℕ → Status} {word : ℕ → ℕ} {tolerated : Fault → Prop} {s : PrpState}

theorem wp_flushDma {addr size : ℕ} {lists : List (ℕ × ℕ)} (hreads : ReadsWithin lists s) :
    wp (prpRules tolerated) (flushDma faults addr size)
      (Walked faults lists ((s.visited ++ [(addr, size)]).flatMap dmaBytes)) s := by
  simp only [flushDma, wp_bind, wp_get, wp_modify, wp_pure]
  refine ⟨?_, fun _ => ⟨s.tick, rfl⟩, hreads⟩
  intro hnone
  simp [hnone]

theorem wp_extendDma {dmaAddr dmaSize prp chunk : ℕ} {post : Status × ℕ × ℕ → PrpState → Prop}
    (hfailed : ∀ tick, faults tick ≠ none →
      post (faults tick, prp, chunk) { s with tick := tick + 1 })
    (hextend : (dmaAddr + dmaSize) % 2 ^ 64 = prp → post (none, dmaAddr, dmaSize + chunk) s)
    (hnew : (dmaAddr + dmaSize) % 2 ^ 64 ≠ prp → ∀ tick, post (none, prp, chunk)
      { s with tick := tick, visited := s.visited ++ [(dmaAddr, dmaSize)] }) :
    wp (prpRules tolerated) (extendDma faults dmaAddr dmaSize prp chunk) post s := by
  rw [extendDma, wp_ite]
  split
  case isTrue hnext => exact hextend hnext
  case isFalse hnext =>
    simp only [flushDma, wp_bind, wp_get, wp_modify, wp_pure]
    split
    case isTrue hnone =>
      rw [hnone]
      exact hnew hnext _
    case isFalse hsome => exact hfailed _ hsome

variable {prpList : ℕ → ℕ} {i nprps place page : ℕ} {pages : List ℕ} {lists all : List (ℕ × ℕ)}

theorem prpRoom_add (haligned : place % 8 = 0) (hroom : prpRoom place ≠ 1) :
    prpRoom (place + 8) + 1 = prpRoom place := by
  simp only [prpRoom, nvmePageSize] at hroom ⊢
  omega

/-- The rest of a list is a list. -/
theorem PrpList.tail (hlist : PrpList word place (page :: pages) lists)
    (haligned : place % 8 = 0) (hdata : prpRoom place ≠ 1 ∨ pages = []) :
    word place = page ∧ (pages ≠ [] → ∃ rest,
      PrpList word (place + 8) pages rest ∧ rest.tail = lists.tail) := by
  generalize hall : page :: pages = remaining at hlist
  have hplace : ∀ j, place + 8 + j * 8 = place + (j + 1) * 8 := by
    intro j
    omega
  cases hlist with
  | last hroom hentry =>
    subst hall
    refine ⟨hentry 0 page rfl, fun hmore => ⟨_, .last ?_ ?_, rfl⟩⟩
    · have hnext := prpRoom_add haligned (hdata.resolve_right hmore)
      rw [length_cons] at hroom
      omega
    · intro j other hother
      rw [hplace]
      exact hentry (j + 1) other hother
  | @chain _ next front rest lists hroom hmore hentry hnext halign hbits hrest =>
    cases front with
    | nil =>
      -- a pointer comes before more than one page
      rw [nil_append] at hall
      rw [← hall, length_cons] at hmore
      rcases hdata with hother | rfl
      · exact absurd hroom.symm hother
      · exact absurd hmore (by decide)
    | cons head front =>
      obtain ⟨rfl, rfl⟩ := cons.inj hall
      rw [length_cons] at hroom hnext
      refine ⟨hentry 0 page rfl, fun _ => ⟨_, .chain ?_ hmore ?_ ?_ halign hbits hrest, rfl⟩⟩
      · have := prpRoom_add haligned (by omega)
        omega
      · intro j other hother
        rw [hplace]
        exact hentry (j + 1) other hother
      · rw [hplace]
        exact hnext

/-- A list that starts with a pointer. -/
theorem PrpList.pointer (hlist : PrpList word place pages lists)
    (hroom : prpRoom place = 1) (hmore : 2 ≤ pages.length) :
    word place % nvmePageSize = 0 ∧ word place < 2 ^ 64 ∧
      PrpList word (word place) pages lists.tail := by
  cases hlist with
  | last hfits _ => omega
  | @chain _ next front rest lists hfull hmore hentry hnext haligned hbits hrest =>
    obtain rfl : front = [] := length_eq_zero_iff.mp (by omega)
    subst hnext
    exact ⟨haligned, hbits, hrest⟩

theorem prpListLength_eq {count space : ℕ} {pages : List ℕ}
    (hspans : Spans count pages) (hshort : pages.length + 4 < 2 ^ 32) :
    prpListLength count space = min ((pages.length + 4) / 4 * 4) space := by
  obtain ⟨hlow, hhigh⟩ := hspans
  simp only [nvmePageSize] at hlow hhigh
  have hround : roundupPage count = nvmePageSize * pages.length := by
    rw [roundupPage]
    split
    case isTrue hwhole =>
      simp only [nvmePageSize] at hwhole ⊢
      omega
    case isFalse hpart =>
      simp only [nvmePageSize] at hpart ⊢
      omega
  rw [prpListLength, hround]
  simp only [nvmePageSize]
  omega

/-- The loop is at an index of its buffer, which holds the list from `place`
on as far as it is needed. -/
structure Buffered (word prpList : ℕ → ℕ) (i nprps place : ℕ) (pages : List ℕ)
    (lists : List (ℕ × ℕ)) : Prop where
  list : PrpList word place pages lists
  aligned : place % 8 = 0
  entry : ∀ j, i + j < nprps → prpList (i + j) = word (place + j * 8)
  inside : nprps ≤ i + prpRoom place
  enough : i + pages.length < nprps ∨ nprps = i + prpRoom place

/-- A list that was read. -/
theorem PrpList.buffered (hlist : PrpList word place pages lists)
    (haligned : place % 8 = 0) (hbits : place < 2 ^ 64) (prpList : ℕ → ℕ)
    (hnprps : nprps = min ((pages.length + 4) / 4 * 4) (prpRoom place)) :
    Buffered word (fun i => if i < nprps then word ((place + i * 8) % 2 ^ 64)
      else prpList i) 0 nprps place pages lists ∧
      ∃ entries, lists = (place, entries) :: lists.tail ∧ nprps ≤ entries + 4 := by
  refine ⟨⟨hlist, haligned, ?_, by omega, by omega⟩, ?_⟩
  · intro j hj
    have hroom : j < prpRoom place := by omega
    simp only [prpRoom, nvmePageSize] at hroom
    rw [if_pos hj, Nat.zero_add, Nat.mod_eq_of_lt (by omega)]
  · cases hlist with
    | last _ _ | chain hroom _ _ _ _ _ _ => exact ⟨_, rfl, by omega⟩

variable (hbuffered : Buffered word prpList i nprps place (page :: pages) lists)
include hbuffered

/-- One entry further. -/
theorem Buffered.next

    (hi : i < nprps) (hdata : i + 1 ≠ nprps ∨ pages = []) :
    prpList i = page ∧ (pages ≠ [] → ∃ rest,
      Buffered word prpList (i + 1) nprps (place + 8) pages rest ∧ rest.tail = lists.tail) := by
  obtain ⟨hlist, haligned, hentry, hinside, henough⟩ := hbuffered
  rw [length_cons] at henough
  obtain ⟨hword, hrest⟩ := hlist.tail haligned (hdata.imp_left fun hne => by omega)
  have hfirst := hentry 0 hi
  refine ⟨hfirst.trans hword, fun hmore => ?_⟩
  obtain ⟨rest, hlist, hlists⟩ := hrest hmore
  have hroom := prpRoom_add haligned (by
    have := hdata.resolve_right hmore
    omega)
  refine ⟨rest, ⟨hlist, by omega, ?_, by omega, by omega⟩, hlists⟩
  intro j hj
  rw [add_assoc, add_comm 1 j, hentry (j + 1) (by omega)]
  congr 1
  omega

theorem wp_nextPrpList {count : ℕ}

    (hi : i < nprps) (hbits : nprps < 2 ^ 32) (hspans : Spans count (page :: pages))
    (hshort : (page :: pages).length + 4 < 2 ^ 32) (hsub : lists.tail ⊆ all)
    (hreads : ReadsWithin all s) {post : Status × (ℕ → ℕ) × ℕ × ℕ → PrpState → Prop}
    (hfailed : ∀ status prpList i nprps s', status ≠ none →
      (∃ tick, faults tick = status) → ReadsWithin all s' → post (status, prpList, i, nprps) s')
    (hpost : ∀ prpList' i' nprps' s', prpList' i' = page → nprps' < 2 ^ 32 →
      (pages ≠ [] → ∃ place lists', Buffered word prpList' (i' + 1) nprps' place pages lists' ∧
          i' + 1 < nprps' ∧ lists'.tail ⊆ all) → ReadsWithin all s' → s'.visited = s.visited →
      post (none, prpList', i', nprps') s') :
    wp (prpRules tolerated) (nextPrpList faults word prpList i nprps count) post s := by
  have hmod : (nprps + (2 ^ 32 - 1)) % 2 ^ 32 = nprps - 1 := by omega
  obtain ⟨hlow, hhigh⟩ : 4096 * pages.length < count ∧ count ≤ 4096 * (pages.length + 1) := by
    simp only [Spans, length_cons, nvmePageSize] at hspans
    omega
  rw [nextPrpList, wp_ite, hmod]
  split
  case isFalse hdata =>
    have hend : i + 1 ≠ nprps ∨ pages = [] := by
      rw [← length_eq_zero_iff]
      simp only [nvmePageSize] at hdata
      omega
    obtain ⟨hentry, hrest⟩ := hbuffered.next hi hend
    refine hpost prpList i nprps s hentry hbits (fun hmore => ?_) hreads rfl
    obtain ⟨rest, hnext, hlists⟩ := hrest hmore
    refine ⟨_, rest, hnext, ?_, hlists ▸ hsub⟩
    have := hend.resolve_right hmore
    omega
  case isTrue hpointer =>
    obtain ⟨hlast, hmore⟩ := hpointer
    simp only [nvmePageSize] at hmore
    have hroom : prpRoom place = 1 := by
      have hinside := hbuffered.inside
      have henough := hbuffered.enough
      rw [length_cons] at henough
      omega
    have hword : prpList i = word place := hbuffered.entry 0 hi
    obtain ⟨haligned, hnext, hlist⟩ := hbuffered.list.pointer hroom (by
      rw [length_cons]
      omega)
    rw [← hword] at haligned hnext hlist
    have hfull : prpRoom (prpList i) = prpsPerPage := by
      rw [prpRoom, haligned]
      rfl
    have hlength : prpListLength count prpsPerPage =
        min (((page :: pages).length + 4) / 4 * 4) (prpRoom (prpList i)) := by
      rw [hfull]
      exact prpListLength_eq hspans hshort
    obtain ⟨hread, entries, hlists, hentries⟩ := hlist.buffered (by
      simp only [nvmePageSize] at haligned
      omega) hnext prpList hlength
    have hreads' : ∀ tick, ReadsWithin all
        { s with
          tick := tick
          reads := s.reads ++ [(prpList i, prpListLength count prpsPerPage)] } := by
      intro tick read hmem
      rcases mem_append.mp hmem with hold | hnew
      · exact hreads read hold
      · rw [mem_singleton.mp hnew]
        exact ⟨(prpList i, entries), hsub (by
          rw [hlists]
          exact mem_cons_self), rfl, hentries⟩
    simp only [wp_bind, wp_assert, haligned, decide_true, if_true, readPrpList,
      wp_get, wp_modify, wp_pure]
    by_cases hnone : faults s.tick = none
    · have hnumber : prpsPerPage = 512 := rfl
      obtain ⟨hentry, hrest⟩ := hread.next (by omega) (by omega)
      rw [hnone]
      refine hpost _ 0 _ _ hentry (by omega) (fun hmore => ?_) (hreads' _) rfl
      obtain ⟨rest, hnext, htail⟩ := hrest hmore
      refine ⟨_, rest, hnext, by omega, ?_⟩
      rw [htail]
      exact List.Subset.trans (tail_subset _) hsub
    · exact hfailed _ _ _ _ _ hnone ⟨_, rfl⟩ (hreads' _)

omit hbuffered

/-- The loop visits the pages ahead in order; pages that follow one another
make one transfer. -/
theorem wp_prpLoop {rounds dmaAddr dmaSize count : ℕ}
    (hbuffered : Buffered word prpList i nprps place pages lists)
    (hi : i < nprps) (hbits : nprps < 2 ^ 32) (hspans : Spans count pages)
    (hshort : pages.length + 4 < 2 ^ 32) (haligned : ∀ page ∈ pages, page % nvmePageSize = 0)
    (hsub : lists.tail ⊆ all)
    (hreads : ReadsWithin all s) (hpos : 0 < count) (hrounds : count ≤ rounds) :
    wp (prpRules tolerated) (prpLoop faults word rounds prpList i nprps dmaAddr dmaSize count)
      (Walked faults all ((s.visited ++ [(dmaAddr, dmaSize)]).flatMap dmaBytes ++
        pageBytes pages count)) s := by
  induction rounds generalizing prpList i nprps place pages lists dmaAddr dmaSize count s with
  | zero => omega
  | succ rounds ih =>
    cases pages with
    | nil =>
      have hzero : count ≤ 0 := by simpa using hspans.2
      omega
    | cons page pages =>
      rw [prpLoop, wp_bind]
      apply wp_nextPrpList hbuffered hi hbits hspans hshort hsub hreads
      · intro status prpList i nprps s' hsome htick hreads'
        simp only [ne_eq, hsome, not_false_eq_true, if_true, wp_pure]
        exact ⟨fun hnone => absurd hnone hsome, fun _ => htick, hreads'⟩
      · intro prpList i nprps s' hentry hbits hrest hreads' hvisited
        obtain ⟨chunk, hchunk⟩ : ∃ chunk, chunk = min nvmePageSize count := ⟨_, rfl⟩
        have hsome : 0 < chunk := by
          rw [hchunk]
          exact lt_min (by decide) hpos
        simp only [ne_eq, not_true_eq_false, if_false, wp_bind, hentry,
          haligned page mem_cons_self, Nat.sub_zero]
        rw [pageBytes_cons, ← hchunk, ← hvisited]
        -- what is collected afterwards is one page more
        have hdone : ∀ dmaAddr' dmaSize' s'', ReadsWithin all s'' →
            (s''.visited ++ [(dmaAddr', dmaSize')]).flatMap dmaBytes =
              (s'.visited ++ [(dmaAddr, dmaSize)]).flatMap dmaBytes ++ dmaBytes (page, chunk) →
            wp (prpRules tolerated) (if count - chunk = 0 then flushDma faults dmaAddr' dmaSize'
                else prpLoop faults word rounds prpList (i + 1) nprps dmaAddr'
                  dmaSize' (count - chunk))
              (Walked faults all ((s'.visited ++ [(dmaAddr, dmaSize)]).flatMap dmaBytes ++
                  (dmaBytes (page, chunk) ++ pageBytes pages (count - chunk))))
              s'' := by
          intro dmaAddr' dmaSize' s'' hreads'' hbytes
          rw [← append_assoc, ← hbytes, wp_ite]
          split
          case isTrue hend =>
            rw [hend, pageBytes_zero, append_nil]
            exact wp_flushDma hreads''
          case isFalse hend =>
            rw [length_cons] at hshort
            simp only [Spans, length_cons, nvmePageSize] at hspans hchunk
            obtain ⟨place, lists, hnext, hi, hsub⟩ := hrest (by
              rw [← length_pos_iff]
              omega)
            refine ih hnext hi hbits ?_ (by omega) ?_ hsub hreads'' (by omega) (by omega)
            · simp only [Spans, nvmePageSize]
              omega
            · exact fun other hother => haligned other (.tail _ hother)
        apply wp_extendDma
        · intro tick hfault
          simp only [hfault, not_false_eq_true, if_true, wp_pure]
          exact ⟨fun hnone => absurd hnone hfault, fun _ => ⟨_, rfl⟩, hreads'⟩
        · intro hextend
          refine hdone _ _ s' hreads' ?_
          rw [flatMap_append, flatMap_append, append_assoc,
            flatMap_singleton, flatMap_singleton, dmaBytes_add, hextend]
        · intro _ tick
          refine hdone _ _ _ hreads' ?_
          simp

/-- `transfer_prp_data` for a transfer with these pages after the first. -/
theorem wp_transferPrpData {prp1 prp2 count size : ℕ} (hcount : count ≤ size)
    (hspans : Spans (count - prpFirst prp1) pages)
    (haligned : ∀ page ∈ pages, page % nvmePageSize = 0)
    (hdirect : size - prpFirst prp1 ≤ nvmePageSize → ∀ page ∈ pages, page = prp2)
    (hlisted : nvmePageSize < size - prpFirst prp1 → pages ≠ [] →
      prp2 % 8 = 0 ∧ prp2 < 2 ^ 64 ∧ pages.length + 4 < 2 ^ 32 ∧ PrpList word prp2 pages lists) :
    wp (prpRules tolerated) (transferPrpData faults word prpList prp1 prp2 count size)
      (Walked faults lists (dmaBytes (prp1, min (prpFirst prp1) count) ++
        pageBytes pages (count - prpFirst prp1))) ⟨0, [], []⟩ := by
  have hnone : ReadsWithin lists ⟨0, [], []⟩ := fun _ hread => absurd hread not_mem_nil
  have hfirst : 0 < prpFirst prp1 := Nat.sub_pos_of_lt (Nat.mod_lt _ (by decide))
  simp only [transferPrpData, wp_bind, wp_assert, hcount, decide_true, if_true, wp_ite]
  rw [← prpFirst]
  split
  case isTrue hzero =>
    subst hzero
    refine ⟨fun _ => ?_, fun hsome => absurd rfl hsome, hnone⟩
    rw [Nat.zero_sub, pageBytes_zero, Nat.min_zero]
    rfl
  case isFalse hzero =>
    by_cases hone : count ≤ prpFirst prp1
    · rw [Nat.sub_eq_zero_of_le hone, pageBytes_zero, Nat.min_eq_right hone,
        Nat.sub_self, if_pos rfl, append_nil]
      exact wp_mono (wp_flushDma hnone) fun _ _ hwalked => by
        simpa using hwalked
    · have hmore : prpFirst prp1 < count := Nat.lt_of_not_le hone
      rw [Nat.min_eq_left hmore.le, if_neg (Nat.sub_pos_of_lt hmore).ne']
      obtain ⟨page, rest, rfl⟩ : ∃ page rest, pages = page :: rest := by
        rw [← ne_nil_iff_exists_cons]
        rintro rfl
        have hle : count - prpFirst prp1 ≤ 0 := by simpa using hspans.2
        omega
      split
      case isTrue hsmall =>
        obtain rfl : page = prp2 := hdirect hsmall page mem_cons_self
        have hchunk : min nvmePageSize (count - prpFirst prp1) =
            count - prpFirst prp1 := min_eq_right (by omega)
        rw [pageBytes_cons, hchunk, Nat.sub_self, pageBytes_zero, append_nil]
        apply wp_extendDma
        · intro tick hfault
          simp only [ne_eq, hfault, not_false_eq_true, if_true, wp_pure]
          exact ⟨fun hok => absurd hok hfault, fun _ => ⟨_, rfl⟩, hnone⟩
        · intro hextend
          rw [← hextend, ← dmaBytes_add]
          exact wp_mono (wp_flushDma hnone) fun _ _ hwalked => by
            simpa using hwalked
        · intro _ tick
          exact wp_mono (wp_flushDma hnone) fun _ _ hwalked => by
            simpa using hwalked
      case isFalse hlarge =>
        obtain ⟨haddr, hbits, hshort, hlist⟩ := hlisted (Nat.lt_of_not_le hlarge) (cons_ne_nil _ _)
        have hroom : 0 < prpRoom prp2 := by
          simp only [prpRoom, nvmePageSize]
          omega
        obtain ⟨hbuffered, entries, hlists, hread⟩ := hlist.buffered haddr hbits prpList rfl
        have hreads : ReadsWithin lists ⟨1, [], [(prp2, min (((page :: rest).length + 4) / 4 * 4)
              (prpRoom prp2))]⟩ := by
          intro read hmem
          rw [mem_singleton.mp hmem]
          refine ⟨(prp2, entries), ?_, rfl, hread⟩
          rw [hlists]
          exact mem_cons_self
        rw [← prpRoom, prpListLength_eq hspans hshort]
        simp only [readPrpList, wp_bind, wp_get, wp_modify, wp_pure]
        split
        case isTrue hfault =>
          exact ⟨fun hok => absurd hok hfault, fun _ => ⟨_, rfl⟩, hreads⟩
        case isFalse =>
          refine wp_mono (wp_prpLoop hbuffered (by omega) (by omega) hspans hshort
            haligned (tail_subset _) hreads (by omega) le_rfl) ?_
          intro status s hwalked
          simpa using hwalked

end Walk

/-! ### Shorter transfers -/

section Shorter

variable {word : ℕ → ℕ} {place m : ℕ} {pages : List ℕ} {lists : List (ℕ × ℕ)}

/-- The pages after the first that so many bytes need. -/
def prpsFor (prp1 count : ℕ) : ℕ := (count - prpFirst prp1 + (nvmePageSize - 1)) / nvmePageSize

/-- The transfer does not end with the page that follows a pointer, unless the
command ends there, and its pages can be counted in 32 bits. -/
def PrpEnds (prp1 prp2 count size : ℕ) : Prop :=
  nvmePageSize < size - prpFirst prp1 → prpFirst prp1 < count →
    prpsFor prp1 count + 4 < 2 ^ 32 ∧ (prpsFor prp1 count < prpsFor prp1 size →
      ∀ k, prpsFor prp1 count ≠ prpRoom prp2 + (prpsPerPage - 1) * k)

theorem pageBytes_take {count : ℕ} (hcount : count ≤ nvmePageSize * (pages.take m).length) :
    pageBytes (pages.take m) count = pageBytes pages count := by
  have hlength : ((pages.take m).flatMap fun page => dmaBytes (page, nvmePageSize)).length =
      nvmePageSize * (pages.take m).length := by
    simp [dmaBytes, length_flatMap, mul_comm]
  calc pageBytes (pages.take m) count
    _ = pageBytes (pages.take m ++ pages.drop m) count := by
      rw [pageBytes, pageBytes, flatMap_append, take_append_of_le_length (hlength ▸ hcount)]
    _ = pageBytes pages count := by rw [take_append_drop]

theorem PrpList.of_take (m : ℕ) (hroom : pages.length ≤ prpRoom place)
    (hentry : ∀ j page, pages[j]? = some page → word (place + j * 8) = page) :
    PrpList word place (pages.take m) [(place, (pages.take m).length)] := by
  apply PrpList.last
  · exact (length_take_le' m pages).trans hroom
  · intro j page hpage
    rw [getElem?_take] at hpage
    exact hentry j page (Option.ite_none_right_eq_some.mp hpage).2

/-- The first pages of a list are a list, unless they end behind a pointer. -/
theorem PrpList.take (hlist : PrpList word place pages lists) (hm : m ≤ pages.length)
    (hends : m < pages.length → ∀ k, m ≠ prpRoom place + (prpsPerPage - 1) * k) :
    ∃ first, PrpList word place (pages.take m) first ∧
      ∀ list ∈ first, ∃ whole ∈ lists, list.1 = whole.1 ∧ list.2 ≤ whole.2 := by
  induction hlist generalizing m with
  | last hroom hentry =>
    refine ⟨_, of_take m hroom hentry, ?_⟩
    intro list hmem
    rw [mem_singleton.mp hmem]
    exact ⟨_, mem_cons_self, rfl, length_take_le' _ _⟩
  | @chain addr next front rest lists hroom hmore hentry hnext haligned hbits hrest ih =>
    rw [length_append] at hm hends
    by_cases hfront : m ≤ front.length
    · rw [take_append_of_le_length hfront]
      refine ⟨_, of_take m (by omega) hentry, ?_⟩
      intro list hmem
      rw [mem_singleton.mp hmem]
      exact ⟨_, mem_cons_self, rfl, (length_take_le' _ _).trans (Nat.le_succ _)⟩
    · have hfull : prpRoom next = prpsPerPage := by
        rw [prpRoom, haligned]
        rfl
      have hnumber : prpsPerPage = 512 := rfl
      obtain ⟨first, hfirst, hwithin⟩ := @ih (m - front.length) (by omega) (by
        intro hless k hk
        apply hends (by omega) (k + 1)
        rw [Nat.mul_succ]
        omega)
      have hbeyond : m ≠ prpRoom addr := by
        intro hm
        exact hends (by omega) 0 hm
      rw [take_append, take_of_length_le (by omega)]
      refine ⟨_, .chain hroom ?_ hentry hnext haligned hbits hfirst, ?_⟩
      · rw [length_take]
        omega
      · intro list hmem
        rcases mem_cons.mp hmem with rfl | hmem
        · exact ⟨_, mem_cons_self, rfl, le_rfl⟩
        · obtain ⟨whole, hwhole, hbound⟩ := hwithin list hmem
          exact ⟨whole, mem_cons_of_mem _ hwhole, hbound⟩

/-- The device returns, and has then moved the bytes of these pages in order and
read no entry that is not needed, or a transfer failed. -/
def PrpWalks (word : ℕ → ℕ) (prp1 prp2 count size : ℕ) (pages : List ℕ)
    (lists : List (ℕ × ℕ)) : Prop :=
  ∀ (faults : ℕ → Status) (prpList : ℕ → ℕ), (exec (fun wait _ => wait.elim)
      (transferPrpData faults word prpList prp1 prp2 count size) ⟨0, [], []⟩).Meets
    (fun _ => False) False (Walked faults lists (dmaBytes (prp1, min (prpFirst prp1) count) ++
      pageBytes pages (count - prpFirst prp1)))

/-- `transfer_prp_data` follows the rules for a transfer that does not end behind
a pointer. -/
theorem prpWalks_of_ends {prp1 prp2 count size : ℕ}
    (hpages : PrpPages word prp1 prp2 size pages lists) (hcount : count ≤ size)
    (hends : PrpEnds prp1 prp2 count size) : PrpWalks word prp1 prp2 count size pages lists := by
  intro faults prpList
  have hspans := hpages.spans
  obtain ⟨m, hm⟩ : ∃ m, m = prpsFor prp1 count := ⟨_, rfl⟩
  obtain ⟨hlength, hneeded⟩ : m ≤ pages.length ∧ pages.length = prpsFor prp1 size := by
    simp only [hm, prpsFor, Spans, nvmePageSize] at hspans ⊢
    omega
  have hpart : Spans (count - prpFirst prp1) (pages.take m) := by
    rw [Spans, length_take_of_le hlength, hm]
    simp only [prpsFor, nvmePageSize]
    omega
  have hsome : pages.take m ≠ [] → prpFirst prp1 < count := by
    intro hcons
    rw [← length_pos_iff] at hcons
    have hlow := hpart.1
    simp only [nvmePageSize] at hlow
    omega
  obtain ⟨first, hlisted, hwithin⟩ : ∃ first, (nvmePageSize < size - prpFirst prp1 →
      pages.take m ≠ [] → prp2 % 8 = 0 ∧ prp2 < 2 ^ 64 ∧ (pages.take m).length + 4 < 2 ^ 32 ∧
        PrpList word prp2 (pages.take m) first) ∧
      ∀ list ∈ first, ∃ whole ∈ lists, list.1 = whole.1 ∧ list.2 ≤ whole.2 := by
    by_cases hlarge : nvmePageSize < size - prpFirst prp1 ∧ prpFirst prp1 < count
    · obtain ⟨haligned, hbits, hlist⟩ := hpages.listed hlarge.1
      obtain ⟨hshort, hbehind⟩ := hends hlarge.1 hlarge.2
      rw [← hm, ← hneeded] at hbehind
      obtain ⟨first, hfirst, hwithin⟩ := hlist.take hlength hbehind
      rw [length_take_of_le hlength, hm]
      exact ⟨first, fun _ _ => ⟨haligned, hbits, hshort, hm ▸ hfirst⟩, hwithin⟩
    · refine ⟨[], fun hsize hcons => absurd ⟨hsize, hsome hcons⟩ hlarge, ?_⟩
      exact fun list hmem => absurd hmem not_mem_nil
  rw [← wp_alone, ← pageBytes_take hpart.2]
  refine wp_mono (wp_transferPrpData hcount hpart ?_ ?_ hlisted) ?_
  · exact fun page hpage => hpages.aligned page (mem_of_mem_take hpage)
  · exact fun hsmall page hpage => hpages.direct hsmall page (mem_of_mem_take hpage)
  · rintro status s ⟨hmoved, hfailed, hreads⟩
    refine ⟨hmoved, hfailed, ?_⟩
    intro read hread
    obtain ⟨list, hlist, haddr, hnumber⟩ := hreads read hread
    obtain ⟨whole, hwhole, hsame, hle⟩ := hwithin list hlist
    exact ⟨whole, hwhole, haddr.trans hsame, hnumber.trans (Nat.add_le_add_right hle 4)⟩

/-- A list of one entry, which points to a list of two pages. -/
def chainedWord (addr : ℕ) : ℕ :=
  if addr = 8184 then 12288 else if addr = 12288 then 16384 else 20480

theorem prpPages_chained :
    PrpPages chainedWord 32767 8184 8193 [16384, 20480] [(8184, 1), (12288, 2)] where
  spans := ⟨by decide, by decide⟩
  aligned := by decide
  direct hsmall := absurd hsmall (by decide)
  listed _ := by
    refine ⟨rfl, by decide, @PrpList.chain _ _ _ [] _ _ rfl le_rfl ?_ rfl rfl (by decide)
      (.last (by decide) ?_)⟩
    · exact fun j page hpage => absurd hpage (by simp)
    · intro j page hpage
      match j with
      | 0 => exact Option.some.inj hpage
      | 1 => exact Option.some.inj hpage
      | _ + 2 => cases hpage

theorem prpWalks_of_ends_chained : PrpEnds 32767 8184 8193 8193 ∧
    PrpWalks chainedWord 32767 8184 8193 8193 [16384, 20480] [(8184, 1), (12288, 2)] := by
  have hends : PrpEnds 32767 8184 8193 8193 := fun _ _ => ⟨by decide, fun h => absurd h (by decide)⟩
  exact ⟨hends, prpWalks_of_ends prpPages_chained le_rfl hends⟩

/-- Two bytes of this command: the second is looked for in the list page that
the pointer names. -/
theorem not_prpWalks_short : PrpPages chainedWord 32767 8184 8193 [16384, 20480]
      [(8184, 1), (12288, 2)] ∧
    ¬PrpWalks chainedWord 32767 8184 2 8193 [16384, 20480] [(8184, 1), (12288, 2)] := by
  refine ⟨prpPages_chained, fun hwalks => ?_⟩
  have hmoved := (hwalks (fun _ => none) (fun _ => 0)).moved rfl
  rw [pageBytes_cons] at hmoved
  exact absurd hmoved (by decide)

end Shorter

end Soda
