import Soda.Storpu.BTreeSearch
import Soda.Storpu.StartKeys

/-!
# Reading leaf pages

What a forward scan does on one leaf page: it starts at the first tuple that is
not before the start keys, saves the tuples that satisfy the keys, and gives up
the pages to the right only if none of them has such a tuple.
-/

namespace Soda.Storpu

open Function KeyOrder List Option Bool BTPage IndexTuple BTShape
open BTPage (pNone pHikey)
open Std (TransCmp)

variable {D : Type}

/-! ### The leaf level -/

def BTRel.leafTuples (rel : BTRel D) (chain : List ℕ) : List (IndexTuple D) :=
  chain.flatMap fun blkno =>
    if (rel.pageAt blkno).ignore then [] else (rel.pageAt blkno).dataItems

/-- The tuples of leaf pages with the high key of each page after them. -/
def BTRel.leafRun (rel : BTRel D) (chain : List ℕ) : List (IndexTuple D) :=
  chain.flatMap fun blkno =>
    if (rel.pageAt blkno).ignore then []
    else (rel.pageAt blkno).dataItems ++ (rel.pageAt blkno).hikey.toList

/-- A well-formed tree whose leaf level is in order, without nulls and without
posting lists. -/
@[mk_iff]
structure BTRel.Scannable (rel : BTRel D) (shape : BTShape) : Prop where
  wellFormed : rel.WellFormed shape
  sorted : (rel.leafRun (shape.chain 0)).Pairwise rel.TupleLe
  noNulls : ∀ itup ∈ rel.leafRun (shape.chain 0), ∀ attr ∈ itup.attrs, attr.isSome = true
  noPosting : ∀ itup ∈ rel.leafTuples (shape.chain 0), itup.tInfo &&& 0x2000 = 0

instance (rel : BTRel D) (shape : BTShape) : Decidable (rel.Scannable shape) :=
  decidable_of_iff' _ (rel.scannable_iff shape)

variable {rel : BTRel D} {shape : BTShape} {keys : List (BTScanKey D)}

theorem BTRel.leafTuples_cons (rel : BTRel D) (blkno : ℕ) (chain : List ℕ) :
    rel.leafTuples (blkno :: chain) = (if (rel.pageAt blkno).ignore then []
        else (rel.pageAt blkno).dataItems) ++ rel.leafTuples chain :=
  flatMap_cons

theorem BTRel.leafRun_cons (rel : BTRel D) (blkno : ℕ) (chain : List ℕ) :
    rel.leafRun (blkno :: chain) = (if (rel.pageAt blkno).ignore then []
        else (rel.pageAt blkno).dataItems ++
          (rel.pageAt blkno).hikey.toList) ++ rel.leafRun chain :=
  flatMap_cons

theorem BTRel.leafRun_append (rel : BTRel D) (front chain : List ℕ) :
    rel.leafRun (front ++ chain) = rel.leafRun front ++ rel.leafRun chain :=
  flatMap_append

theorem BTRel.leafTuples_append (rel : BTRel D) (front chain : List ℕ) :
    rel.leafTuples (front ++ chain) = rel.leafTuples front ++ rel.leafTuples chain :=
  flatMap_append

theorem BTRel.leafTuples_subset (rel : BTRel D) (chain : List ℕ) :
    rel.leafTuples chain ⊆ rel.leafRun chain := by
  intro itup hitup
  rw [leafTuples, mem_flatMap] at hitup
  obtain ⟨blkno, hblkno, hin⟩ := hitup
  rw [leafRun, mem_flatMap]
  refine ⟨blkno, hblkno, ?_⟩
  split at hin
  · exact absurd hin (by simp)
  · next hused =>
      rw [if_neg hused]
      exact mem_append_left _ hin

variable {blkno : ℕ} {itup : IndexTuple D}

theorem BTShape.levels_pos {shape : BTShape}
    (hblkno : blkno ∈ shape.chain 0) : 0 < shape.levels.length := by
  by_contra hnone
  rw [chain, getD_eq_getElem?_getD, getElem?_eq_none (by omega)] at hblkno
  exact absurd hblkno (by simp)

theorem BTRel.WellFormed.btpoNext_eq (hwf : rel.WellFormed shape) {front rest : List ℕ}
    (hchain : shape.chain 0 = front ++ blkno :: rest) :
    (rel.pageAt blkno).btpoNext = rest.headD pNone := by
  have hmem : blkno ∈ shape.chain 0 := by
    rw [hchain]
    simp
  have hlinked := (hwf.level _ (shape.chain_mem (levels_pos hmem))).linked
  rw [hchain] at hlinked
  obtain ⟨prev, hsuffix⟩ := hlinked.of_append
  exact hsuffix.2.1

/-- The attributes of a tuple on the leaf level are all there. -/
theorem BTRel.WellFormed.complete_of_leafRun (hwf : rel.WellFormed shape)
    (hitup : itup ∈ rel.leafRun (shape.chain 0)) : rel.Complete itup := by
  rw [leafRun, mem_flatMap] at hitup
  obtain ⟨blkno, hblkno, hin⟩ := hitup
  split at hin
  · exact absurd hin (by simp)
  · next hused =>
      rw [not_eq_true] at hused
      have hlevel := levels_pos hblkno
      apply (hwf.items blkno (mem_flatten hlevel hblkno) hused).2
      rcases mem_append.mp hin with hdata | hhikey
      · exact mem_items_of_mem_dataItems hdata
      · exact mem_items_of_hikey (mem_toList.mp hhikey)

theorem IndexTuple.exists_getattr (hnulls : ∀ attr ∈ itup.attrs, attr.isSome = true) {attno : ℕ}
    (hone : 1 ≤ attno) (hattno : attno ≤ itup.attrs.length) :
    ∃ datum, itup.getattr attno = some datum := by
  have hlt : attno - 1 < itup.attrs.length := by omega
  obtain ⟨datum, hdatum⟩ := isSome_iff_exists.mp (hnulls _ (getElem_mem hlt))
  refine ⟨datum, ?_⟩
  rw [getattr, getD_eq_getElem?_getD, getElem?_eq_getElem hlt, hdatum]
  rfl

/-! ### The search key of a scan -/

/-- The insertion key that `_bt_first` builds for a forward scan. -/
def scanInsert (keys : List (BTScanKey D)) : BTScanInsert D :=
  let start := btStartKeys .forward keys 1 none .equal
  btInsertKey start.1 (btNextkey .forward start.2)

theorem scanInsert_starts (keys : List (BTScanKey D)) :
    Starts keys 1 (btStartKeys .forward keys 1 none .equal) :=
  starts_btStartKeys keys 1 none .equal (fun _ hkey => hkey) (chosen_none 1) (.inl rfl)

theorem Bounds.inOrder {n : ℕ} {start : List (BTScanKey D)} {nextkey : Bool}
    (hbounds : Bounds keys n start nextkey) :
    InOrder n (start.map fun cur =>
      (⟨cur.skAttno, cur.skArgument⟩ : InsertKey D)) := by
  induction hbounds with
  | nil n => trivial
  | strict hmem hattno hstrategy => exact ⟨hattno, trivial⟩
  | cons hmem hattno hstrategy hrest ih => exact ⟨hattno, ih⟩

theorem scanInsert_plain (keys : List (BTScanKey D)) : (scanInsert keys).Plain :=
  ⟨(scanInsert_starts keys).1.inOrder, rfl⟩

def startArgs (keys : List (BTScanKey D)) : List D :=
  (btStartKeys .forward keys 1 none .equal).1.map fun key => key.skArgument

section

variable [∀ attno, TransCmp (rel.cmpProc attno)]

theorem before_scanInsert (hcomplete : rel.Complete itup) :
    rel.before (scanInsert keys) itup = reachesCmpval (scanInsert keys).nextkey
        (compareArgs rel.cmpProc (finish (scanInsert keys) itup) 1
          (startArgs keys) itup.attrs) := by
  rw [BTRel.before, btCompareTuple_eq (scanInsert_plain keys) hcomplete, BTScanInsert.passes]
  congr 2
  simp [scanInsert, btInsertKey, startArgs]

/-- Tuples before the start keys do not satisfy the keys. -/
theorem BTRel.Scannable.not_satisfies_of_before (hscan : rel.Scannable shape)
    (hkeys : ForwardKeys rel keys) (hitup : itup ∈ rel.leafTuples (shape.chain 0))
    (hbefore : rel.before (scanInsert keys) itup = true) : satisfies keys itup = false := by
  have hrun := rel.leafTuples_subset _ hitup
  have hcomplete := hscan.wellFormed.complete_of_leafRun hrun
  have hpivot : itup.isPivot = false := by
    rw [isPivot, hscan.noPosting itup hitup]
    rfl
  have hlength : itup.attrs.length = rel.natts := by
    rw [hcomplete, getNAtts, hpivot]
    rfl
  have hfinish : ∀ ended, finish (scanInsert keys) itup ended = .eq := by
    intro ended
    simp [finish, getHeapTID, hpivot]
  rw [before_scanInsert hcomplete] at hbefore
  obtain ⟨key, hkey, hfails⟩ := hkeys.exists_not_accepts (scanInsert_starts keys).1 hlength
    (fun attr hattr => isSome_iff_ne_none.mp
      (hscan.noNulls itup hrun attr hattr)) hfinish [] itup.attrs rfl rfl hbefore
  rw [satisfies, List.all_eq_false]
  exact ⟨key, hkey, not_eq_true _ ▸ hfails⟩

/-- Where a key that is required fails at a tuple that is not before the start
keys, later tuples do not satisfy the keys. -/
theorem BTRel.Scannable.not_satisfies_of_required (hscan : rel.Scannable shape)
    (hkeys : ForwardKeys rel keys) {stop later : IndexTuple D}
    (hstop : stop ∈ rel.leafRun (shape.chain 0)) (hle : rel.TupleLe stop later)
    (hafter : rel.before (scanInsert keys) stop = false) {key : BTScanKey D} (hkey : key ∈ keys)
    (hrequired : key.required .forward = true) (hattno : key.skAttno ≤ stop.attrs.length)
    (hfails : key.accepts stop = false) : satisfies keys later = false := by
  have hcomplete := hscan.wellFormed.complete_of_leafRun hstop
  obtain ⟨datum, hget⟩ := exists_getattr (hscan.noNulls stop hstop) (hkeys.attnos key hkey).1 hattno
  apply hkeys.not_satisfies hkey hrequired (scanInsert_starts keys).1 _ _ _ hget hfails
  · intro count hequal
    exact btStartKeys_equal keys 1 count none .equal hkeys.sorted
      (fun key hkey => (hkeys.attnos key hkey).1) hequal
  · exact finish (scanInsert keys) stop
  · intro hgt
    rw [BTRel.TupleLe, hgt] at hle
    exact hle rfl
  · intro hgt
    rw [before_scanInsert hcomplete, startArgs, hgt] at hafter
    cases hnext : (scanInsert keys).nextkey <;> rw [hnext] at hafter <;>
      exact absurd hafter (by decide)

end

/-! ### Checking one tuple -/

def goesOn (keys : List (BTScanKey D)) (tupnatts : ℕ) (itup : IndexTuple D) : Bool :=
  ((btCheckkeys .forward itup tupnatts keys).map Prod.snd).getD true

/-- `_bt_checkkeys` on a tuple without nulls. -/
theorem btCheckkeys_eq (itup : IndexTuple D) (hnulls : ∀ attr ∈ itup.attrs, attr.isSome = true)
    (keys : List (BTScanKey D)) (hattnos : ∀ key ∈ keys, 1 ≤ key.skAttno) :
    ∃ satisfied continuescan, btCheckkeys .forward itup itup.attrs.length keys =
        some (satisfied, continuescan) ∧ ((∀ key ∈ keys, key.skAttno ≤ itup.attrs.length) →
        satisfied = satisfies keys itup) ∧ (continuescan = false → satisfied = false ∧
        ∃ key ∈ keys, key.required .forward = true ∧
          key.skAttno ≤ itup.attrs.length ∧ key.accepts itup = false) := by
  induction keys with
  | nil => exact ⟨true, true, rfl, fun _ => rfl, by simp⟩
  | cons key keys ih =>
    obtain ⟨satisfied, continuescan, hcheck, hsatisfied, hstop⟩ :=
      ih fun other hother => hattnos other (.tail _ hother)
    have hstop' : continuescan = false → satisfied = false ∧
        ∃ other ∈ key :: keys, other.required .forward = true ∧
          other.skAttno ≤ itup.attrs.length ∧ other.accepts itup = false := by
      intro hfalse
      obtain ⟨hnot, other, hother, hrest⟩ := hstop hfalse
      exact ⟨hnot, other, mem_cons_of_mem _ hother, hrest⟩
    rw [btCheckkeys]
    by_cases hattno : key.skAttno > itup.attrs.length
    · rw [if_pos hattno]
      refine ⟨satisfied, continuescan, hcheck, ?_, hstop'⟩
      intro hall
      have hle := hall key mem_cons_self
      omega
    rw [if_neg hattno]
    obtain ⟨datum, hget⟩ := exists_getattr hnulls
      (hattnos key mem_cons_self) (Nat.le_of_not_lt hattno)
    have haccepts : key.accepts itup = key.skFunc datum key.skArgument := by
      rw [BTScanKey.accepts, hget]
      rfl
    simp only [hget, bind_eq_bind, bind_some]
    cases htest : key.skFunc datum key.skArgument with
    | true =>
      refine ⟨satisfied, continuescan, hcheck, ?_, hstop'⟩
      intro hall
      rw [satisfies, all_cons, haccepts, htest, Bool.true_and]
      exact hsatisfied fun other hother => hall other (.tail _ hother)
    | false =>
      refine ⟨false, !key.required .forward, rfl, ?_, ?_⟩
      · intro _
        rw [satisfies, all_cons, haccepts, htest, Bool.false_and]
      · intro hrequired
        refine ⟨rfl, key, mem_cons_self, ?_, by omega, ?_⟩
        · simpa using hrequired
        · rw [haccepts, htest]

/-! ### Saving items -/

def HoldsTids (items : ℤ → BTScanPosItem) (tids : List ItemPointer) : Prop :=
  ∀ (place : ℕ) (tid : ItemPointer), tids[place]? = some tid → (items place).heapTid = tid

structure SavedAs (saved : BTSaved) (tids : List ItemPointer) : Prop where
  itemIndex : saved.itemIndex = tids.length
  items : HoldsTids saved.items tids

theorem SavedAs.push {saved : BTSaved} {tids : List ItemPointer}
    (hsaved : SavedAs saved tids) (item : BTScanPosItem) :
    SavedAs ⟨update saved.items saved.itemIndex item,
      saved.itemIndex + 1⟩ (tids ++ [item.heapTid]) where
  itemIndex := by
    rw [hsaved.itemIndex, length_append]
    rfl
  items := by
    intro place tid htid
    dsimp only
    rw [hsaved.itemIndex]
    by_cases hplace : place < tids.length
    · rw [getElem?_append_left hplace] at htid
      rw [update_of_ne (by omega)]
      exact hsaved.items place tid htid
    · have hlength := (List.getElem?_eq_some_iff.mp htid).1
      rw [length_append, length_singleton] at hlength
      have hlast : place = tids.length := by omega
      subst hlast
      rw [getElem?_append_right le_rfl, Nat.sub_self] at htid
      rw [update_self]
      exact some.inj htid

/-- The forward loop saves the matching tuples up to the first at which the scan
does not go on. -/
theorem btReadForward_eq {natts : ℕ} {page : BTPage D}
    (goes : IndexTuple D → Bool) (place : ℕ) (itups : List (IndexTuple D))
    (hitups : page.dataItems.drop place = itups)
    (hcheck : ∀ itup ∈ itups, btCheckkeys .forward itup natts keys =
      some (satisfies keys itup, goes itup))
    (hgoes : ∀ itup ∈ itups, goes itup = false → satisfies keys itup = false)
    (saved : BTSaved) (done : List ItemPointer) (hsaved : SavedAs saved done) :
    ∃ after, btReadForward natts keys page itups.length
        (page.firstDataKey + place) saved = some (after, itups.all goes) ∧
      SavedAs after (done ++ ((itups.takeWhile goes).filter (satisfies keys)).map tTid) := by
  induction itups generalizing place saved done with
  | nil => exact ⟨saved, rfl, by simpa using hsaved⟩
  | cons itup itups ih =>
    have hitem : page.item (page.firstDataKey + place) = some itup := by
      rw [page.item_firstDataKey_add, ← head?_drop, hitups]
      rfl
    have hrest : page.dataItems.drop (place + 1) = itups := by
      rw [← tail_drop, hitups]
      rfl
    have hnext := fun saved done hsaved => ih (place + 1) hrest
      (fun other hother => hcheck other (.tail _ hother))
      (fun other hother => hgoes other (.tail _ hother)) saved done hsaved
    rw [length_cons, btReadForward, hitem]
    simp only [bind_eq_bind, bind_some, hcheck itup mem_cons_self]
    cases hgo : goes itup with
    | false =>
      have hnot := hgoes itup mem_cons_self hgo
      refine ⟨saved, ?_, ?_⟩
      · rw [hnot, all_cons, hgo]
        rfl
      · rw [takeWhile_cons_of_neg (by simp [hgo])]
        simpa using hsaved
    | true =>
      rw [all_cons, hgo, Bool.true_and, takeWhile_cons_of_pos hgo]
      cases hsatisfied : satisfies keys itup with
      | false =>
        rw [filter_cons_of_neg (by simp [hsatisfied])]
        exact hnext saved done hsaved
      | true =>
        rw [filter_cons_of_pos hsatisfied, map_cons, append_cons]
        exact hnext _ _ (hsaved.push ⟨itup.tTid, page.firstDataKey + place⟩)

/-- Stopping loses nothing if no later tuple matches. -/
theorem filter_takeWhile {α : Type} {goes matching : α → Bool} {values : List α}
    (hgoes : ∀ value ∈ values, goes value = false → matching value = false)
    (hlater : values.Pairwise fun stop later => goes stop = false → matching later = false) :
    (values.takeWhile goes).filter matching = values.filter matching := by
  induction values with
  | nil => rfl
  | cons value values ih =>
    rw [pairwise_cons] at hlater
    have hrest := ih (fun other hother => hgoes other (.tail _ hother)) hlater.2
    cases hgo : goes value with
    | true => rw [takeWhile_cons_of_pos hgo, filter_cons, filter_cons, hrest]
    | false =>
      rw [takeWhile_cons_of_neg (by simp [hgo]), filter_nil, filter_cons_of_neg (by
          simp [hgoes value mem_cons_self hgo])]
      symm
      rw [filter_eq_nil_iff]
      intro later hin
      simp [hlater.1 later hin hgo]

/-! ### One leaf page -/

def matchingTids (keys : List (BTScanKey D)) (itups : List (IndexTuple D)) : List ItemPointer :=
  (itups.filter (satisfies keys)).map tTid

/-- A position with saved items, before the pages `rest`.  The scan is cut off
only if these have no matches. -/
structure Loaded (rel : BTRel D) (keys : List (BTScanKey D)) (pos : BTScanPos)
    (rest : List ℕ) (tids : List ItemPointer) : Prop where
  currPage : pos.currPage.isNone = false
  nextPage : pos.nextPage = some (rest.headD pNone)
  lastItem : pos.lastItem = tids.length - 1
  items : HoldsTids pos.items tids
  more : pos.moreRight = true ∨ matchingTids keys (rel.leafTuples rest) = []

section

variable {front rest : List ℕ} {blkno : ℕ}

theorem BTRel.leafRun_subset (hchain : shape.chain 0 = front ++ blkno :: rest)
    (hused : (rel.pageAt blkno).ignore = false) :
    ((rel.pageAt blkno).dataItems ++ (rel.pageAt blkno).hikey.toList) ++
      rel.leafRun rest ⊆ rel.leafRun (shape.chain 0) := by
  intro itup hitup
  rw [hchain, leafRun_append, leafRun_cons, hused, if_neg Bool.false_ne_true]
  exact mem_append_right _ hitup

theorem matchingTids_eq_nil {itups : List (IndexTuple D)}
    (hnone : ∀ itup ∈ itups, satisfies keys itup = false) : matchingTids keys itups = [] := by
  rw [matchingTids, map_eq_nil_iff, filter_eq_nil_iff]
  intro itup hitup
  simp [hnone itup hitup]

variable (hscan : rel.Scannable shape)
include hscan

/-- The leaf level from a page in use on. -/
theorem BTRel.Scannable.sorted_cons
    (hchain : shape.chain 0 = front ++ blkno :: rest) (hused : (rel.pageAt blkno).ignore = false) :
    (((rel.pageAt blkno).dataItems ++ (rel.pageAt blkno).hikey.toList) ++
      rel.leafRun rest).Pairwise rel.TupleLe := by
  have hsorted := hscan.sorted
  rw [hchain, leafRun_append, leafRun_cons, hused, if_neg Bool.false_ne_true] at hsorted
  exact (pairwise_append.mp hsorted).2.1

variable (hkeys : ForwardKeys rel keys)
include hkeys

/-- Checking a tuple of a leaf page. -/
theorem BTRel.Scannable.checkkeys {itup : IndexTuple D}
    (hitup : itup ∈ rel.leafTuples (shape.chain 0)) :
    btCheckkeys .forward itup rel.natts keys =
      some (satisfies keys itup, goesOn keys rel.natts itup) ∧ itup.attrs.length = rel.natts ∧
    (goesOn keys rel.natts itup = false → satisfies keys itup = false) := by
  have hrun := rel.leafTuples_subset _ hitup
  have hlength : itup.attrs.length = rel.natts := by
    rw [hscan.wellFormed.complete_of_leafRun hrun, getNAtts, isPivot, hscan.noPosting itup hitup]
    rfl
  obtain ⟨satisfied, continuescan, hcheck, hsatisfied, hstop⟩ :=
    btCheckkeys_eq itup (hscan.noNulls itup hrun) keys fun key hkey => (hkeys.attnos key hkey).1
  rw [hlength] at hcheck hsatisfied
  have hgoes : goesOn keys rel.natts itup = continuescan := by
    rw [goesOn, hcheck]
    rfl
  have heq := hsatisfied fun key hkey => (hkeys.attnos key hkey).2
  refine ⟨by rw [hcheck, hgoes, heq], hlength, ?_⟩
  intro hfalse
  rw [← heq]
  exact (hstop (hgoes ▸ hfalse)).1

variable [∀ attno, TransCmp (rel.cmpProc attno)]

/-- Where the scan does not go on after a tuple, later tuples do not match. -/
theorem BTRel.Scannable.not_satisfies_of_goesOn {stop later : IndexTuple D}
    (hstop : stop ∈ rel.leafRun (shape.chain 0))
    (hafter : rel.before (scanInsert keys) stop = false)
    (hgoes : goesOn keys stop.attrs.length stop = false)
    (hle : rel.TupleLe stop later) : satisfies keys later = false := by
  obtain ⟨satisfied, continuescan, hcheck, -, hrequired⟩ := btCheckkeys_eq stop
    (hscan.noNulls stop hstop) keys fun key hkey => (hkeys.attnos key hkey).1
  rw [goesOn, hcheck] at hgoes
  obtain ⟨-, key, hkey, hflag, hattno, hfails⟩ := hrequired hgoes
  exact hscan.not_satisfies_of_required hkeys hstop hle hafter hkey hflag hattno hfails

variable (hchain : shape.chain 0 = front ++ blkno :: rest)
include hchain

/-- The loop over a leaf page, from a place that is not before the start. -/
theorem BTRel.Scannable.readForward (hused : (rel.pageAt blkno).ignore = false) (place : ℕ)
    (hafter : ∀ itup ∈ (rel.pageAt blkno).dataItems.drop place,
      rel.before (scanInsert keys) itup = false) (items : ℤ → BTScanPosItem) :
    ∃ saved continuescan, btReadForward rel.natts keys (rel.pageAt blkno)
        ((rel.pageAt blkno).dataItems.length - place)
        ((rel.pageAt blkno).firstDataKey + place) ⟨items, 0⟩ = some (saved, continuescan) ∧
      SavedAs saved (matchingTids keys ((rel.pageAt blkno).dataItems.drop place)) ∧
      (continuescan = false → ∀ later ∈ rel.leafRun rest, satisfies keys later = false) := by
  have hsorted := hscan.sorted_cons hchain hused
  have hrun := rel.leafRun_subset hchain hused
  rw [pairwise_append, pairwise_append] at hsorted
  have hin : ∀ itup ∈ (rel.pageAt blkno).dataItems.drop place,
      itup ∈ (rel.pageAt blkno).dataItems := fun itup hitup =>
    mem_of_mem_drop hitup
  have htuples : ∀ itup ∈ (rel.pageAt blkno).dataItems.drop place,
      itup ∈ rel.leafTuples (shape.chain 0) := by
    intro itup hitup
    rw [hchain, leafTuples_append, leafTuples_cons, hused, if_neg Bool.false_ne_true]
    exact mem_append_right _ (mem_append_left _ (hin itup hitup))
  have hstop : ∀ stop ∈ (rel.pageAt blkno).dataItems.drop place, ∀ later, rel.TupleLe stop later →
        goesOn keys rel.natts stop = false → satisfies keys later = false := by
    intro stop hmem later hle hgoes
    have hlength := (hscan.checkkeys hkeys (htuples stop hmem)).2.1
    exact hscan.not_satisfies_of_goesOn hkeys (rel.leafTuples_subset _ (htuples stop hmem))
      (hafter stop hmem) (by rw [hlength]; exact hgoes) hle
  have hgoes : ∀ itup ∈ (rel.pageAt blkno).dataItems.drop place,
      goesOn keys rel.natts itup = false → satisfies keys itup = false :=
    fun itup hitup => (hscan.checkkeys hkeys (htuples itup hitup)).2.2
  obtain ⟨saved, hread, hsaved⟩ := btReadForward_eq (goesOn keys rel.natts) place _ rfl
    (fun itup hitup => (hscan.checkkeys hkeys (htuples itup hitup)).1) hgoes
    ⟨items, 0⟩ [] ⟨rfl, fun place tid htid => absurd htid (by simp)⟩
  rw [nil_append, filter_takeWhile hgoes (List.Pairwise.imp_of_mem
      (fun hfirst _ hle hgoes => hstop _ hfirst _ hle hgoes)
      (hsorted.1.1.sublist (drop_sublist place _)))] at hsaved
  rw [length_drop] at hread
  refine ⟨saved, _, hread, hsaved, ?_⟩
  intro hcut later hlater
  rw [List.all_eq_false] at hcut
  obtain ⟨stop, hmem, hfalse⟩ := hcut
  exact hstop stop hmem later (hsorted.2.2 stop (mem_append_left _ (hin stop hmem)) later hlater)
    (not_eq_true _ ▸ hfalse)

/-- The high key of a leaf page that is not before the start. -/
theorem BTRel.Scannable.checkHikey (hused : (rel.pageAt blkno).ignore = false)
    (hright : (rel.pageAt blkno).rightmost = false) (hitems : (rel.pageAt blkno).items ≠ [])
    (hafter : ∀ hikey ∈ (rel.pageAt blkno).hikey, rel.before (scanInsert keys) hikey = false) :
    ∃ continuescan, btCheckHikey rel.natts keys (rel.pageAt blkno) = some continuescan ∧
      (continuescan = false → ∀ later ∈ rel.leafRun rest, satisfies keys later = false) := by
  have hsorted := hscan.sorted_cons hchain hused
  have hrun := rel.leafRun_subset hchain hused
  rw [pairwise_append] at hsorted
  obtain ⟨hikey, hmem, hhikey⟩ := exists_hikey hright hitems
  have hin : hikey ∈ (rel.pageAt blkno).dataItems ++ (rel.pageAt blkno).hikey.toList :=
    mem_append_right _ (mem_toList.mpr hhikey)
  have hstop := hrun (mem_append_left _ hin)
  have hcomplete := hscan.wellFormed.complete_of_leafRun hstop
  obtain ⟨satisfied, continuescan, hcheck, -⟩ := btCheckkeys_eq hikey
    (hscan.noNulls hikey hstop) keys fun key hkey => (hkeys.attnos key hkey).1
  have hgoes : goesOn keys hikey.attrs.length hikey = continuescan := by
    rw [goesOn, hcheck]
    rfl
  refine ⟨continuescan, ?_, ?_⟩
  · rw [btCheckHikey, (rel.pageAt blkno).item_pHikey hright, hhikey]
    simp only [bind_eq_bind, bind_some]
    rw [← hcomplete, hcheck]
    rfl
  · intro hcut later hlater
    exact hscan.not_satisfies_of_goesOn hkeys hstop (hafter hikey hhikey)
      (hgoes.trans hcut) (hsorted.2.2 hikey hin later hlater)

/-- `_bt_readpage` on a leaf page, from a place that is not before the start. -/
theorem BTRel.Scannable.readpage

    (hused : (rel.pageAt blkno).ignore = false) (place : ℕ)
    (hafter : ∀ itup ∈ (rel.pageAt blkno).dataItems.drop place,
      rel.before (scanInsert keys) itup = false) (hhikey : ∀ hikey ∈ (rel.pageAt blkno).hikey,
      rel.before (scanInsert keys) hikey = false) (pos : BTScanPos) (hmore : pos.moreRight = true) :
    ∃ after, btReadpage rel keys .forward (rel.bufferAt blkno)
        ((rel.pageAt blkno).firstDataKey + place) pos = some (!(matchingTids keys
            ((rel.pageAt blkno).dataItems.drop place)).isEmpty, after) ∧
      Loaded rel keys after rest (matchingTids keys ((rel.pageAt blkno).dataItems.drop place)) ∧
      after.itemIndex = 0 := by
  have hmem : blkno ∈ shape.chain 0 := by
    rw [hchain]
    simp
  have hlevel := levels_pos hmem
  have hitems := (hscan.wellFormed.items blkno (WellFormed.mem_flatten hlevel hmem) hused).1
  have hnext := hscan.wellFormed.btpoNext_eq hchain
  obtain ⟨saved, continuescan, hread, hsaved, hcut⟩ :=
    hscan.readForward hkeys hchain hused place hafter pos.items
  have hcount : (rel.pageAt blkno).maxOffsetNumber + 1 - ((rel.pageAt blkno).firstDataKey + place) =
        (rel.pageAt blkno).dataItems.length - place := by
    rw [(rel.pageAt blkno).maxOffsetNumber_add_one hitems, Nat.add_sub_add_left]
  have hflag : ∃ goes, (if (continuescan && !(rel.pageAt blkno).rightmost) =
        true then btCheckHikey rel.natts keys (rel.pageAt blkno)
      else some continuescan) = some goes ∧ (goes = false → ∀ later ∈ rel.leafRun rest,
          satisfies keys later = false) := by
    split
    · next hcheck =>
        rw [and_eq_true, not_eq_true'] at hcheck
        exact hscan.checkHikey hkeys hchain hused hcheck.2
          (by rw [hcheck.2] at hitems; exact hitems.resolve_left (by simp)) hhikey
    · exact ⟨continuescan, rfl, hcut⟩
  obtain ⟨goes, hgoes, hlater⟩ := hflag
  refine ⟨{ pos with
      currPage := some blkno
      nextPage := some (rest.headD pNone)
      items := saved.items
      moreRight := goes
      firstItem := 0
      lastItem := saved.itemIndex - 1
      itemIndex := 0 }, ?_, ⟨rfl, rfl, ?_, hsaved.items, ?_⟩, rfl⟩
  · have hfound : decide ((0 : ℤ) ≤ saved.itemIndex - 1) = !(matchingTids keys
          ((rel.pageAt blkno).dataItems.drop place)).isEmpty := by
      rw [hsaved.itemIndex]
      cases matchingTids keys ((rel.pageAt blkno).dataItems.drop place) with
      | nil => rfl
      | cons tid tids => simp
    rw [btReadpage]
    simp only [if_true, BTRel.bufferAt, Nat.max_eq_left (Nat.le_add_right _ _),
      hcount, hread, bind_eq_bind, bind_some, hmore, Bool.true_and, hnext, hfound]
    split at hgoes
    · next hcheck =>
        rw [if_pos hcheck, hgoes]
        rfl
    · next hcheck => rw [if_neg hcheck, some.inj hgoes]
  · rw [hsaved.itemIndex]
  · cases goes with
    | true => exact .inl rfl
    | false =>
      refine .inr (matchingTids_eq_nil fun itup hitup => ?_)
      exact hlater rfl itup (rel.leafTuples_subset _ hitup)

end

end Soda.Storpu
