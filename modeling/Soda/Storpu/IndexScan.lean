import Soda.Storpu.LeafPages

/-!
# Forward index scans

Calling `btgettuple` again and again returns the heap addresses of the leaf
tuples that satisfy the keys, from left to right, and then reports the end.
-/

namespace Soda.Storpu

open KeyOrder List Option Bool BTPage BTShape
open BTPage (pNone pHikey)
open Std (TransCmp)

variable {D : Type} {rel : BTRel D} {shape : BTShape} {keys : List (BTScanKey D)}

/-- The pages `rest` end the leaf level, and nothing there is before the start
keys. -/
structure Beyond (rel : BTRel D) (shape : BTShape) (keys : List (BTScanKey D))
    (rest : List ℕ) : Prop where
  suffix : ∃ front, shape.chain 0 = front ++ rest
  after : ∀ itup ∈ rel.leafRun rest, rel.before (scanInsert keys) itup = false

/-- A position on the first of the addresses that are still to be returned, the
one it stands on included. -/
def Standing (rel : BTRel D) (shape : BTShape) (keys : List (BTScanKey D))
    (pos : BTScanPos) (tids : List ItemPointer) : Prop :=
  ∃ (rest : List ℕ) (saved : List ItemPointer) (place : ℕ),
    Beyond rel shape keys rest ∧ Loaded rel keys pos rest saved ∧
      pos.itemIndex = place ∧ place < saved.length ∧
        saved.drop place ++ matchingTids keys (rel.leafTuples rest) = tids

variable {pos : BTScanPos} {tids : List ItemPointer}

theorem Standing.currPage
    (hpos : Standing rel shape keys pos tids) : pos.currPage.isNone = false := by
  obtain ⟨rest, saved, place, -, hloaded, -⟩ := hpos
  exact hloaded.currPage

theorem Standing.head? (hpos : Standing rel shape keys pos tids) :
    tids.head? = some (pos.items pos.itemIndex).heapTid := by
  obtain ⟨rest, saved, place, -, hloaded, hindex, hplace, rfl⟩ := hpos
  rw [head?_append, head?_drop, getElem?_eq_getElem hplace,
    hindex, hloaded.items place _ (getElem?_eq_getElem hplace)]
  rfl

theorem Beyond.tail {blkno : ℕ} {rest : List ℕ} (hbeyond : Beyond rel shape keys (blkno :: rest)) :
    Beyond rel shape keys rest := by
  obtain ⟨front, hchain⟩ := hbeyond.suffix
  refine ⟨⟨front ++ [blkno], by rw [hchain, append_assoc]; rfl⟩, ?_⟩
  intro itup hitup
  apply hbeyond.after
  exact mem_append_right _ hitup

theorem matchingTids_append (first second : List (IndexTuple D)) :
    matchingTids keys (first ++ second) = matchingTids keys first ++ matchingTids keys second := by
  rw [matchingTids, filter_append, map_append]
  rfl

section

variable {front rest : List ℕ} {scan : BTScan D} {blkno : ℕ}

/-- What a call returns from a position. -/
theorem fetched_eq (scan : BTScan D) (hpos : tids ≠ [] → Standing rel shape keys pos tids) :
    scan.fetched (!tids.isEmpty) pos = (tids.head?, { scan with currPos := pos }) := by
  cases tids with
  | nil => rfl
  | cons tid tids =>
    rw [(hpos (cons_ne_nil _ _)).head?]
    rfl

theorem ForwardKeys.startKeys_ne_nil (hkeys : ForwardKeys rel keys) :
    (btStartKeys .forward keys 1 none .equal).1 ≠ [] := by
  apply btStartKeys_ne_nil keys 1 none .equal hkeys.sorted
  · exact fun key hkey => (hkeys.attnos key hkey).1
  · exact .inr hkeys.bounded

/-- `_bt_first` on an empty tree. -/
theorem btFirst_empty (hdata : scan.keyData = keys) (hkeys : ForwardKeys rel keys)
    (hsearch : btSearch rel (scanInsert keys) scan.rdAmcache = some (none, none)) :
    btFirst rel scan .forward = some (none, { scan with
      rdAmcache := none
      currPos := scan.currPos.invalidate }) := by
  have hne := hkeys.startKeys_ne_nil
  rw [scanInsert] at hsearch
  rw [btFirst, hdata]
  generalize btStartKeys .forward keys 1 none .equal = start at *
  obtain ⟨startKeys, stratTotal⟩ := start
  dsimp only at hne hsearch ⊢
  rw [if_neg hne, hsearch]
  rfl

/-- `_bt_first` up to the first page. -/
theorem btFirst_eq (hdata : scan.keyData = keys) (hkeys : ForwardKeys rel keys) {buf : BTBuffer D}
    {rdAmcache : Option BTMetaPageData} {offnum : ℕ} {found : Bool}
    (hsearch : btSearch rel (scanInsert keys) scan.rdAmcache = some (some buf, rdAmcache))
    (hbinsrch : btBinsrch rel (scanInsert keys) buf.bufpage = some offnum)
    (hread : btReadpage rel keys .forward buf offnum { scan.currPos with
      moreLeft := false
      moreRight := true } = some (found, pos)) :
    btFirst rel scan .forward = (do
      let (found, pos) ←
        if found then some (true, pos) else btSteppage rel keys .forward pos
      some (BTScan.fetched { scan with rdAmcache } found pos)) := by
  have hne := hkeys.startKeys_ne_nil
  have hgoback := (scanInsert_starts keys).2
  rw [scanInsert] at hsearch hbinsrch
  rw [btFirst, hdata]
  generalize btStartKeys .forward keys 1 none .equal = start at *
  obtain ⟨startKeys, stratTotal⟩ := start
  dsimp only at hne hsearch hbinsrch hgoback ⊢
  rw [if_neg hne, hsearch]
  simp only [bind_eq_bind, bind_some]
  rw [hbinsrch]
  simp only [bind_some, hgoback, false_eq_true, if_false]
  exact congrArg (Option.bind · _) hread

variable [∀ attno, TransCmp (rel.cmpProc attno)] (hscan : rel.Scannable shape)
include hscan

variable (hkeys : ForwardKeys rel keys)
include hkeys

/-- Walking along the pages that are left. -/
theorem BTRel.Scannable.readnextpage
    (rest : List ℕ) (hbeyond : Beyond rel shape keys rest) (fuel : ℕ)
    (hfuel : rest.length < fuel) (pos : BTScanPos) (hmore : pos.moreRight = true ∨
      matchingTids keys (rel.leafTuples rest) = []) :
    ∃ after, btReadnextpage rel keys .forward fuel (rest.headD pNone) pos =
        some (!(matchingTids keys (rel.leafTuples rest)).isEmpty, after) ∧
      (matchingTids keys (rel.leafTuples rest) ≠ [] → Standing rel shape keys after
          (matchingTids keys (rel.leafTuples rest))) := by
  induction rest generalizing fuel pos with
  | nil =>
    obtain ⟨fuel, rfl⟩ := Nat.exists_eq_succ_of_ne_zero (Nat.ne_of_gt hfuel)
    refine ⟨pos.invalidate, ?_, fun hne => absurd rfl hne⟩
    rfl
  | cons blkno rest ih =>
    obtain ⟨fuel, rfl⟩ := Nat.exists_eq_succ_of_ne_zero (Nat.ne_of_gt (Nat.zero_lt_of_lt hfuel))
    rw [btReadnextpage, if_pos rfl, headD_cons]
    by_cases hcut : pos.moreRight = false
    · have hnone := hmore.resolve_left (by simp [hcut])
      refine ⟨pos.invalidate, ?_, fun hne => absurd hnone hne⟩
      rw [if_pos (.inr hcut), hnone]
      rfl
    rw [not_eq_false] at hcut
    obtain ⟨front, hchain⟩ := hbeyond.suffix
    have hmem : blkno ∈ shape.chain 0 := by
      rw [hchain]
      simp
    have hlevel := levels_pos hmem
    have hfile := hscan.wellFormed.inFile blkno (WellFormed.mem_flatten hlevel hmem)
    have hnext := hscan.wellFormed.btpoNext_eq hchain
    have hrest := Nat.lt_of_succ_lt_succ hfuel
    rw [if_neg (by simp [hfile.1, hcut]), rel.readBuffer_eq hfile.2, rel.leafTuples_cons]
    simp only [bind_eq_bind, bind_some]
    cases hignore : (rel.pageAt blkno).ignore with
    | true =>
      simp only [bufferAt, hignore, if_true, nil_append, hnext]
      exact ih hbeyond.tail fuel hrest pos (.inl hcut)
    | false =>
      have hafter : ∀ itup ∈ (rel.pageAt blkno).dataItems ++ (rel.pageAt blkno).hikey.toList,
            rel.before (scanInsert keys) itup = false := by
        intro itup hitup
        apply hbeyond.after
        rw [rel.leafRun_cons, hignore, if_neg Bool.false_ne_true]
        exact mem_append_left _ hitup
      obtain ⟨after, hread, hloaded, hindex⟩ := hscan.readpage hkeys hchain hignore 0
        (fun itup hitup => hafter itup (mem_append_left _ hitup))
        (fun hikey hhikey => hafter hikey (mem_append_right _ (mem_toList.mpr hhikey))) pos hcut
      rw [drop_zero] at hread hloaded
      rw [add_zero] at hread
      simp only [bufferAt, hignore, false_eq_true, if_false, hnext]
      rw [← bufferAt, hread, matchingTids_append]
      cases htids : matchingTids keys (rel.pageAt blkno).dataItems with
      | nil =>
        exact ih hbeyond.tail fuel hrest after hloaded.more
      | cons tid tids =>
        refine ⟨after, rfl, fun _ => ?_⟩
        rw [htids] at hloaded
        exact ⟨rest, tid :: tids, 0, hbeyond.tail, hloaded, hindex, Nat.succ_pos _, rfl⟩

theorem BTRel.Scannable.steppage (hbeyond : Beyond rel shape keys rest)
    {saved : List ItemPointer} (hloaded : Loaded rel keys pos rest saved) :
    ∃ after, btSteppage rel keys .forward pos =
        some (!(matchingTids keys (rel.leafTuples rest)).isEmpty, after) ∧
      (matchingTids keys (rel.leafTuples rest) ≠ [] → Standing rel shape keys after
          (matchingTids keys (rel.leafTuples rest))) := by
  have hlength : rest.length < rel.pages.length + 1 := by
    obtain ⟨front, hchain⟩ := hbeyond.suffix
    cases rest with
    | nil => exact Nat.succ_pos _
    | cons blkno rest =>
      have hmem : blkno ∈ shape.chain 0 := by
        rw [hchain]
        simp
      have hlt := hscan.wellFormed.chain_length_lt (shape.chain_mem (levels_pos hmem))
      rw [hchain, length_append] at hlt
      omega
  obtain ⟨after, hread, hstanding⟩ := hscan.readnextpage hkeys rest hbeyond
    (rel.pages.length + 1) hlength { pos with moreLeft := true } hloaded.more
  refine ⟨after, ?_, hstanding⟩
  rw [hloaded.nextPage] at hread
  rw [btSteppage]
  simp only [if_true, hloaded.nextPage, bind_eq_bind, bind_some, hread]

/-- A call after one that returned an address. -/
theorem BTRel.Scannable.next

    (hdata : scan.keyData = keys) {tid : ItemPointer}
    (hpos : Standing rel shape keys scan.currPos (tid :: tids)) :
    ∃ after, btgettuple rel .forward scan = some (tids.head?, after) ∧ after.keyData = keys ∧
      (tids ≠ [] → Standing rel shape keys after.currPos tids) := by
  rw [btgettuple, hpos.currPage, if_neg Bool.false_ne_true, btNext]
  obtain ⟨rest, saved, place, hbeyond, hloaded, hindex, hplace, htids⟩ := hpos
  rw [drop_eq_getElem_cons hplace, cons_append, List.cons.injEq] at htids
  have hremain := htids.2
  have hmoved : Loaded rel keys (scan.currPos.advance .forward) rest saved :=
    ⟨hloaded.currPage, hloaded.nextPage, hloaded.lastItem, hloaded.items, hloaded.more⟩
  have hnext : (scan.currPos.advance .forward).itemIndex = (place + 1 : ℕ) :=
    congrArg (· + 1) hindex
  have hpassed : (scan.currPos.advance .forward).passed .forward =
      decide (saved.length ≤ place + 1) := by
    rw [BTScanPos.passed, if_pos rfl, hnext, hmoved.lastItem, decide_eq_decide]
    omega
  by_cases hlast : saved.length ≤ place + 1
  · rw [drop_eq_nil_of_le hlast, nil_append] at hremain
    obtain ⟨pos, hstep, hstanding⟩ := hscan.steppage hkeys hbeyond hmoved
    rw [hremain] at hstep hstanding
    refine ⟨{ scan with currPos := pos }, ?_, hdata, hstanding⟩
    rw [hpassed, decide_eq_true hlast, if_pos rfl, ← fetched_eq scan hstanding, hdata, hstep]
    rfl
  · have hstanding : tids ≠ [] → Standing rel shape keys
        (scan.currPos.advance .forward) tids := fun _ =>
      ⟨rest, saved, place + 1, hbeyond, hmoved, hnext, Nat.lt_of_not_le hlast, hremain⟩
    have hne : tids.isEmpty = false := by
      rw [← hremain, drop_eq_getElem_cons (Nat.lt_of_not_le hlast)]
      rfl
    refine ⟨{ scan with currPos := scan.currPos.advance .forward }, ?_, hdata, hstanding⟩
    rw [hpassed, decide_eq_false hlast, if_neg Bool.false_ne_true, ← fetched_eq scan hstanding, hne]
    rfl

omit hkeys

/-! ### The first call -/

/-- On a leaf page the bisection finds the first tuple that is not before the
key. -/
theorem BTRel.Scannable.binsrch {key : BTScanInsert D} (hkey : key.Plain)
    (hchain : shape.chain 0 = front ++ blkno :: rest) (hused : (rel.pageAt blkno).ignore = false) :
    ∃ cut, btBinsrch rel key (rel.pageAt blkno) = some ((rel.pageAt blkno).firstDataKey + cut) ∧
      (∀ itup ∈ (rel.pageAt blkno).dataItems.take cut, rel.before key itup = true) ∧
      (∀ itup ∈ (rel.pageAt blkno).dataItems.drop cut, rel.before key itup = false) := by
  have hmem : blkno ∈ shape.chain 0 := by
    rw [hchain]
    simp
  have hlevel := levels_pos hmem
  have hitems := hscan.wellFormed.items blkno (WellFormed.mem_flatten hlevel hmem) hused
  have hleaf : (rel.pageAt blkno).isLeaf = true := hscan.wellFormed.flags 0 hlevel blkno hmem hused
  have hsorted := hscan.sorted_cons hchain hused
  rw [pairwise_append, pairwise_append, pairwise_iff_getElem] at hsorted
  have hcomplete : ∀ itup ∈ (rel.pageAt blkno).dataItems, rel.Complete itup :=
    fun itup hitup => hitems.2 itup (mem_items_of_mem_dataItems hitup)
  obtain ⟨cut, hcut, hbelow, habove, hsearch⟩ :=
    @btBinsrch_eq D rel key (rel.pageAt blkno)
      (fun place => (rel.pageAt blkno).dataItems[place]?.any (rel.before key)) hitems.1 (.inl hleaf)
      (by
        intro place hplace
        have hget := getElem?_eq_getElem hplace
        rw [btCompare_data (.inl hleaf) hget, hget]
        rfl)
      (by
        intro place later hle hlater hpass
        rcases eq_or_lt_of_le hle with rfl | hless
        · exact hpass
        have hplace := lt_trans hless hlater
        rw [getElem?_eq_getElem hlater] at hpass
        rw [getElem?_eq_getElem hplace]
        exact before_of_tupleLe hkey (hcomplete _ (getElem_mem hplace))
          (hcomplete _ (getElem_mem hlater)) (hsorted.1.1 place later hplace hlater hless) hpass)
  rw [hleaf, if_pos rfl] at hsearch
  refine ⟨cut, hsearch, ?_, ?_⟩
  · intro itup hitup
    obtain ⟨place, hplace, hget⟩ := mem_take_iff_getElem.mp hitup
    have hpass := hbelow place (by omega)
    rw [getElem?_eq_getElem (by omega), hget] at hpass
    exact hpass
  · intro itup hitup
    obtain ⟨place, hplace, hget⟩ := mem_drop_iff_getElem.mp hitup
    have hfail := habove (cut + place) (by omega) (by omega)
    rw [getElem?_eq_getElem (by omega), hget] at hfail
    exact hfail

/-- Pages that the search passes over have no matches. -/
theorem BTRel.Scannable.matchingTids_passed
    (hkeys : ForwardKeys rel keys) (hchain : shape.chain 0 = front ++ rest)
    (hpassed : ∀ left ∈ front, rel.passed (scanInsert keys) left = true) :
    matchingTids keys (rel.leafTuples front) = [] := by
  apply matchingTids_eq_nil
  intro itup hitup
  have hall : itup ∈ rel.leafTuples (shape.chain 0) := by
    rw [hchain, leafTuples_append]
    exact mem_append_left _ hitup
  rw [leafTuples, mem_flatMap] at hitup
  obtain ⟨blkno, hblkno, hin⟩ := hitup
  split at hin
  · exact absurd hin (by simp)
  next hused =>
    rw [not_eq_true] at hused
    obtain ⟨before, after, hsplit⟩ := append_of_mem hblkno
    have hplace : shape.chain 0 = before ++ blkno :: (after ++ rest) := by
      rw [hchain, hsplit, append_assoc]
      rfl
    have hsorted := hscan.sorted_cons hplace hused
    rw [pairwise_append, pairwise_append] at hsorted
    have hpass := hpassed blkno hblkno
    rw [passed, hused, Bool.false_or, Bool.and_eq_true, Option.any_eq_true] at hpass
    obtain ⟨-, hikey, hhikey, hbefore⟩ := hpass
    have hrun := rel.leafRun_subset hplace hused
    have hdata := mem_append_left (rel.pageAt blkno).hikey.toList hin
    have hmem := mem_append_right (rel.pageAt blkno).dataItems (mem_toList.mpr hhikey)
    exact hscan.not_satisfies_of_before hkeys hall (before_of_tupleLe (scanInsert_plain keys)
        (hscan.wellFormed.complete_of_leafRun (hrun (mem_append_left _ hdata)))
        (hscan.wellFormed.complete_of_leafRun (hrun (mem_append_left _ hmem)))
        (hsorted.1.2.2 itup hin hikey (mem_toList.mpr hhikey)) hbefore)

/-- What is right of a page that the search does not pass over is not before the
start keys. -/
theorem BTRel.Scannable.beyond (hchain : shape.chain 0 = front ++ blkno :: rest)
    (hstop : rel.passed (scanInsert keys) blkno = false) :
    (∀ hikey ∈ (rel.pageAt blkno).hikey, rel.before (scanInsert keys) hikey = false) ∧
    Beyond rel shape keys rest := by
  have hmem : blkno ∈ shape.chain 0 := by
    rw [hchain]
    simp
  have hlevel := levels_pos hmem
  have hwf := hscan.wellFormed
  have hused := hwf.not_ignore hlevel hmem hstop
  have hhikey : ∀ hikey ∈ (rel.pageAt blkno).hikey, rel.before (scanInsert keys) hikey = false := by
    intro hikey hin
    have hright : (rel.pageAt blkno).rightmost = false := by
      rw [eq_false_iff]
      intro hlast
      rw [mem_def, BTPage.hikey, if_pos hlast] at hin
      exact absurd hin (by simp)
    rw [passed, hright, hused, hin] at hstop
    exact hstop
  refine ⟨hhikey, ⟨front ++ [blkno], by rw [hchain, append_assoc]; rfl⟩, ?_⟩
  intro itup hitup
  cases rest with
  | nil => exact absurd hitup (by simp [leafRun])
  | cons next rest =>
    have hnext : next ∈ shape.chain 0 := by
      rw [hchain]
      simp
    have hright : (rel.pageAt blkno).rightmost = false := by
      rw [rightmost, hwf.btpoNext_eq hchain, beq_eq_false_iff_ne]
      exact (hwf.inFile next (WellFormed.mem_flatten hlevel hnext)).1
    have hitems := (hwf.items blkno (WellFormed.mem_flatten hlevel hmem) hused).1
    rw [hright] at hitems
    obtain ⟨hikey, -, hin⟩ := exists_hikey hright (hitems.resolve_left (by simp))
    have hrun := rel.leafRun_subset hchain hused
    have hsorted := hscan.sorted_cons hchain hused
    rw [pairwise_append] at hsorted
    have hlist := mem_append_right (rel.pageAt blkno).dataItems (mem_toList.mpr hin)
    rw [eq_false_iff]
    intro hbefore
    have hpass := before_of_tupleLe (scanInsert_plain keys)
      (hwf.complete_of_leafRun (hrun (mem_append_left _ hlist)))
      (hwf.complete_of_leafRun (hrun (mem_append_right _ hitup)))
      (hsorted.2.2 hikey hlist itup hitup) hbefore
    rw [hhikey hikey hin] at hpass
    exact absurd hpass (by simp)

/-- The first call. -/
theorem BTRel.Scannable.first (hkeys : ForwardKeys rel keys)
    (hdata : scan.keyData = keys) (hcache : scan.rdAmcache = none)
    (hpos : scan.currPos.currPage.isNone = true) :
    ∃ after, btgettuple rel .forward scan = some ((matchingTids keys
          (rel.leafTuples (shape.chain 0))).head?, after) ∧ after.keyData = keys ∧
      (matchingTids keys (rel.leafTuples (shape.chain 0)) ≠ [] →
        Standing rel shape keys after.currPos
          (matchingTids keys (rel.leafTuples (shape.chain 0)))) := by
  rw [btgettuple, hpos, if_pos rfl]
  by_cases hroot : rel.metad.btmRoot = pNone
  · have hnone : matchingTids keys (rel.leafTuples (shape.chain 0)) = [] := by
      rw [chain, hscan.wellFormed.empty hroot]
      rfl
    have hsearch : btSearch rel (scanInsert keys) scan.rdAmcache = some (none, none) := by
      rw [hcache]
      exact hscan.wellFormed.search_empty hroot
    rw [btFirst_empty hdata hkeys hsearch, hnone]
    exact ⟨_, rfl, hdata, fun hne => absurd rfl hne⟩
  obtain ⟨leaf, htarget, hsearch⟩ := hscan.wellFormed.search (scanInsert_plain keys) hroot
  rw [leafFor, find?_eq_some_iff_append] at htarget
  obtain ⟨hstop, front, rest, hchain, hfront⟩ := htarget
  rw [not_eq_true'] at hstop
  have hmem : leaf ∈ shape.chain 0 := by
    rw [hchain]
    simp
  have hused := hscan.wellFormed.not_ignore (levels_pos hmem) hmem hstop
  obtain ⟨hhikey, hbeyond⟩ := hscan.beyond hchain hstop
  obtain ⟨cut, hbinsrch, hbelow, habove⟩ := hscan.binsrch (scanInsert_plain keys) hchain hused
  obtain ⟨pos, hread, hloaded, hindex⟩ := hscan.readpage hkeys hchain hused cut
    habove hhikey { scan.currPos with
      moreLeft := false
      moreRight := true } rfl
  have hfirst := btFirst_eq hdata hkeys (by rw [hcache]; exact hsearch) hbinsrch hread
  have hleft := hscan.matchingTids_passed hkeys hchain fun left hleft => by
    simpa using hfront left hleft
  have hbefore : matchingTids keys ((rel.pageAt leaf).dataItems.take cut) = [] := by
    apply matchingTids_eq_nil
    intro itup hitup
    apply hscan.not_satisfies_of_before hkeys _ (hbelow itup hitup)
    rw [hchain, leafTuples_append, leafTuples_cons, hused, if_neg Bool.false_ne_true]
    exact mem_append_right _ (mem_append_left _ (mem_of_mem_take hitup))
  have hall : matchingTids keys (rel.leafTuples (shape.chain 0)) =
      matchingTids keys ((rel.pageAt leaf).dataItems.drop cut) ++
        matchingTids keys (rel.leafTuples rest) := by
    rw [hchain, leafTuples_append, leafTuples_cons, hused,
      if_neg Bool.false_ne_true, matchingTids_append, matchingTids_append, hleft, nil_append]
    congr 1
    conv_lhs => rw [← take_append_drop cut (rel.pageAt leaf).dataItems]
    rw [matchingTids_append, hbefore, nil_append]
  rw [hall, hfirst]
  cases htids : matchingTids keys ((rel.pageAt leaf).dataItems.drop cut) with
  | nil =>
    obtain ⟨after, hstep, hstanding⟩ := hscan.steppage hkeys hbeyond hloaded
    refine ⟨{ scan with currPos := after, rdAmcache := some rel.metad }, ?_, hdata, hstanding⟩
    rw [nil_append]
    simp only [isEmpty_nil, Bool.not_true, false_eq_true, if_false, hstep, bind_eq_bind, bind_some]
    rw [fetched_eq _ hstanding]
  | cons tid tids =>
    rw [htids] at hloaded
    have hstanding : Standing rel shape keys pos
        (tid :: tids ++ matchingTids keys (rel.leafTuples rest)) :=
      ⟨rest, tid :: tids, 0, hbeyond, hloaded, hindex, Nat.succ_pos _, rfl⟩
    refine ⟨{ scan with currPos := pos, rdAmcache := some rel.metad }, ?_,
      hdata, fun _ => hstanding⟩
    rw [hstanding.head?]
    rfl

end

/-! ### Whole scans -/

def btgettuples (rel : BTRel D) (dir : ScanDirection) :
    ℕ → BTScan D → Option (List (Option ItemPointer))
  | 0, _ => some []
  | calls + 1, scan => do
      let (tid, scan) ← btgettuple rel dir scan
      let tids ← btgettuples rel dir calls scan
      some (tid :: tids)

section

variable [∀ attno, TransCmp (rel.cmpProc attno)]

theorem BTRel.Scannable.gettuples (hscan : rel.Scannable shape)
    (hkeys : ForwardKeys rel keys) (tids : List ItemPointer) (tid : ItemPointer)
    (scan : BTScan D) (hdata : scan.keyData = keys)
    (hpos : Standing rel shape keys scan.currPos (tid :: tids)) :
    btgettuples rel .forward (tids.length + 1) scan = some (tids.map some ++ [none]) := by
  induction tids generalizing tid scan with
  | nil =>
    obtain ⟨after, hcall, -⟩ := hscan.next hkeys hdata hpos
    rw [btgettuples, hcall]
    rfl
  | cons next tids ih =>
    obtain ⟨after, hcall, hkept, hstanding⟩ := hscan.next hkeys hdata hpos
    have hrest := ih next after hkept (hstanding (cons_ne_nil _ _))
    rw [btgettuples, hcall]
    simp only [bind_eq_bind, bind_some, length_cons, hrest]
    rfl

/-- A forward scan with an empty metapage cache returns the heap addresses of the
leaf tuples that satisfy all keys, in index order, and then no more. -/
theorem btgettuples_eq_matchingTids (hscan : rel.Scannable shape) (hkeys : ForwardKeys rel keys) :
    btgettuples rel .forward ((matchingTids keys (rel.leafTuples (shape.chain 0))).length + 1)
        (btrescan (btbeginscan keys.length none) (some keys)) =
      some ((matchingTids keys (rel.leafTuples (shape.chain 0))).map some ++ [none]) := by
  have hdata : (btrescan (btbeginscan keys.length none) (some keys)).keyData = keys := take_length
  obtain ⟨after, hcall, hkept, hstanding⟩ := hscan.first hkeys hdata rfl rfl
  rw [btgettuples, hcall]
  cases htids : matchingTids keys (rel.leafTuples (shape.chain 0)) with
  | nil => rfl
  | cons tid tids =>
    rw [htids] at hstanding
    have hrest := hscan.gettuples hkeys tids tid after hkept (hstanding (cons_ne_nil _ _))
    simp only [bind_eq_bind, bind_some, length_cons, hrest]
    rfl

end

def atLeast (value : ℕ) : BTScanKey ℕ where
  skAttno := 1
  skFunc := fun datum argument => (compare datum argument).isGE
  skArgument := value
  skFlags := 0
  skStrategy := .greaterEqual

theorem atLeast_forwardKeys (value : ℕ) : ForwardKeys twoLeaves [atLeast value] where
  sorted := pairwise_singleton _ _
  attnos := by
    intro key hkey
    rw [mem_singleton.mp hkey]
    exact ⟨le_refl 1, le_refl 1⟩
  consistent := by
    intro key hkey datum
    rw [mem_singleton.mp hkey]
    rfl
  bounded := ⟨atLeast value, mem_singleton_self _, rfl, rfl⟩
  required := by
    intro key hkey hrequired
    rw [mem_singleton.mp hkey] at hrequired
    exact absurd hrequired (by simp [BTScanKey.required, atLeast])

/-- The scan from 3 on goes over the half-dead page to the other leaf. -/
theorem btgettuples_twoLeaves :
    btgettuples twoLeaves .forward 4 (btrescan (btbeginscan 1 none) (some [atLeast 3])) =
      some [some ⟨3, 1⟩, some ⟨5, 1⟩, some ⟨7, 1⟩, none] :=
  @btgettuples_eq_matchingTids ℕ twoLeaves twoLeavesShape [atLeast 3] _
    (by decide) (atLeast_forwardKeys 3)

end Soda.Storpu
