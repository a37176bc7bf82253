import Soda.Storpu.BTreeShape

/-!
# Searches end on one leaf

On a well-formed tree the descent ends on the first leaf page that the key does
not pass over, from any page that has nothing on its left but what the key
passes over.
-/

namespace Soda.Storpu

open KeyOrder List Option Bool BTPage BTRel
open BTPage (pNone pHikey)
open Std (TransCmp)

variable {D : Type} {rel : BTRel D} {shape : BTShape} {key : BTScanInsert D}

def BTRel.passed (rel : BTRel D) (key : BTScanInsert D) (blkno : ℕ) : Bool :=
  !(rel.pageAt blkno).rightmost && ((rel.pageAt blkno).ignore ||
      (rel.pageAt blkno).hikey.any (rel.before key))

def BTShape.leafFor (shape : BTShape) (rel : BTRel D) (key : BTScanInsert D) : Option ℕ :=
  (shape.chain 0).find? fun blkno => !rel.passed key blkno

/-! ### Moving right -/

variable {page : BTPage D} {blkno : ℕ}

theorem btCompare_pHikey (hright : page.rightmost = false) :
    btCompare rel key page pHikey = page.hikey.map (btCompareTuple rel key) := by
  have hfirst : (pHikey == page.firstDataKey) = false := by
    rw [firstDataKey, hright]
    rfl
  rw [btCompare, hfirst, Bool.and_false, if_neg Bool.false_ne_true, page.item_pHikey hright]

theorem btStepsRight_eq
    (hitems : (rel.pageAt blkno).ignore = true ∨
      (rel.pageAt blkno).rightmost = true ∨ (rel.pageAt blkno).items ≠ []) :
    btStepsRight rel key (rel.pageAt blkno) = some (rel.passed key blkno) := by
  rw [btStepsRight, passed]
  cases hright : (rel.pageAt blkno).rightmost with
  | true => rfl
  | false =>
    cases hignore : (rel.pageAt blkno).ignore with
    | true => rfl
    | false =>
      rw [hright, hignore] at hitems
      obtain ⟨hikey, -, hhikey⟩ := exists_hikey hright
        ((hitems.resolve_left (by simp)).resolve_left (by simp))
      rw [btCompare_pHikey hright, hhikey]
      rfl

theorem BTRel.WellFormed.stepsRight (hwf : rel.WellFormed shape) (key : BTScanInsert D) {blkno : ℕ}
    (hblkno : blkno ∈ shape.levels.flatten) :
    btStepsRight rel key (rel.pageAt blkno) = some (rel.passed key blkno) := by
  apply btStepsRight_eq
  cases hignore : (rel.pageAt blkno).ignore with
  | true => exact .inl rfl
  | false => exact .inr (hwf.items blkno hblkno hignore).1

/-- Moving right along the rest of a level stops at the first page that is not
passed over. -/
theorem btMoveright_eq (hwf : rel.WellFormed shape) (key : BTScanInsert D)
    (prev blkno : ℕ) (chain : List ℕ) (fuel : ℕ) (hlinked : rel.Linked prev (blkno :: chain))
    (hmem : ∀ other ∈ blkno :: chain, other ∈ shape.levels.flatten) (hfuel : chain.length < fuel) :
    ∃ front found rest, blkno :: chain = front ++ found :: rest ∧
      (∀ other ∈ front, rel.passed key other = true) ∧ rel.passed key found = false ∧
          btMoveright rel key fuel (rel.bufferAt blkno) = some (rel.bufferAt found) := by
  induction chain generalizing prev blkno fuel with
  | nil =>
    obtain ⟨fuel, rfl⟩ := Nat.exists_eq_succ_of_ne_zero (Nat.ne_of_gt hfuel)
    have hright : (rel.pageAt blkno).rightmost = true := by
      rw [rightmost, hlinked.2.1]
      rfl
    have hstop : rel.passed key blkno = false := by
      rw [passed, hright]
      rfl
    refine ⟨[], blkno, [], rfl, by simp, hstop, ?_⟩
    rw [btMoveright, bufferAt, hwf.stepsRight key (hmem blkno mem_cons_self), hstop]
    rfl
  | cons next chain ih =>
    obtain ⟨fuel, rfl⟩ := Nat.exists_eq_succ_of_ne_zero (Nat.ne_of_gt (Nat.zero_lt_of_lt hfuel))
    have hsteps := hwf.stepsRight key (hmem blkno mem_cons_self)
    cases hpassed : rel.passed key blkno with
    | false =>
      refine ⟨[], blkno, next :: chain, rfl, by simp, hpassed, ?_⟩
      rw [btMoveright, bufferAt, hsteps, hpassed]
      rfl
    | true =>
      have hnext : rel.readBuffer (rel.pageAt blkno).btpoNext = some (rel.bufferAt next) := by
        rw [hlinked.2.1]
        exact rel.readBuffer_eq (hwf.inFile next (hmem next (by simp))).2
      obtain ⟨front, found, rest, hsplit, hfront, hfound, hmove⟩ :=
        ih blkno next fuel hlinked.2.2 (fun other hother => hmem other (.tail _ hother))
          (Nat.lt_of_succ_lt_succ hfuel)
      refine ⟨blkno :: front, found, rest, ?_, ?_, hfound, ?_⟩
      · rw [hsplit, cons_append]
      · exact forall_mem_cons.mpr ⟨hpassed, hfront⟩
      · rw [btMoveright, bufferAt, hsteps, hpassed]
        simp only [bind_eq_bind, bind_some, if_true, hnext, hmove]

/-! ### Bisecting a page -/

/-- `_bt_binsrch` cuts the data items of a page into those below the key and the
others, by any test that agrees with the comparisons it makes. -/
theorem btBinsrch_eq (below : ℕ → Bool) (hitems : page.rightmost = true ∨ page.items ≠ [])
    (hdata : page.isLeaf = true ∨ page.dataItems ≠ []) (htest : ∀ place < page.dataItems.length,
      (btCompare rel key page (page.firstDataKey + place)).map key.passes = some (below place))
    (hclosed : ∀ place later, place ≤ later → later < page.dataItems.length →
      below later = true → below place = true) :
    ∃ cut, cut ≤ page.dataItems.length ∧ (∀ place < cut, below place = true) ∧
      (∀ place, cut ≤ place → place < page.dataItems.length → below place = false) ∧
      btBinsrch rel key page = some (if page.isLeaf then page.firstDataKey + cut
          else page.firstDataKey + cut - 1) := by
  have hmax := page.maxOffsetNumber_add_one hitems
  rw [btBinsrch]
  by_cases hempty : page.maxOffsetNumber < page.firstDataKey
  · have hlength : page.dataItems.length = 0 := by omega
    have hleaf : page.isLeaf = true :=
      hdata.resolve_right fun hne => hne (length_eq_zero_iff.mp hlength)
    refine ⟨0, by omega, by omega, by omega, ?_⟩
    rw [if_pos hempty, if_pos hleaf]
    rfl
  · rw [if_neg hempty, hmax]
    obtain ⟨cut, hcut, hlow, hhigh, hbelow, habove⟩ := bisect_eq_some
      (fun mid => (btCompare rel key page mid).map key.passes)
      (fun mid => below (mid - page.firstDataKey))
      (page.firstDataKey + page.dataItems.length - page.firstDataKey)
      page.firstDataKey (page.firstDataKey + page.dataItems.length) (by omega) (by omega) (by
        intro place hplace hless
        rw [← htest (place - page.firstDataKey) (by omega), Nat.add_sub_cancel' hplace])
      (by
        intro place later hplace hle hless
        exact hclosed _ _ (by omega) (by omega))
    refine ⟨cut - page.firstDataKey, by omega, ?_, ?_, ?_⟩
    · intro place hplace
      have hpass := hbelow (page.firstDataKey + place) (by omega) (by omega)
      rwa [Nat.add_sub_cancel_left] at hpass
    · intro place hplace hless
      have hfail := habove (page.firstDataKey + place) (by omega) (by omega)
      rwa [Nat.add_sub_cancel_left] at hfail
    · rw [hcut, Nat.add_sub_cancel' hlow]
      cases page.isLeaf <;> rfl

theorem BTScanInsert.passes_gt (key : BTScanInsert D) : key.passes .gt = true := by
  rw [passes]
  cases key.nextkey <;> rfl

theorem btCompare_data {place : ℕ} {itup : IndexTuple D} (hplace : page.isLeaf = true ∨ place ≠ 0)
    (hitup : page.dataItems[place]? = some itup) :
    (btCompare rel key page (page.firstDataKey + place)).map key.passes =
      some (rel.before key itup) := by
  have hfirst : (!page.isLeaf && page.firstDataKey + place == page.firstDataKey) = false := by
    rcases hplace with hleaf | hpos
    · rw [hleaf]
      rfl
    · rw [and_eq_false_iff, beq_eq_false_iff_ne]
      exact .inr (by omega)
  rw [btCompare, hfirst, if_neg Bool.false_ne_true, page.item_firstDataKey_add, hitup]
  rfl

section

variable [∀ attno, TransCmp (rel.cmpProc attno)]

/-- On an inner page the bisection finds the first downlink or one whose key is
below the search key. -/
theorem btBinsrch_inner (hkey : key.Plain) {page : BTPage D} (hleaf : page.isLeaf = false)
    (hitems : page.rightmost = true ∨ page.items ≠ []) (hdata : page.dataItems ≠ [])
    (hcomplete : ∀ itup ∈ page.dataItems, rel.Complete itup)
    (hsorted : page.dataItems.tail.Pairwise rel.TupleLe) :
    ∃ offnum itup, btBinsrch rel key page = some offnum ∧ page.item offnum = some itup ∧
        (page.dataItems.head? = some itup ∨
          itup ∈ page.dataItems.tail ∧ rel.before key itup = true) := by
  obtain ⟨first, others, hcons⟩ := exists_cons_of_ne_nil hdata
  rw [hcons] at hcomplete hsorted ⊢
  rw [tail_cons, pairwise_iff_getElem] at hsorted
  have hothers : ∀ place (hplace : place < others.length),
      page.dataItems[place + 1]? = some others[place] := by
    intro place hplace
    rw [hcons, getElem?_cons_succ, getElem?_eq_getElem hplace]
  obtain ⟨cut, hcut, hbelow, habove, hsearch⟩ :=
    @btBinsrch_eq D rel key page
      (fun place => place == 0 || page.dataItems[place]?.any (rel.before key)) hitems (.inr hdata)
      (by
        intro place hplace
        cases place with
        | zero => simp [btCompare, hleaf, key.passes_gt]
        | succ place =>
          have hlt : place < others.length := by
            rw [hcons, length_cons] at hplace
            omega
          rw [btCompare_data (.inr (by omega)) (hothers place hlt), hothers place hlt]
          rfl)
      (by
        intro place later hle hlater hpass
        rcases eq_or_lt_of_le hle with rfl | hless
        · exact hpass
        cases place with
        | zero => rfl
        | succ place =>
          obtain ⟨later, rfl⟩ := Nat.exists_eq_add_of_lt hless
          rw [hcons, length_cons] at hlater
          have hlt : place + 1 + later < others.length := by omega
          have hplace : place < others.length := by omega
          rw [hothers _ hlt] at hpass
          rw [hothers place hplace]
          exact before_of_tupleLe hkey (hcomplete _ (.tail _ (getElem_mem hplace)))
            (hcomplete _ (.tail _ (getElem_mem hlt))) (hsorted place _ hplace hlt (by omega)) hpass)
  rw [hleaf, if_neg Bool.false_ne_true] at hsearch
  rw [hcons, length_cons] at hcut
  cases cut with
  | zero =>
    have hfirst := habove 0 le_rfl (by rw [hcons]; simp)
    exact absurd hfirst (by simp)
  | succ cut =>
    rw [← Nat.add_assoc, Nat.add_sub_cancel] at hsearch
    cases cut with
    | zero =>
      refine ⟨_, first, hsearch, ?_, .inl rfl⟩
      rw [page.item_firstDataKey_add, hcons]
      rfl
    | succ cut =>
      have hlt : cut < others.length := by omega
      have hpass := hbelow (cut + 1) (Nat.lt_succ_self _)
      rw [hothers cut hlt] at hpass
      refine ⟨_, others[cut], hsearch, ?_, .inr ⟨?_, hpass⟩⟩
      · rw [page.item_firstDataKey_add, hothers cut hlt]
      · exact getElem_mem hlt

end

/-! ### Descending -/

/-- Nothing left of a page is what the search looks for. -/
def BTShape.Clear (shape : BTShape) (rel : BTRel D) (key : BTScanInsert D)
    (chain : List ℕ) (blkno : ℕ) : Prop :=
  ∀ left ∈ leftOf chain blkno, left ∈ shape.dying ∨ rel.passed key left = true

variable {found left level : ℕ}

theorem BTRel.WellFormed.mem_flatten
    (hlevel : level < shape.levels.length) (hblkno : blkno ∈ shape.chain level) :
    blkno ∈ shape.levels.flatten :=
  List.mem_flatten.mpr ⟨_, shape.chain_mem hlevel, hblkno⟩

/-- Going on to the right over pages that are passed over leaves nothing on the
left. -/
theorem BTShape.Clear.of_append {chain front rest after : List ℕ}
    (hnodup : chain.Nodup) (hclear : shape.Clear rel key chain blkno)
    (hsplit : chain = leftOf chain blkno ++ blkno :: rest)
    (hrest : blkno :: rest = front ++ found :: after) (hfront : ∀ other ∈ front,
      other ∈ shape.dying ∨ rel.passed key other = true) :
    found ∈ chain ∧ shape.Clear rel key chain found := by
  have hwhole : chain = (leftOf chain blkno ++ front) ++ found :: after := by
    rw [append_assoc, ← hrest, ← hsplit]
  have hmem : found ∈ chain := by
    rw [hwhole]
    simp
  have hleft : found ∉ leftOf chain blkno ++ front := by
    rw [hwhole] at hnodup
    exact fun hin => (nodup_append.mp hnodup).2.2 found hin found (by simp) rfl
  refine ⟨hmem, ?_⟩
  rw [Clear, hwhole, leftOf_append hleft]
  intro left hin
  rcases mem_append.mp hin with hbefore | hpassed
  · exact hclear left hbefore
  · exact hfront left hpassed

variable (hwf : rel.WellFormed shape)
include hwf

variable (hlevel : level < shape.levels.length)
include hlevel

theorem BTRel.WellFormed.not_rightmost

    (hblkno : blkno ∈ shape.chain level) (hleft : left ∈ leftOf (shape.chain level) blkno) :
    (rel.pageAt left).rightmost = false := by
  obtain ⟨rest, hsplit⟩ := exists_leftOf_append hblkno
  have hlinked := (hwf.level _ (shape.chain_mem hlevel)).linked
  rw [hsplit] at hlinked
  apply hlinked.not_rightmost left _ hleft
  intro other hother
  rw [← hsplit] at hother
  exact (hwf.inFile other (mem_flatten hlevel hother)).1

/-- The search stops only at pages that are in use. -/
theorem BTRel.WellFormed.not_ignore (hblkno : blkno ∈ shape.chain level)
    (hpassed : rel.passed key blkno = false) : (rel.pageAt blkno).ignore = false := by
  cases hright : (rel.pageAt blkno).rightmost with
  | false =>
    rw [passed, hright, Bool.not_false, Bool.true_and, Bool.or_eq_false_iff] at hpassed
    exact hpassed.1
  | true =>
    -- a rightmost page is the last of its level
    obtain ⟨rest, hsplit⟩ := exists_leftOf_append hblkno
    have hchain := hwf.level _ (shape.chain_mem hlevel)
    rw [hsplit] at hchain
    cases rest with
    | nil => exact hchain.last blkno (by simp)
    | cons next rest =>
      have hlinked := hchain.linked
      rw [append_cons] at hlinked hsplit
      have hnot := hlinked.not_rightmost blkno (fun other hother => (hwf.inFile other
          (mem_flatten hlevel (hsplit ▸ hother))).1) (by simp)
      rw [hright] at hnot
      exact absurd hnot (by simp)

/-- Moving right on a level from a page with nothing on its left. -/
theorem BTRel.WellFormed.moveright (hblkno : blkno ∈ shape.chain level)
    (hclear : shape.Clear rel key (shape.chain level) blkno) :
    ∃ found ∈ shape.chain level, btMoveright rel key rel.pages.length (rel.bufferAt blkno) =
        some (rel.bufferAt found) ∧
      rel.passed key found = false ∧ (rel.pageAt found).ignore = false ∧
        shape.Clear rel key (shape.chain level) found := by
  have hin := shape.chain_mem hlevel
  have hchain := hwf.level _ hin
  have hnodup := hwf.chain_nodup hin
  have hlength := hwf.chain_length_lt hin
  obtain ⟨rest, hsplit⟩ := exists_leftOf_append hblkno
  have hlinked := hchain.linked
  rw [hsplit] at hlinked
  obtain ⟨prev, hsuffix⟩ := hlinked.of_append
  obtain ⟨front, found, after, hrest, hfront, hfound, hmove⟩ :=
    btMoveright_eq hwf key prev blkno rest rel.pages.length hsuffix
      (fun other hother => mem_flatten hlevel (by
        rw [hsplit]
        exact mem_append_right _ hother))
      (by
        rw [hsplit, length_append, length_cons] at hlength
        omega)
  obtain ⟨hmem, hclear⟩ := hclear.of_append hnodup hsplit hrest
    fun other hother => .inr (hfront other hother)
  exact ⟨found, hmem, hmove, hfound, hwf.not_ignore hlevel hmem hfound, hclear⟩

omit hlevel

/-- A page that ends by a key below the search key is passed over. -/
theorem BTRel.WellFormed.passed_of_endsBy [∀ attno, TransCmp (rel.cmpProc attno)]
    (hkey : key.Plain) {sep : IndexTuple D}
    (hlevel : level < shape.levels.length) (hblkno : blkno ∈ shape.chain level)
    (hleft : left ∈ leftOf (shape.chain level) blkno)
    (hsep : rel.Complete sep) (hbefore : rel.before key sep = true)
    (hends : rel.EndsBy left sep) : rel.passed key left = true := by
  have hright := hwf.not_rightmost hlevel hblkno hleft
  have hmem : left ∈ shape.levels.flatten := mem_flatten hlevel (takeWhile_subset _ hleft)
  rw [passed, hright, Bool.not_false, Bool.true_and]
  cases hignore : (rel.pageAt left).ignore with
  | true => rfl
  | false =>
    obtain ⟨hitems, hcomplete⟩ := hwf.items left hmem hignore
    rw [hright] at hitems
    obtain ⟨hikey, hin, hhikey⟩ := exists_hikey hright (hitems.resolve_left (by simp))
    rw [hhikey]
    exact before_of_tupleLe hkey (hcomplete hikey hin) hsep (hends hikey hhikey) hbefore

/-- On the leaf level, pages with nothing on their left have only pages there
that are passed over. -/
theorem BTRel.WellFormed.passed_of_clear
    (hlevel : 0 < shape.levels.length) (hblkno : blkno ∈ shape.chain 0)
    (hclear : shape.Clear rel key (shape.chain 0) blkno) :
    ∀ left ∈ leftOf (shape.chain 0) blkno, rel.passed key left = true := by
  intro left hleft
  rcases hclear left hleft with hdying | hpassed
  · rw [passed, hwf.not_rightmost hlevel hblkno hleft,
      hwf.leaves left (takeWhile_subset _ hleft) hdying]
    rfl
  · exact hpassed

theorem BTRel.WellFormed.leafFor_eq
    (hlevel : 0 < shape.levels.length) (hfound : found ∈ shape.chain 0)
    (hstop : rel.passed key found = false) (hclear : shape.Clear rel key (shape.chain 0) found) :
    shape.leafFor rel key = some found := by
  obtain ⟨rest, hsplit⟩ := exists_leftOf_append hfound
  rw [BTShape.leafFor, find?_eq_some_iff_append]
  refine ⟨by rw [hstop]; rfl, leftOf (shape.chain 0) found, rest, hsplit, ?_⟩
  intro left hleft
  rw [hwf.passed_of_clear hlevel hfound hclear left hleft]
  rfl

omit hwf

section

variable [∀ attno, TransCmp (rel.cmpProc attno)]

/-- The child that is chosen on an inner page with nothing on its left has
nothing on its left either. -/
theorem BTRel.WellFormed.clear_child (hwf : rel.WellFormed shape)
    (hkey : key.Plain) {level blkno : ℕ} {itup : IndexTuple D}
    (hlevel : level + 1 < shape.levels.length) (hblkno : blkno ∈ shape.chain (level + 1))
    (hignore : (rel.pageAt blkno).ignore = false)
    (hclear : shape.Clear rel key (shape.chain (level + 1)) blkno)
    (hitup : (rel.pageAt blkno).dataItems.head? = some itup ∨
      itup ∈ (rel.pageAt blkno).dataItems.tail ∧ rel.before key itup = true) :
    itup.getDownLink ∈ shape.chain level ∧
      shape.Clear rel key (shape.chain level) itup.getDownLink := by
  have hlower : level < shape.levels.length := Nat.lt_of_succ_lt hlevel
  have hinner := hwf.inner level (by omega) blkno hblkno hignore
  have hcomplete := (hwf.items blkno (mem_flatten hlevel hblkno) hignore).2
  have hmem : itup ∈ (rel.pageAt blkno).dataItems := by
    rcases hitup with hhead | ⟨htail, -⟩
    · exact mem_of_mem_head? hhead
    · exact mem_of_mem_tail htail
  have hchild : itup.getDownLink ∈ shape.chain level := hinner.downlinks itup hmem
  refine ⟨hchild, fun left hleft => ?_⟩
  rcases hitup with hhead | ⟨htail, hbefore⟩
  · rcases hinner.first itup hhead left hleft with hdying | hends
    · exact .inl hdying
    · obtain ⟨other, hother, halive, hikey, hhikey, hends⟩ := hends
      have hpassed := (hclear other hother).resolve_left halive
      have hright := hwf.not_rightmost hlevel hblkno hother
      have hin : other ∈ shape.levels.flatten := mem_flatten hlevel (takeWhile_subset _ hother)
      have hused : (rel.pageAt other).ignore = false := by
        rw [eq_false_iff]
        exact fun hdead => halive (hwf.ignored other hin hdead)
      rw [passed, hright, hused, hhikey] at hpassed
      exact .inr (hwf.passed_of_endsBy hkey hlower hchild hleft ((hwf.items other hin hused).2 hikey
          (mem_items_of_hikey hhikey)) hpassed hends)
  · rcases hinner.others itup htail left hleft with hdying | hends
    · exact .inl hdying
    · exact .inr (hwf.passed_of_endsBy hkey hlower hchild hleft
        (hcomplete itup (mem_items_of_mem_dataItems hmem)) hbefore hends)

/-- From a page with nothing on its left the search descends to the leaf for the
key. -/
theorem BTRel.WellFormed.descend (hwf : rel.WellFormed shape)
    (hkey : key.Plain) (level fuel blkno : ℕ)
    (hlevel : level < shape.levels.length) (hfuel : level < fuel)
    (hblkno : blkno ∈ shape.chain level) (hclear : shape.Clear rel key (shape.chain level) blkno) :
    ∃ leaf, shape.leafFor rel key = some leaf ∧ btDescend rel key fuel (rel.bufferAt blkno) =
        some (rel.bufferAt leaf) := by
  induction level generalizing fuel blkno with
  | zero =>
    obtain ⟨fuel, rfl⟩ := Nat.exists_eq_succ_of_ne_zero (Nat.ne_of_gt hfuel)
    obtain ⟨found, hfound, hmove, hstop, hignore, hclear⟩ := hwf.moveright hlevel hblkno hclear
    have hleaf := hwf.flags 0 hlevel found hfound hignore
    refine ⟨found, hwf.leafFor_eq hlevel hfound hstop hclear, ?_⟩
    rw [btDescend, hmove]
    simp only [bind_eq_bind, bind_some, bufferAt, hleaf]
    rfl
  | succ level ih =>
    obtain ⟨fuel, rfl⟩ := Nat.exists_eq_succ_of_ne_zero (Nat.ne_of_gt (Nat.zero_lt_of_lt hfuel))
    have hlower : level < shape.levels.length := Nat.lt_of_succ_lt hlevel
    obtain ⟨found, hfound, hmove, hstop, hignore, hclear⟩ := hwf.moveright hlevel hblkno hclear
    have hmem := mem_flatten hlevel hfound
    have hleaf := hwf.flags (level + 1) hlevel found hfound hignore
    have hitems := hwf.items found hmem hignore
    have hinner := hwf.inner level (by omega) found hfound hignore
    obtain ⟨offnum, itup, hsearch, hitem, hchosen⟩ :=
      btBinsrch_inner hkey hleaf hitems.1 hinner.nonempty (fun itup hitup => hitems.2 itup
          (mem_items_of_mem_dataItems hitup)) hinner.sorted
    obtain ⟨hchild, hclear⟩ := hwf.clear_child hkey hlevel hfound hignore hclear hchosen
    have hread := rel.readBuffer_eq (hwf.inFile _ (mem_flatten hlower hchild)).2
    obtain ⟨leaf, htarget, hdescend⟩ :=
      ih fuel _ hlower (Nat.lt_of_succ_lt_succ hfuel) hchild hclear
    refine ⟨leaf, htarget, ?_⟩
    rw [btDescend, hmove]
    simp only [bind_eq_bind, bind_some, bufferAt, hleaf, hsearch, hitem]
    rw [hread]
    exact hdescend

end

/-! ### The root -/

variable (hwf : rel.WellFormed shape)
include hwf

/-- The first page in use on the rest of a level. -/
theorem btSkipIgnored_eq (prev blkno : ℕ) (chain : List ℕ) (fuel : ℕ)
    (hlinked : rel.Linked prev (blkno :: chain)) (hlast : ∀ last ∈ (blkno :: chain).getLast?,
      (rel.pageAt last).ignore = false)
    (hmem : ∀ other ∈ blkno :: chain, other ∈ shape.levels.flatten) (hfuel : chain.length < fuel) :
    ∃ front found rest, blkno :: chain = front ++ found :: rest ∧
      (∀ other ∈ front, (rel.pageAt other).ignore = true) ∧
        btSkipIgnored rel fuel blkno = some (rel.bufferAt found) := by
  induction chain generalizing prev blkno fuel with
  | nil =>
    obtain ⟨fuel, rfl⟩ := Nat.exists_eq_succ_of_ne_zero (Nat.ne_of_gt hfuel)
    refine ⟨[], blkno, [], rfl, by simp, ?_⟩
    rw [btSkipIgnored, rel.readBuffer_eq (hwf.inFile blkno (hmem blkno (by simp))).2]
    simp only [bind_eq_bind, bind_some, bufferAt, hlast blkno rfl]
    rfl
  | cons next chain ih =>
    obtain ⟨fuel, rfl⟩ := Nat.exists_eq_succ_of_ne_zero (Nat.ne_of_gt (Nat.zero_lt_of_lt hfuel))
    have hread := rel.readBuffer_eq (hwf.inFile blkno (hmem blkno (by simp))).2
    cases hignore : (rel.pageAt blkno).ignore with
    | false =>
      refine ⟨[], blkno, next :: chain, rfl, by simp, ?_⟩
      rw [btSkipIgnored, hread]
      simp only [bind_eq_bind, bind_some, bufferAt, hignore]
      rfl
    | true =>
      obtain ⟨front, found, rest, hsplit, hfront, hskip⟩ :=
        ih blkno next fuel hlinked.2.2 (by rwa [getLast?_cons_cons] at hlast)
          (fun other hother => hmem other (.tail _ hother)) (Nat.lt_of_succ_lt_succ hfuel)
      refine ⟨blkno :: front, found, rest, ?_, ?_, ?_⟩
      · rw [hsplit, cons_append]
      · exact forall_mem_cons.mpr ⟨hignore, hfront⟩
      · have hnext : (rel.pageAt blkno).btpoNext = next := hlinked.2.1
        rw [btSkipIgnored, hread]
        simp only [bind_eq_bind, bind_some, bufferAt,
          hignore, Bool.not_true, Bool.false_eq_true, if_false, hnext]
        exact hskip

/-- The root by the metapage: a page of the fast level with nothing on its
left. -/
theorem BTRel.WellFormed.getrootMeta (key : BTScanInsert D) (hroot : rel.metad.btmRoot ≠ pNone) :
    ∃ found ∈ shape.chain rel.metad.btmFastlevel,
      shape.Clear rel key (shape.chain rel.metad.btmFastlevel) found ∧ btGetrootMeta rel =
          some (some (rel.bufferAt found), some rel.metad) := by
  obtain ⟨hlevel, hfast, hleft⟩ := hwf.fastroot hroot
  have hin := shape.chain_mem hlevel
  have hchain := hwf.level _ hin
  have hlength := hwf.chain_length_lt hin
  have hnodup := hwf.chain_nodup hin
  obtain ⟨rest, hsplit⟩ := exists_leftOf_append hfast
  rw [hsplit] at hchain hlength
  obtain ⟨prev, hlinked⟩ := hchain.linked.of_append
  obtain ⟨front, found, after, hrest, hfront, hskip⟩ :=
    btSkipIgnored_eq hwf prev rel.metad.btmFastroot rest rel.pages.length hlinked
      (fun last hend => hchain.last last (by
        rw [getLast?_append]
        exact hend ▸ rfl))
      (fun other hother => mem_flatten hlevel (by
        rw [hsplit]
        exact mem_append_right _ hother))
      (by
        rw [length_append, length_cons] at hlength
        omega)
  obtain ⟨hfound, hclear⟩ := BTShape.Clear.of_append hnodup
    (fun left hin => .inl (hleft left hin)) hsplit hrest fun other hother => .inl (hwf.ignored other
      (mem_flatten hlevel (by rw [hsplit, hrest]; simp [hother])) (hfront other hother))
  refine ⟨found, hfound, hclear, ?_⟩
  rw [btGetrootMeta, rel.readBuffer_eq hwf.pages_pos]
  simp only [bind_eq_bind, bind_some, if_neg hroot, hskip]

theorem BTRel.WellFormed.getrootMeta_empty
    (hroot : rel.metad.btmRoot = pNone) : btGetrootMeta rel = some (none, none) := by
  rw [btGetrootMeta, rel.readBuffer_eq hwf.pages_pos]
  simp only [bind_eq_bind, bind_some, if_pos hroot]

theorem BTRel.WellFormed.search_empty
    (hroot : rel.metad.btmRoot = pNone) : btSearch rel key none = some (none, none) := by
  rw [btSearch, btGetroot, hwf.getrootMeta_empty hroot]
  rfl

section

variable [∀ attno, TransCmp (rel.cmpProc attno)]

/-- A search without a cached metapage. -/
theorem BTRel.WellFormed.search (hkey : key.Plain) (hroot : rel.metad.btmRoot ≠ pNone) :
    ∃ leaf, shape.leafFor rel key = some leaf ∧ btSearch rel key none =
        some (some (rel.bufferAt leaf), some rel.metad) := by
  obtain ⟨found, hfound, hclear, hget⟩ := hwf.getrootMeta key hroot
  have hlevel := (hwf.fastroot hroot).1
  obtain ⟨leaf, htarget, hdescend⟩ := hwf.descend hkey _ rel.pages.length
    found hlevel (lt_trans hlevel hwf.levels_length_lt) hfound hclear
  refine ⟨leaf, htarget, ?_⟩
  rw [btSearch, btGetroot, hget]
  simp only [bind_eq_bind, bind_some, hdescend]

end

end Soda.Storpu
