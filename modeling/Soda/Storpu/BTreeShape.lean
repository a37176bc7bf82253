import Soda.Core.KeyOrder
import Soda.Storpu.BTree

/-!
# Well-formed B-trees

The pages of a well-formed tree lie on levels, each a chain of pages linked in
both directions.  High keys and the keys beside downlinks bound what lies to the
left.  Pages that are being removed may still be on their level.
-/

namespace Soda.Storpu

open KeyOrder List BTPage
open BTPage (pNone pHikey)
open Std (TransCmp OrientedCmp)

variable {D : Type}

/-! ### The order of tuples -/

/-- A missing heap address is below all others. -/
def compareTids : Option ItemPointer → Option ItemPointer → Ordering
  | none, none => .eq
  | none, some _ => .lt
  | some _, none => .gt
  | some left, some right => itemPointerCompare left right

def BTRel.TupleLe (rel : BTRel D) (left right : IndexTuple D) : Prop :=
  (compareKeys rel.cmpProc 1 left.attrs right.attrs).then
    (compareTids left.getHeapTID right.getHeapTID) ≠ .gt

instance (rel : BTRel D) (left right : IndexTuple D) :
    Decidable (rel.TupleLe left right) :=
  inferInstanceAs (Decidable (_ ≠ _))

def BTRel.Complete (rel : BTRel D) (itup : IndexTuple D) : Prop :=
  itup.attrs.length = itup.getNAtts rel.natts

instance (rel : BTRel D) (itup : IndexTuple D) : Decidable (rel.Complete itup) :=
  inferInstanceAs (Decidable (_ = _))

/-- The keys are for consecutive attributes, from attribute `n` on. -/
def InOrder : ℕ → List (InsertKey D) → Prop
  | _, [] => True
  | n, scankey :: scankeys => scankey.skAttno = n ∧ InOrder (n + 1) scankeys

/-- A search key has values for the first attributes and no heap address. -/
structure BTScanInsert.Plain (key : BTScanInsert D) : Prop where
  inOrder : InOrder 1 key.scankeys
  scantid : key.scantid = none

def BTRel.before (rel : BTRel D) (key : BTScanInsert D) (itup : IndexTuple D) : Bool :=
  key.passes (btCompareTuple rel key itup)

/-! ### Comparing as a prefix -/

/-- The result where a tuple starts with the values of a search key. -/
def finish (key : BTScanInsert D) (itup : IndexTuple D) (ended : Bool) : Ordering :=
  if key.heapkeyspace && !key.pivotsearch && ended && itup.getHeapTID.isNone then
    .gt
  else .eq

section

variable {rel : BTRel D} [∀ attno, TransCmp (rel.cmpProc attno)]

omit [∀ attno, TransCmp (rel.cmpProc attno)] in
theorem IndexTuple.getattr_append {itup : IndexTuple D} {attno : ℕ}
    {front attrs : List (Option D)} {attr : Option D} (hattrs : itup.attrs = front ++ attr :: attrs)
    (hattno : attno = front.length + 1) : itup.getattr attno = attr := by
  rw [getattr, hattrs, hattno]
  simp

variable (rel) in
theorem btCompareKeys_eq (itup : IndexTuple D) (last : Bool → Ordering)
    (scankeys : List (InsertKey D)) (n : ℕ) (front attrs : List (Option D))
    (horder : InOrder (n + 1) scankeys) (hattrs : itup.attrs = front ++ attrs)
    (hfront : front.length = n) :
    (match btCompareKeys rel itup (scankeys.take attrs.length) with
      | .eq =>
        if scankeys.length > attrs.length then .gt
        else last (scankeys.length == attrs.length)
      | result => result) =
      compareArgs rel.cmpProc last (n + 1) (scankeys.map InsertKey.skArgument) attrs := by
  induction scankeys generalizing n front attrs with
  | nil =>
    rw [take_nil, btCompareKeys, map_nil, compareArgs]
    cases attrs <;> rfl
  | cons scankey scankeys ih =>
    cases attrs with
    | nil => simp [btCompareKeys, compareArgs]
    | cons attr attrs =>
      have hget : itup.getattr scankey.skAttno = attr :=
        IndexTuple.getattr_append hattrs (by rw [horder.1, hfront])
      have hrest := ih (n + 1) (front ++ [attr]) attrs horder.2
        (by rw [hattrs, append_assoc]; rfl) (by simp [hfront])
      rw [length_cons, take_succ_cons, btCompareKeys, hget,
        horder.1, map_cons, compareArgs, ← hrest, length_cons]
      cases attr with
      | none => rfl
      | some datum =>
        have hswap : (rel.cmpProc (n + 1) datum scankey.skArgument).swap =
            rel.cmpProc (n + 1) scankey.skArgument datum :=
          OrientedCmp.eq_swap.symm
        dsimp only
        rw [hswap, compareNull]
        cases rel.cmpProc (n + 1) scankey.skArgument datum with
        | lt | gt => rfl
        | eq =>
          have hlengths : (scankeys.length + 1 == attrs.length + 1) =
              (scankeys.length == attrs.length) := by
            simp
          dsimp only [Ordering.then]
          rw [hlengths]
          simp only [gt_iff_lt, add_lt_add_iff_right]

variable {key : BTScanInsert D}

theorem btCompareTuple_eq (hkey : key.Plain) {itup : IndexTuple D} (hcomplete : rel.Complete itup) :
    btCompareTuple rel key itup = compareArgs rel.cmpProc (finish key itup) 1
        (key.scankeys.map InsertKey.skArgument) itup.attrs := by
  have hkeys := btCompareKeys_eq rel itup (finish key itup) key.scankeys 0 []
    itup.attrs hkey.inOrder rfl rfl
  have htake : key.scankeys.take (min key.scankeys.length itup.attrs.length) =
      key.scankeys.take itup.attrs.length := by
    rw [take_eq_take_iff]
    omega
  rw [← hkeys, btCompareTuple, ← hcomplete, hkey.scantid]
  dsimp only
  rw [htake]
  rfl

theorem finish_atMost {left right : IndexTuple D}
    (htids : compareTids left.getHeapTID right.getHeapTID ≠ .gt) :
    AtMost (finish key right true) (finish key left true) := by
  cases hright : right.getHeapTID with
  | some tid =>
    have heq : finish key right true = .eq := by
      rw [finish, hright]
      simp
    rw [heq, finish]
    split
    · exact atMost_gt _
    · exact AtMost.refl _
  | none =>
    have hleft : left.getHeapTID = none := by
      rw [hright] at htids
      cases htid : left.getHeapTID with
      | none => rfl
      | some tid =>
        rw [htid] at htids
        exact absurd rfl htids
    rw [finish, finish, hleft, hright]
    exact AtMost.refl _

/-- A larger tuple does not compare as greater. -/
theorem btCompareTuple_atMost (hkey : key.Plain) {left right : IndexTuple D}
    (hleft : rel.Complete left) (hright : rel.Complete right) (hle : rel.TupleLe left right) :
    AtMost (btCompareTuple rel key right) (btCompareTuple rel key left) := by
  rw [btCompareTuple_eq hkey hleft, btCompareTuple_eq hkey hright]
  have hfalse : ∀ itup, finish key itup false = .eq := by
    intro itup
    simp [finish]
  rw [BTRel.TupleLe] at hle
  apply compareArgs_atMost
  · rw [hfalse, hfalse]
    exact AtMost.refl _
  · rw [hfalse, finish]
    split
    · exact atMost_gt _
    · exact AtMost.refl _
  · intro hgt
    rw [hgt] at hle
    exact hle rfl
  · intro heq
    rw [heq] at hle
    exact finish_atMost hle

/-- Tuples below one that a search passes over are passed over too. -/
theorem before_of_tupleLe (hkey : key.Plain) {left right : IndexTuple D}
    (hleft : rel.Complete left) (hright : rel.Complete right)
    (hle : rel.TupleLe left right) (hbefore : rel.before key right = true) :
    rel.before key left = true := by
  have hatMost := btCompareTuple_atMost hkey hleft hright hle
  rw [BTRel.before, BTScanInsert.passes, reachesCmpval] at hbefore ⊢
  cases hnext : key.nextkey with
  | false =>
    rw [hnext, if_neg Bool.false_ne_true, Ordering.isGT_iff_eq_gt] at hbefore
    rw [if_neg Bool.false_ne_true, hatMost.1 hbefore]
    rfl
  | true =>
    rw [hnext, if_pos rfl, Ordering.isGE_iff_ne_lt] at hbefore
    rw [if_pos rfl, Ordering.isGE_iff_ne_lt]
    exact hatMost.2 hbefore

end

/-! ### Pages and their places -/

namespace BTPage

variable (page : BTPage D)

/-- The high key of a page, which a rightmost page does not have. -/
def hikey : Option (IndexTuple D) :=
  if page.rightmost then none else page.items.head?

def dataItems : List (IndexTuple D) :=
  if page.rightmost then page.items else page.items.tail

theorem item_firstDataKey_add (place : ℕ) :
    page.item (page.firstDataKey + place) = page.dataItems[place]? := by
  rw [item, firstDataKey, dataItems]
  cases page.rightmost with
  | true =>
    simp only [if_true, pHikey]
    rw [if_neg (by omega), Nat.add_sub_cancel_left]
  | false =>
    simp only [Bool.false_eq_true, if_false, pFirstkey]
    rw [if_neg (by omega), getElem?_tail]
    congr 1
    omega

theorem maxOffsetNumber_add_one (hitems : page.rightmost = true ∨ page.items ≠ []) :
    page.maxOffsetNumber + 1 = page.firstDataKey + page.dataItems.length := by
  rw [maxOffsetNumber, firstDataKey, dataItems]
  cases hright : page.rightmost with
  | true =>
    simp only [if_true, pHikey]
    omega
  | false =>
    have hpos : 0 < page.items.length := by
      rw [hright] at hitems
      exact length_pos_of_ne_nil (hitems.resolve_left (by simp))
    simp only [Bool.false_eq_true, if_false, pFirstkey, length_tail]
    omega

variable {page : BTPage D}

theorem exists_hikey (hright : page.rightmost = false) (hitems : page.items ≠ []) :
    ∃ first ∈ page.items, page.hikey = some first := by
  obtain ⟨first, rest, hcons⟩ := exists_cons_of_ne_nil hitems
  refine ⟨first, by rw [hcons]; simp, ?_⟩
  rw [hikey, hright, hcons]
  rfl

theorem mem_items_of_mem_dataItems {itup : IndexTuple D}
    (hitup : itup ∈ page.dataItems) : itup ∈ page.items := by
  rw [dataItems] at hitup
  split at hitup
  · exact hitup
  · exact mem_of_mem_tail hitup

theorem mem_items_of_hikey {itup : IndexTuple D}
    (hitup : page.hikey = some itup) : itup ∈ page.items := by
  rw [hikey] at hitup
  split at hitup
  · exact absurd hitup (by simp)
  · exact mem_of_mem_head? hitup

theorem item_pHikey (page : BTPage D) (hright : page.rightmost = false) :
    page.item pHikey = page.hikey := by
  rw [item, hikey, hright, if_neg (by decide), head?_eq_getElem?]
  rfl

end BTPage

def BTRel.pageAt (rel : BTRel D) (blkno : ℕ) : BTPage D :=
  rel.pages.getD blkno ⟨pNone, pNone, 0, []⟩

def BTRel.bufferAt (rel : BTRel D) (blkno : ℕ) : BTBuffer D := ⟨blkno, rel.pageAt blkno⟩

theorem BTRel.readBuffer_eq (rel : BTRel D) {blkno : ℕ} (hblkno : blkno < rel.pages.length) :
    rel.readBuffer blkno = some (rel.bufferAt blkno) := by
  rw [readBuffer, bufferAt, pageAt, getD_eq_getElem?_getD, getElem?_eq_getElem hblkno]
  rfl

def leftOf (chain : List ℕ) (blkno : ℕ) : List ℕ := chain.takeWhile fun other => other != blkno

variable {front rest : List ℕ} {blkno prev : ℕ} {rel : BTRel D}

theorem leftOf_append (hfront : blkno ∉ front) : leftOf (front ++ blkno :: rest) blkno = front := by
  have hall : ∀ other ∈ front, (other != blkno) = true := by
    intro other hother
    exact bne_iff_ne.mpr fun heq => hfront (heq ▸ hother)
  rw [leftOf, takeWhile_append_of_pos hall, takeWhile_cons_of_neg]
  · exact append_nil front
  · simp

theorem exists_leftOf_append {chain : List ℕ} (hblkno : blkno ∈ chain) :
    ∃ rest, chain = leftOf chain blkno ++ blkno :: rest := by
  obtain ⟨front, rest, hsplit, hfront⟩ := eq_append_cons_of_mem hblkno
  refine ⟨rest, ?_⟩
  rw [hsplit, leftOf_append hfront]

/-- Where the pages of a tree are: the blocks of each level from left to right,
the leaf level first.  Dying pages are on the way out of the tree: those to be
ignored, and the inner pages above them that no downlink leads to any more. -/
structure BTShape where
  levels : List (List ℕ)
  dying : List ℕ

def BTShape.chain (shape : BTShape) (level : ℕ) : List ℕ := shape.levels.getD level []

/-- The blocks are linked in both directions; `prev` is left of them. -/
def BTRel.Linked (rel : BTRel D) : ℕ → List ℕ → Prop
  | _, [] => True
  | prev, blkno :: chain =>
    (rel.pageAt blkno).btpoPrev = prev ∧ (rel.pageAt blkno).btpoNext = chain.headD pNone ∧
        rel.Linked blkno chain

instance BTRel.decidableLinked (rel : BTRel D) :
    ∀ prev chain, Decidable (rel.Linked prev chain)
  | _, [] => .isTrue trivial
  | _, blkno :: chain =>
    have := rel.decidableLinked blkno chain
    inferInstanceAs (Decidable (_ ∧ _ ∧ _))

theorem BTRel.Linked.of_append {chain : List ℕ} (hlinked : rel.Linked prev (front ++ chain)) :
    ∃ prev, rel.Linked prev chain := by
  induction front generalizing prev with
  | nil => exact ⟨prev, hlinked⟩
  | cons blkno front ih => exact ih hlinked.2.2

/-- Only the last page of a chain is rightmost. -/
theorem BTRel.Linked.not_rightmost (left : ℕ) (hlinked : rel.Linked prev (front ++ blkno :: rest))
    (hnone : ∀ other ∈ front ++ blkno :: rest, other ≠ pNone)
    (hleft : left ∈ front) : (rel.pageAt left).rightmost = false := by
  induction front generalizing prev with
  | nil => exact absurd hleft (by simp)
  | cons head front ih =>
    rcases mem_cons.mp hleft with rfl | hmem
    · rw [rightmost, hlinked.2.1, beq_eq_false_iff_ne]
      cases front with
      | nil => exact hnone blkno (by simp)
      | cons next front => exact hnone next (by simp)
    · exact ih hlinked.2.2 (fun other hother => hnone other (.tail _ hother)) hmem

/-- Only the first page of a chain is leftmost. -/
theorem BTRel.Linked.eq_nil_of_leftmost (hlinked : rel.Linked prev (front ++ blkno :: rest))
    (hnone : ∀ other ∈ front, other ≠ pNone)
    (hleftmost : (rel.pageAt blkno).leftmost = true) : front = [] := by
  induction front generalizing prev with
  | nil => rfl
  | cons head front ih =>
    have hfront := ih hlinked.2.2 fun other hother => hnone other (.tail _ hother)
    rw [hfront] at hlinked
    have hprev : (rel.pageAt blkno).btpoPrev = head := hlinked.2.2.1
    rw [leftmost, hprev, beq_iff_eq] at hleftmost
    exact absurd hleftmost (hnone head mem_cons_self)

def BTRel.EndsBy (rel : BTRel D) (blkno : ℕ) (sep : IndexTuple D) : Prop :=
  ∀ hikey ∈ (rel.pageAt blkno).hikey, rel.TupleLe hikey sep

instance (rel : BTRel D) (blkno : ℕ) (sep : IndexTuple D) :
    Decidable (rel.EndsBy blkno sep) :=
  inferInstanceAs (Decidable (∀ _ ∈ _, _))

/-- A level of a tree is a chain whose last page is in use. -/
@[mk_iff]
structure BTRel.Level (rel : BTRel D) (chain : List ℕ) : Prop where
  linked : rel.Linked pNone chain
  last : ∀ blkno ∈ chain.getLast?, (rel.pageAt blkno).ignore = false
  nonempty : chain ≠ []

instance (rel : BTRel D) (chain : List ℕ) : Decidable (rel.Level chain) :=
  decidable_of_iff' _ (rel.level_iff chain)

/-- An inner page on the level `chain` above `lower`.  Pages left of a child end
by the key beside the downlink.  The first downlink has no key, and pages left
of that child end where some page left of this one does. -/
@[mk_iff]
structure BTRel.Inner (rel : BTRel D) (dying chain lower : List ℕ) (blkno : ℕ) : Prop where
  nonempty : (rel.pageAt blkno).dataItems ≠ []
  sorted : (rel.pageAt blkno).dataItems.tail.Pairwise rel.TupleLe
  downlinks : ∀ itup ∈ (rel.pageAt blkno).dataItems, itup.getDownLink ∈ lower
  first : ∀ itup ∈ (rel.pageAt blkno).dataItems.head?,
    ∀ left ∈ leftOf lower itup.getDownLink, left ∈ dying ∨
      ∃ other ∈ leftOf chain blkno, other ∉ dying ∧
        ∃ hikey ∈ (rel.pageAt other).hikey, rel.EndsBy left hikey
  others : ∀ itup ∈ (rel.pageAt blkno).dataItems.tail, ∀ left ∈ leftOf lower itup.getDownLink,
      left ∈ dying ∨ rel.EndsBy left itup

instance (rel : BTRel D) (dying chain lower : List ℕ) (blkno : ℕ) :
    Decidable (rel.Inner dying chain lower blkno) :=
  decidable_of_iff' _ (rel.inner_iff dying chain lower blkno)

/-- A well-formed tree of this shape.  Blocks that are not on a level are
deleted pages.  The pages left of the fast root, if there are any, are dying. -/
@[mk_iff]
structure BTRel.WellFormed (rel : BTRel D) (shape : BTShape) : Prop where
  metapage : ∃ page ∈ rel.pages[0]?, page.btpoPrev = pNone ∧
    page.btpoNext = pNone ∧ page.btpoFlags = btpMeta ∧ page.items.isEmpty = true
  nodup : shape.levels.flatten.Nodup
  inFile : ∀ blkno ∈ shape.levels.flatten, blkno ≠ pNone ∧ blkno < rel.pages.length
  unused : ∀ blkno < rel.pages.length, blkno ≠ 0 →
    blkno ∉ shape.levels.flatten → (rel.pageAt blkno).ignore = true
  level : ∀ chain ∈ shape.levels, rel.Level chain
  ignored : ∀ blkno ∈ shape.levels.flatten, (rel.pageAt blkno).ignore = true → blkno ∈ shape.dying
  leaves : ∀ blkno ∈ shape.chain 0, blkno ∈ shape.dying → (rel.pageAt blkno).ignore = true
  flags : ∀ level < shape.levels.length, ∀ blkno ∈ shape.chain level,
    (rel.pageAt blkno).ignore = false → (rel.pageAt blkno).isLeaf = (level == 0)
  items : ∀ blkno ∈ shape.levels.flatten, (rel.pageAt blkno).ignore = false →
    ((rel.pageAt blkno).rightmost = true ∨ (rel.pageAt blkno).items ≠ []) ∧
      ∀ itup ∈ (rel.pageAt blkno).items, rel.Complete itup
  inner : ∀ level < shape.levels.length - 1, ∀ blkno ∈ shape.chain (level + 1),
      (rel.pageAt blkno).ignore = false →
        rel.Inner shape.dying (shape.chain (level + 1)) (shape.chain level) blkno
  empty : rel.metad.btmRoot = pNone → shape.levels = []
  fastroot : rel.metad.btmRoot ≠ pNone → rel.metad.btmFastlevel < shape.levels.length ∧
      rel.metad.btmFastroot ∈ shape.chain rel.metad.btmFastlevel ∧
      ∀ left ∈ leftOf (shape.chain rel.metad.btmFastlevel) rel.metad.btmFastroot, left ∈ shape.dying

set_option synthInstance.maxSize 400 in
instance (rel : BTRel D) (shape : BTShape) :
    Decidable (rel.WellFormed shape) :=
  decidable_of_iff' _ (rel.wellFormed_iff shape)

/-! ### A small tree -/

def entry (value : ℕ) : IndexTuple ℕ := ⟨⟨value, 1⟩, 0, [some value], ⟨0, 0⟩⟩

/-- A pivot tuple with the values that are left of its key. -/
def pivot (child : ℕ) (values : List ℕ) : IndexTuple ℕ :=
  ⟨⟨child, values.length⟩, 0x2000, values.map some, ⟨0, 0⟩⟩

def metapage : BTPage ℕ := ⟨pNone, pNone, btpMeta, []⟩

/-- Two leaves under a root in block 3, with a half-dead page between them. -/
def twoLeaves : BTRel ℕ where
  natts := 1
  cmpProc := fun _ => compare
  metad := ⟨3, 3, 1⟩
  pages :=
    [metapage, ⟨pNone, 4, btpLeaf, [pivot 0 [5], entry 1, entry 3]⟩,
      ⟨4, pNone, btpLeaf, [entry 5, entry 7]⟩, ⟨pNone, pNone, 0, [pivot 1 [], pivot 2 [5]]⟩,
      ⟨1, 2, btpLeaf ||| btpHalfDead, [pivot 0 []]⟩]

instance (attno : ℕ) : TransCmp (twoLeaves.cmpProc attno) := inferInstanceAs (TransCmp compare)

def twoLeavesShape : BTShape where
  levels := [[1, 4, 2], [3]]
  dying := [4]

theorem twoLeaves_wellFormed : twoLeaves.WellFormed twoLeavesShape := by
  decide

def searchFor (value : ℕ) : BTScanInsert ℕ := ⟨true, false, false, none, [⟨1, value⟩]⟩

theorem searchFor_plain (value : ℕ) : (searchFor value).Plain := ⟨⟨rfl, trivial⟩, rfl⟩

/-! ### How many pages there are -/

section

variable {rel : BTRel D} {shape : BTShape}

theorem length_lt_of_nodup {blocks : List ℕ} {bound : ℕ} (hnodup : blocks.Nodup) (hfile : 0 < bound)
    (hblocks : ∀ blkno ∈ blocks, blkno ≠ pNone ∧ blkno < bound) : blocks.length < bound := by
  have hcons : (pNone :: blocks).Nodup := by
    rw [nodup_cons]
    exact ⟨fun hmem => (hblocks pNone hmem).1 rfl, hnodup⟩
  have hsub : pNone :: blocks ⊆ range bound := by
    intro blkno hblkno
    rw [mem_range]
    rcases mem_cons.mp hblkno with rfl | hmem
    · exact hfile
    · exact (hblocks blkno hmem).2
  have hle := (subperm_of_subset hcons hsub).length_le
  rw [length_cons, length_range] at hle
  exact hle

theorem BTShape.chain_mem {level : ℕ} (hlevel : level < shape.levels.length) :
    shape.chain level ∈ shape.levels := by
  rw [chain, getD_eq_getElem?_getD, getElem?_eq_getElem hlevel]
  exact getElem_mem hlevel

theorem length_le_flatten {levels : List (List ℕ)} (hnonempty : ∀ chain ∈ levels, chain ≠ []) :
    levels.length ≤ levels.flatten.length := by
  induction levels with
  | nil => exact le_rfl
  | cons chain levels ih =>
    have hrest := ih fun other hother => hnonempty other (.tail _ hother)
    have hpos := length_pos_of_ne_nil (hnonempty chain mem_cons_self)
    rw [flatten_cons, length_append, length_cons]
    omega

variable (hwf : rel.WellFormed shape)
include hwf

theorem BTRel.WellFormed.pages_pos : 0 < rel.pages.length := by
  obtain ⟨page, hpage, -⟩ := hwf.metapage
  exact (List.getElem?_eq_some_iff.mp hpage).1

theorem BTRel.WellFormed.chain_nodup
    {chain : List ℕ} (hchain : chain ∈ shape.levels) : chain.Nodup :=
  (nodup_flatten.mp hwf.nodup).1 chain hchain

theorem BTRel.WellFormed.chain_length_lt
    {chain : List ℕ} (hchain : chain ∈ shape.levels) : chain.length < rel.pages.length := by
  apply length_lt_of_nodup (hwf.chain_nodup hchain) hwf.pages_pos
  intro blkno hblkno
  exact hwf.inFile blkno (mem_flatten.mpr ⟨chain, hchain, hblkno⟩)

theorem BTRel.WellFormed.levels_length_lt : shape.levels.length < rel.pages.length :=
  lt_of_le_of_lt (length_le_flatten fun chain hchain => (hwf.level chain hchain).nonempty)
    (length_lt_of_nodup hwf.nodup hwf.pages_pos hwf.inFile)

end

end Soda.Storpu
