import Soda.Storpu.BTreeScan
import Soda.Storpu.BTreeShape

/-!
# Start keys

The keys that a forward scan starts at bound the matching tuples from below, and
a key that is required for the scan to go on fails only when no later tuple
matches.
-/

namespace Soda.Storpu

open KeyOrder List Option IndexTuple
open Std (TransCmp OrientedCmp)

variable {D : Type}

/-! ### Keys and tuples -/

/-- What the operator of a strategy says, by the comparison of an attribute with
the argument. -/
def BTStrategy.holds : BTStrategy → Ordering → Bool
  | .less, result => result.isLT
  | .lessEqual, result => result.isLE
  | .equal, result => result.isEq
  | .greaterEqual, result => result.isGE
  | .greater, result => result.isGT

def BTStrategy.bounds (strategy : BTStrategy) : Bool :=
  strategy = .equal ∨ strategy = .greaterEqual ∨ strategy = .greater

/-- The keys of a forward scan: in attribute order, with operators that agree
with the comparison functions, and with a lower bound for the first attribute.
A key that is flagged as required to continue the scan bounds its attribute from
above, and there is an equality for each attribute before it: that is what the
flag stands for.  Keys that arrive with 16-bit flags never have it. -/
structure ForwardKeys (rel : BTRel D) (keys : List (BTScanKey D)) : Prop where
  sorted : keys.Pairwise fun first second => first.skAttno ≤ second.skAttno
  attnos : ∀ key ∈ keys, 1 ≤ key.skAttno ∧ key.skAttno ≤ rel.natts
  consistent : ∀ key ∈ keys, ∀ datum, key.skFunc datum key.skArgument =
    key.skStrategy.holds (rel.cmpProc key.skAttno datum key.skArgument)
  bounded : ∃ key ∈ keys, key.skAttno = 1 ∧ key.skStrategy.bounds = true
  required : ∀ key ∈ keys, key.required .forward = true →
    (key.skStrategy = .less ∨ key.skStrategy = .lessEqual ∨ key.skStrategy = .equal) ∧
    ∀ attno, 1 ≤ attno → attno < key.skAttno →
      ∃ other ∈ keys, other.skAttno = attno ∧ other.skStrategy = .equal

def BTScanKey.accepts (key : BTScanKey D) (itup : IndexTuple D) : Bool :=
  (itup.getattr key.skAttno).any fun datum => key.skFunc datum key.skArgument

variable (keys : List (BTScanKey D))

def satisfies (itup : IndexTuple D) : Bool := keys.all fun key => key.accepts itup

/-! ### The choice -/

/-- Start keys from attribute `n` on: lower bounds of consecutive attributes, all
but the last of them not strict. -/
inductive Bounds (keys : List (BTScanKey D)) :
    ℕ → List (BTScanKey D) → Bool → Prop
  | nil (n : ℕ) : Bounds keys n [] false
  | strict {n : ℕ} {key : BTScanKey D} (hmem : key ∈ keys)
      (hattno : key.skAttno = n) (hstrategy : key.skStrategy = .greater) :
      Bounds keys n [key] true
  | cons {n : ℕ} {key : BTScanKey D} {rest : List (BTScanKey D)}
      {nextkey : Bool} (hmem : key ∈ keys) (hattno : key.skAttno = n)
      (hstrategy : key.skStrategy = .equal ∨ key.skStrategy = .greaterEqual)
      (hrest : Bounds keys (n + 1) rest nextkey) :
      Bounds keys n (key :: rest) nextkey

/-- What the loop returns: start keys from attribute `n` on, and a strategy that
starts at them or right after them. -/
def Starts (n : ℕ) (result : List (BTScanKey D) × BTStrategy) : Prop :=
  Bounds keys n result.1 (btNextkey .forward result.2) ∧ btGoback .forward result.2 = false

def Chosen (curattr : ℕ) (chosen : Option (BTScanKey D)) : Prop :=
  ∀ key ∈ chosen, key ∈ keys ∧ key.skAttno = curattr ∧ key.skStrategy.bounds = true

variable {keys : List (BTScanKey D)}

/-- In a forward scan an equality is always chosen, and another lower bound where
nothing is chosen yet. -/
theorem btConsider_forward (chosen : Option (BTScanKey D)) (cur : BTScanKey D) :
    btConsider .forward chosen cur = if cur.skStrategy = .equal ∨
          chosen = none ∧ cur.skStrategy.bounds = true then
        some cur
      else chosen := by
  rw [btConsider]
  cases hstrategy : cur.skStrategy <;> cases chosen <;>
    simp [BTStrategy.bounds]

theorem Chosen.consider {curattr : ℕ} {chosen : Option (BTScanKey D)}
    {cur : BTScanKey D} (hchosen : Chosen keys curattr chosen)
    (hmem : cur ∈ keys) (hattno : cur.skAttno = curattr) :
    Chosen keys curattr (btConsider .forward chosen cur) := by
  rw [btConsider_forward]
  split
  · next htaken =>
      intro key hkey
      cases hkey
      refine ⟨hmem, hattno, ?_⟩
      rcases htaken with hequal | ⟨-, hbounds⟩
      · rw [hequal]
        rfl
      · exact hbounds
  · exact hchosen

theorem chosen_none (curattr : ℕ) : Chosen keys curattr none := by
  intro key hkey
  exact absurd hkey (by simp)

def Mild (stratTotal : BTStrategy) : Prop := stratTotal = .equal ∨ stratTotal = .greaterEqual

theorem Mild.nextkey {stratTotal : BTStrategy} (hmild : Mild stratTotal) :
    btNextkey .forward stratTotal = false := by
  rcases hmild with rfl | rfl
  · rfl
  · rfl

theorem Mild.goback {stratTotal : BTStrategy} (hmild : Mild stratTotal) :
    btGoback .forward stratTotal = false := by
  rcases hmild with rfl | rfl
  · rfl
  · rfl

theorem BTStrategy.eq_of_bounds {strategy : BTStrategy} (hbounds : strategy.bounds = true) :
    strategy = .greater ∨ strategy = .equal ∨ strategy = .greaterEqual := by
  cases strategy <;> simp_all [bounds]

theorem Mild.stratTotal {stratTotal : BTStrategy} (hmild : Mild stratTotal) {chosen : BTScanKey D}
    (hstrategy : chosen.skStrategy = .equal ∨ chosen.skStrategy = .greaterEqual) :
    Mild (btStratTotal chosen stratTotal) := by
  rw [btStratTotal]
  rcases hstrategy with hequal | hgreater
  · rw [hequal, if_neg (by simp)]
    exact hmild
  · rw [hgreater, if_pos (by simp)]
    exact .inr rfl

theorem Mild.starts_nil {stratTotal : BTStrategy} (hmild : Mild stratTotal)
    (n : ℕ) : Starts keys n ([], stratTotal) := by
  refine ⟨?_, hmild.goback⟩
  rw [hmild.nextkey]
  exact .nil n

/-- The last key that is chosen. -/
theorem Mild.starts_singleton {stratTotal : BTStrategy}
    (hmild : Mild stratTotal) {curattr : ℕ} {chosen : BTScanKey D}
    (hchosen : Chosen keys curattr (some chosen)) :
    Starts keys curattr ([chosen], btStratTotal chosen stratTotal) := by
  obtain ⟨hmem, hattno, hbounds⟩ := hchosen chosen rfl
  rcases BTStrategy.eq_of_bounds hbounds with hstrict | hweak
  · rw [btStratTotal, hstrict, if_pos (by simp)]
    exact ⟨.strict hmem hattno hstrict, rfl⟩
  · have hmore := hmild.stratTotal hweak
    refine ⟨?_, hmore.goback⟩
    rw [hmore.nextkey]
    exact .cons hmem hattno hweak (.nil _)

theorem btStartKeys_cons (dir : ScanDirection) (cur : BTScanKey D)
    (rest : List (BTScanKey D)) (curattr : ℕ) (chosen : Option (BTScanKey D))
    (stratTotal : BTStrategy) :
    btStartKeys dir (cur :: rest) curattr chosen stratTotal = if cur.skAttno = curattr then
        btStartKeys dir rest curattr (btConsider dir chosen cur) stratTotal
      else
        match chosen with
        | none => ([], stratTotal)
        | some chosen =>
          if chosen.skStrategy = .greater ∨ chosen.skStrategy = .less ∨
              cur.skAttno ≠ curattr + 1 then
            ([chosen], btStratTotal chosen stratTotal)
          else
            let after := btStartKeys dir rest cur.skAttno
              (btConsider dir none cur) (btStratTotal chosen stratTotal)
            (chosen :: after.1, after.2) := by
  rfl

variable (rest : List (BTScanKey D))

/-- The loop chooses lower bounds of consecutive attributes. -/
theorem starts_btStartKeys (curattr : ℕ) (chosen : Option (BTScanKey D)) (stratTotal : BTStrategy)
    (hrest : ∀ key ∈ rest, key ∈ keys) (hchosen : Chosen keys curattr chosen)
    (hmild : Mild stratTotal) :
    Starts keys curattr (btStartKeys .forward rest curattr chosen stratTotal) := by
  induction rest generalizing curattr chosen stratTotal with
  | nil =>
    cases chosen with
    | none => exact hmild.starts_nil curattr
    | some chosen => exact hmild.starts_singleton hchosen
  | cons cur rest ih =>
    have hcur := hrest cur mem_cons_self
    have hlater : ∀ key ∈ rest, key ∈ keys := fun key hkey => hrest key (.tail _ hkey)
    rw [btStartKeys_cons]
    by_cases hattno : cur.skAttno = curattr
    · rw [if_pos hattno]
      exact ih _ _ _ hlater (hchosen.consider hcur hattno) hmild
    rw [if_neg hattno]
    cases chosen with
    | none => exact hmild.starts_nil curattr
    | some chosen =>
      dsimp only
      split
      · exact hmild.starts_singleton hchosen
      · next hgoes =>
          rw [not_or, not_or, not_not] at hgoes
          obtain ⟨hmem, hown, hbounds⟩ := hchosen chosen rfl
          have hweak := (BTStrategy.eq_of_bounds hbounds).resolve_left hgoes.1
          rw [hgoes.2.2]
          obtain ⟨hstarts, hgoback⟩ := ih _ _ _ hlater ((chosen_none _).consider hcur hgoes.2.2)
            (hmild.stratTotal hweak)
          exact ⟨.cons hmem hown hweak hstarts, hgoback⟩

/-- A lower bound of the current attribute makes the choice nonempty. -/
theorem btStartKeys_ne_nil (curattr : ℕ) (chosen : Option (BTScanKey D)) (stratTotal : BTStrategy)
    (hsorted : rest.Pairwise fun first second => first.skAttno ≤ second.skAttno)
    (hattnos : ∀ key ∈ rest, curattr ≤ key.skAttno)
    (hbounded : chosen ≠ none ∨ ∃ key ∈ rest, key.skAttno = curattr ∧
      key.skStrategy.bounds = true) :
    (btStartKeys .forward rest curattr chosen stratTotal).1 ≠ [] := by
  induction rest generalizing chosen with
  | nil =>
    cases chosen with
    | none => exact absurd hbounded (by simp)
    | some chosen => exact cons_ne_nil _ _
  | cons cur rest ih =>
    rw [pairwise_cons] at hsorted
    rw [btStartKeys_cons]
    by_cases hattno : cur.skAttno = curattr
    · rw [if_pos hattno]
      apply ih _ hsorted.2 fun key hkey => hattnos key (.tail _ hkey)
      rw [btConsider_forward]
      split
      · exact .inl (some_ne_none _)
      · next hleft =>
          rcases hbounded with hsome | ⟨key, hkey, hown, hbounds⟩
          · exact .inl hsome
          · rcases mem_cons.mp hkey with rfl | hin
            · refine .inl fun hnone => hleft (.inr ⟨hnone, hbounds⟩)
            · exact .inr ⟨key, hin, hown, hbounds⟩
    · rw [if_neg hattno]
      cases chosen with
      | some chosen =>
        dsimp only
        split
        · exact cons_ne_nil _ _
        · exact cons_ne_nil _ _
      | none =>
        -- keys of the current attribute would have come before this one
        obtain ⟨key, hkey, hown, -⟩ := hbounded.resolve_left (by simp)
        have hcur := hattnos cur mem_cons_self
        rcases mem_cons.mp hkey with rfl | hin
        · exact absurd hown hattno
        · have hle := hsorted.1 key hin
          omega

/-- There is an equality for each of `count` attributes from `curattr` on. -/
def Equalities (curattr count : ℕ) (chosen : Option (BTScanKey D)) : Prop :=
  ∀ attno, curattr ≤ attno → attno < curattr + count →
    (∃ key ∈ rest, key.skAttno = attno ∧ key.skStrategy = .equal) ∨
      attno = curattr ∧ ∃ key ∈ chosen, key.skStrategy = .equal

theorem Equalities.consider {cur : BTScanKey D} {rest : List (BTScanKey D)}
    {curattr count : ℕ} {chosen : Option (BTScanKey D)} (hattno : cur.skAttno = curattr)
    (hequal : Equalities (cur :: rest) curattr count chosen) :
    Equalities rest curattr count (btConsider .forward chosen cur) := by
  intro attno hfrom hto
  rw [btConsider_forward]
  rcases hequal attno hfrom hto with ⟨key, hkey, hown, hkind⟩ | ⟨hown, hkeep⟩
  · rcases mem_cons.mp hkey with rfl | hin
    · rw [if_pos (.inl hkind)]
      exact .inr ⟨by rw [← hown, hattno], key, rfl, hkind⟩
    · exact .inl ⟨key, hin, hown, hkind⟩
  · refine .inr ⟨hown, ?_⟩
    obtain ⟨key, hkey, hkind⟩ := hkeep
    by_cases hcur : cur.skStrategy = .equal
    · exact ⟨cur, by rw [if_pos (.inl hcur)]; rfl, hcur⟩
    · refine ⟨key, ?_, hkind⟩
      rw [mem_def] at hkey
      rw [if_neg (by simp [hcur, hkey])]
      exact hkey

/-- Attributes with equalities start at an equality. -/
theorem btStartKeys_equal (curattr count : ℕ)
    (chosen : Option (BTScanKey D)) (stratTotal : BTStrategy)
    (hsorted : rest.Pairwise fun first second => first.skAttno ≤ second.skAttno)
    (hattnos : ∀ key ∈ rest, curattr ≤ key.skAttno)
    (hequal : Equalities rest curattr count chosen) :
    ∀ place < count, ∃ key, key.skStrategy = .equal ∧
      (btStartKeys .forward rest curattr chosen stratTotal).1[place]? = some key := by
  induction rest generalizing curattr count chosen stratTotal with
  | nil =>
    intro place hplace
    have hone : count = 1 := by
      by_contra hmore
      have hsecond := hequal (curattr + 1) (by omega) (by omega)
      simp at hsecond
    have hzero : place = 0 := by omega
    subst hzero
    have hfirst := hequal curattr le_rfl (by omega)
    obtain ⟨key, hkey, hkind⟩ := (hfirst.resolve_left (by simp)).2
    refine ⟨key, hkind, ?_⟩
    rw [hkey, btStartKeys]
    rfl
  | cons cur rest ih =>
    intro place hplace
    rw [pairwise_cons] at hsorted
    rw [btStartKeys_cons]
    by_cases hattno : cur.skAttno = curattr
    · rw [if_pos hattno]
      exact ih curattr count _ _ hsorted.2 (fun key hkey => hattnos key (.tail _ hkey))
        (hequal.consider hattno) place hplace
    rw [if_neg hattno]
    have hcur := hattnos cur mem_cons_self
    have hlater : ∀ key ∈ cur :: rest, cur.skAttno ≤ key.skAttno := by
      intro key hkey
      rcases mem_cons.mp hkey with rfl | hin
      · exact le_rfl
      · exact hsorted.1 key hin
    have hfirst := hequal curattr le_rfl (by omega)
    obtain ⟨key, hkey, hkind⟩ := (hfirst.resolve_left (by
      rintro ⟨key, hkey, hown, -⟩
      have hle := hlater key hkey
      omega)).2
    subst hkey
    dsimp only
    by_cases hgoes : cur.skAttno = curattr + 1
    · rw [if_neg (by simp [hkind, hgoes])]
      cases place with
      | zero => exact ⟨key, hkind, rfl⟩
      | succ place =>
        have hnext : Equalities (cur :: rest) (curattr + 1) (count - 1) none := by
          intro attno hfrom hto
          rcases hequal attno (by omega) (by omega) with hin | ⟨hown, -⟩
          · exact .inl hin
          · omega
        rw [hgoes]
        exact ih (curattr + 1) (count - 1) _ _ hsorted.2
          (fun other hother => hgoes ▸ hsorted.1 other hother)
          (hnext.consider hgoes) place (by omega)
    · -- the attribute after the current one has no key at all
      have hone : count = 1 := by
        by_contra hmore
        rcases hequal (curattr + 1) (by omega) (by omega) with
          ⟨other, hother, hown, -⟩ | ⟨hown, -⟩
        · have hle := hlater other hother
          omega
        · omega
      have hzero : place = 0 := by omega
      subst hzero
      rw [if_pos (.inr (.inr hgoes))]
      exact ⟨key, hkind, rfl⟩

theorem Bounds.getElem {n : ℕ} {start : List (BTScanKey D)} {nextkey : Bool}
    (hbounds : Bounds keys n start nextkey) {place : ℕ} {key : BTScanKey D}
    (hkey : start[place]? = some key) : key ∈ keys ∧ key.skAttno = n + place := by
  induction hbounds generalizing place with
  | nil n => exact absurd hkey (by simp)
  | strict hmem hattno hstrategy =>
    cases place with
    | zero =>
      cases hkey
      exact ⟨hmem, hattno⟩
    | succ place => exact absurd hkey (by simp)
  | cons hmem hattno hstrategy hrest ih =>
    cases place with
    | zero =>
      cases hkey
      exact ⟨hmem, hattno⟩
    | succ place =>
      obtain ⟨hin, hown⟩ := ih hkey
      exact ⟨hin, by omega⟩

/-! ### Tuples before the start -/

section

variable {rel : BTRel D}

theorem IndexTuple.getElem?_of_getattr {itup : IndexTuple D} {place : ℕ}
    {datum : D} (hdatum : itup.getattr (1 + place) = some datum) :
    itup.attrs[place]? = some (some datum) := by
  rw [getattr, Nat.add_sub_cancel_left, getD_eq_getElem?_getD] at hdatum
  cases hattr : itup.attrs[place]? with
  | none =>
    rw [hattr] at hdatum
    exact absurd hdatum (by simp)
  | some attr =>
    rw [hattr] at hdatum
    exact congrArg some hdatum

variable (hkeys : ForwardKeys rel keys)
include hkeys

theorem ForwardKeys.accepts_eq
    {key : BTScanKey D} (hkey : key ∈ keys) {itup : IndexTuple D} {datum : D}
    (hdatum : itup.getattr key.skAttno = some datum) :
    key.accepts itup = key.skStrategy.holds (rel.cmpProc key.skAttno datum key.skArgument) := by
  rw [BTScanKey.accepts, hdatum, ← hkeys.consistent key hkey]
  rfl

/-- A tuple without nulls has the next attribute that a key is about. -/
theorem ForwardKeys.exists_attr {key : BTScanKey D} (hkey : key ∈ keys) {itup : IndexTuple D}
    (hlength : itup.attrs.length = rel.natts)
    (hnulls : ∀ attr ∈ itup.attrs, attr ≠ none) {front attrs : List (Option D)}
    (hattrs : itup.attrs = front ++ attrs) (hattno : key.skAttno = front.length + 1) :
    ∃ datum rest, attrs = some datum :: rest ∧ itup.getattr key.skAttno = some datum := by
  have hle := (hkeys.attnos key hkey).2
  cases attrs with
  | nil =>
    rw [hattrs, append_nil] at hlength
    omega
  | cons attr rest =>
    cases attr with
    | none => exact absurd rfl (hnulls none (by rw [hattrs]; simp))
    | some datum => exact ⟨datum, rest, rfl, getattr_append hattrs hattno⟩

/-- A key that a tuple satisfies is about an attribute that is there. -/
theorem ForwardKeys.exists_of_satisfies {itup : IndexTuple D} (hall : satisfies keys itup = true)
    {key : BTScanKey D} (hkey : key ∈ keys) {place : ℕ} (hattno : key.skAttno = 1 + place) :
    ∃ datum, itup.attrs[place]? = some (some datum) ∧ key.skStrategy.holds
        (rel.cmpProc (1 + place) datum key.skArgument) = true := by
  have haccepts : key.accepts itup = true := by
    rw [satisfies, List.all_eq_true] at hall
    exact hall key hkey
  cases hdatum : itup.getattr key.skAttno with
  | none =>
    rw [BTScanKey.accepts, hdatum] at haccepts
    exact absurd haccepts (by simp)
  | some datum =>
    rw [hkeys.accepts_eq hkey hdatum, hattno] at haccepts
    rw [hattno] at hdatum
    exact ⟨datum, getElem?_of_getattr hdatum, haccepts⟩

variable [∀ attno, TransCmp (rel.cmpProc attno)]

/-- A tuple that is passed over fails one of the start keys. -/
theorem ForwardKeys.exists_not_accepts {n : ℕ} {start : List (BTScanKey D)} {nextkey : Bool}
    (hbounds : Bounds keys n start nextkey) {itup : IndexTuple D}
    (hlength : itup.attrs.length = rel.natts)
    (hnulls : ∀ attr ∈ itup.attrs, attr ≠ none) {last : Bool → Ordering}
    (hlast : ∀ ended, last ended = .eq) (front attrs : List (Option D))
    (hattrs : itup.attrs = front ++ attrs) (hfront : n = front.length + 1)
    (hpass : reachesCmpval nextkey (compareArgs rel.cmpProc last n
      (start.map fun key => key.skArgument) attrs) = true) :
    ∃ key ∈ keys, key.accepts itup = false := by
  induction hbounds generalizing front attrs with
  | nil n =>
    rw [map_nil, compareArgs, hlast] at hpass
    exact absurd hpass (by decide)
  | @strict n key hmem hattno hstrategy =>
    obtain ⟨datum, rest, hcons, hget⟩ :=
      hkeys.exists_attr hmem hlength hnulls hattrs (hattno.trans hfront)
    have hswap : rel.cmpProc n datum key.skArgument =
        (rel.cmpProc n key.skArgument datum).swap := OrientedCmp.eq_swap
    refine ⟨key, hmem, ?_⟩
    rw [hkeys.accepts_eq hmem hget, hstrategy, hattno, hswap]
    rw [hcons, map_cons, compareArgs, map_nil, compareArgs, hlast, compareNull] at hpass
    cases hcmp : rel.cmpProc n key.skArgument datum with
    | lt =>
      rw [hcmp] at hpass
      exact absurd hpass (by decide)
    | eq | gt => rfl
  | @cons n key start nextkey hmem hattno hstrategy hrest ih =>
    obtain ⟨datum, rest, hcons, hget⟩ :=
      hkeys.exists_attr hmem hlength hnulls hattrs (hattno.trans hfront)
    have hswap : rel.cmpProc n datum key.skArgument =
        (rel.cmpProc n key.skArgument datum).swap := OrientedCmp.eq_swap
    rw [hcons, map_cons, compareArgs, compareNull] at hpass
    cases hcmp : rel.cmpProc n key.skArgument datum with
    | lt =>
      rw [hcmp] at hpass
      cases nextkey <;> exact absurd hpass Bool.false_ne_true
    | gt =>
      refine ⟨key, hmem, ?_⟩
      rw [hkeys.accepts_eq hmem hget, hattno, hswap, hcmp]
      rcases hstrategy with hequal | hgreater
      · rw [hequal]
        rfl
      · rw [hgreater]
        rfl
    | eq =>
      rw [hcmp] at hpass
      exact ih (front ++ [some datum]) rest (by rw [hattrs, hcons, append_assoc]; rfl)
        (by rw [hfront, length_append]; rfl) hpass

/-! ### Stopping early -/

/-- A start key that is an equality agrees with every tuple that satisfies all
keys. -/
theorem ForwardKeys.compareNull_eq {itup : IndexTuple D} (hall : satisfies keys itup = true)
    {start : List (BTScanKey D)} {nextkey : Bool}
    (hbounds : Bounds keys 1 start nextkey) {place : ℕ}
    (hequal : ∃ key, key.skStrategy = .equal ∧ start[place]? = some key) :
    ∃ arg ∈ (start.map fun key => key.skArgument)[place]?, ∃ attr ∈ itup.attrs[place]?,
        compareNull (rel.cmpProc (1 + place)) (some arg) attr = .eq := by
  obtain ⟨key, hstrategy, hkey⟩ := hequal
  obtain ⟨hmem, hattno⟩ := hbounds.getElem hkey
  obtain ⟨datum, hdatum, hholds⟩ := hkeys.exists_of_satisfies hall hmem hattno
  rw [hstrategy, BTStrategy.holds, Ordering.isEq_iff_eq_eq] at hholds
  refine ⟨key.skArgument, ?_, some datum, hdatum, OrientedCmp.eq_symm hholds⟩
  rw [getElem?_map, hkey]
  rfl

/-- Where a required key fails at a tuple that is not before the start, no later
tuple satisfies all keys. -/
theorem ForwardKeys.not_satisfies {key : BTScanKey D} (hkey : key ∈ keys)
    (hrequired : key.required .forward = true) {start : List (BTScanKey D)}
    {nextkey : Bool} (hbounds : Bounds keys 1 start nextkey)
    (hequal : ∀ count, Equalities keys 1 count none →
      ∀ place < count, ∃ key, key.skStrategy = .equal ∧ start[place]? = some key)
    {stop later : IndexTuple D} {last : Bool → Ordering} {datum : D}
    (hle : compareKeys rel.cmpProc 1 stop.attrs later.attrs ≠ .gt)
    (hstart : compareArgs rel.cmpProc last 1 (start.map fun key => key.skArgument) stop.attrs ≠ .gt)
    (hdatum : stop.getattr key.skAttno = some datum)
    (hfails : key.accepts stop = false) : satisfies keys later = false := by
  rw [Bool.eq_false_iff]
  intro hall
  obtain ⟨count, hattno⟩ := Nat.exists_eq_add_of_le (hkeys.attnos key hkey).1
  obtain ⟨hupper, hbefore⟩ := hkeys.required key hkey hrequired
  have hequalities : Equalities keys 1 count none := by
    intro attno hfrom hto
    exact .inl (hbefore attno hfrom (by omega))
  have hstop := getElem?_of_getattr (hattno ▸ hdatum)
  obtain ⟨value, hvalue, hholds⟩ := hkeys.exists_of_satisfies hall hkey hattno
  rw [hkeys.accepts_eq hkey hdatum, hattno] at hfails
  obtain ⟨hkeysLe, hargsLe⟩ := compare_drop count 1 _ _ _ hle hstart
    (le_of_lt (List.getElem?_eq_some_iff.mp hstop).1)
    fun place hplace => hkeys.compareNull_eq hall hbounds (hequal count hequalities place hplace)
  rw [drop_eq_getElem_cons (List.getElem?_eq_some_iff.mp hstop).1,
    (List.getElem?_eq_some_iff.mp hstop).2] at hkeysLe hargsLe
  rw [drop_eq_getElem_cons (List.getElem?_eq_some_iff.mp hvalue).1,
    (List.getElem?_eq_some_iff.mp hvalue).2, compareKeys, compareNull]
    at hkeysLe
  have hisLE : (rel.cmpProc (1 + count) datum value).isLE = true := by
    cases hcmp : rel.cmpProc (1 + count) datum value with
    | lt | eq => rfl
    | gt =>
      rw [hcmp] at hkeysLe
      exact absurd rfl hkeysLe
  rcases hupper with hless | hlessEqual | hequality
  · rw [hless] at hholds hfails
    have hlt := TransCmp.lt_of_isLE_of_lt hisLE (Ordering.isLT_iff_eq_lt.mp hholds)
    rw [hlt] at hfails
    exact absurd hfails (by decide)
  · rw [hlessEqual] at hholds hfails
    have hle := TransCmp.isLE_trans hisLE hholds
    exact absurd (hfails.symm.trans hle) (by decide)
  · -- the start key of this attribute is an equality as well
    have hown : Equalities keys 1 (count + 1) none := by
      intro attno hfrom hto
      by_cases hlast : attno = key.skAttno
      · exact .inl ⟨key, hkey, hlast.symm, hequality⟩
      · exact .inl (hbefore attno hfrom (by omega))
    obtain ⟨arg, harg, attr, hattr, hagree⟩ := hkeys.compareNull_eq hall hbounds
      (hequal (count + 1) hown count (Nat.lt_succ_self _))
    rw [hvalue, mem_some_iff] at hattr
    subst hattr
    rw [drop_eq_getElem_cons (List.getElem?_eq_some_iff.mp harg).1,
      (List.getElem?_eq_some_iff.mp harg).2, compareArgs, compareNull]
      at hargsLe
    cases hcmp : rel.cmpProc (1 + count) datum value with
    | eq =>
      rw [TransCmp.congr_left hcmp] at hfails
      exact absurd (hfails.symm.trans hholds) (by decide)
    | lt =>
      have hlt : rel.cmpProc (1 + count) datum arg = .lt :=
        TransCmp.lt_of_lt_of_eq hcmp (OrientedCmp.eq_symm hagree)
      rw [OrientedCmp.gt_of_lt hlt] at hargsLe
      exact absurd rfl hargsLe
    | gt =>
      rw [hcmp] at hisLE
      exact absurd hisLE (by decide)

end

end Soda.Storpu
