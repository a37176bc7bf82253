import Soda.Storpu.ForwardScan

/-!
# Grouped aggregation

`agg_getnext` aggregates the tuples of a scan in groups of a fixed size.  At the
end of a full group it has fetched one tuple more, and the next call starts with
a fetch of its own: the tuple in between is in no group.  The rows are right for
every aggregate exactly when the first group takes the whole scan.
-/

namespace Soda.Storpu

open List Option

/-- One aggregate: its transition function, the initial transition value, the
final function and the attribute it reads.  A null value is `none`. -/
structure Aggregate (E : Type) where
  inputAttnum : ℕ
  transfn : Option E → Option E → Option E
  fnStrict : Bool
  initValue : Option E
  finalfn : Option (Option E → Option E)

structure PerGroup (E : Type) where
  transValue : Option E
  noTransValue : Bool

variable {D E : Type}

def initializeAggregate (agg : Aggregate E) : PerGroup E where
  transValue := agg.initValue
  noTransValue := agg.initValue.isNone

variable (aggs : List (Aggregate E))

def initializeAggregates : List (PerGroup E) := aggs.map initializeAggregate

/-- A strict transition function skips null inputs, and the first value that is
not null becomes the transition value if there is none yet. -/
def advanceTransitionFunction (values : ℕ → Option E) (agg : Aggregate E)
    (group : PerGroup E) : PerGroup E :=
  let input := values (agg.inputAttnum - 1)
  if agg.fnStrict && input.isNone then group
  else if agg.fnStrict && group.noTransValue then
    { transValue := input, noTransValue := false }
  else if agg.fnStrict && group.transValue.isNone then group
  else { group with transValue := agg.transfn group.transValue input }

def advanceAggregates (values : ℕ → Option E) (groups : List (PerGroup E)) : List (PerGroup E) :=
  zipWith (advanceTransitionFunction values) aggs groups

def finalizeAggregate (agg : Aggregate E) (group : PerGroup E) : Option E :=
  match agg.finalfn with
  | some finalfn => finalfn group.transValue
  | none => group.transValue

def finalizeAggregates (groups : List (PerGroup E)) : List (Option E) :=
  zipWith finalizeAggregate aggs groups

structure AggState (D E : Type) where
  scan : HeapScan D
  aggs : List (Aggregate E)
  groupSize : ℕ
  pergroups : List (PerGroup E)
  aggDone : Bool
  grpFirstTuple : Option HeapTuple
  values : ℕ → Option E

def aggInit (scan : HeapScan D) (aggs : List (Aggregate E)) (groupSize : ℕ) : AggState D E where
  scan := scan
  aggs := aggs
  groupSize := groupSize
  pergroups := []
  aggDone := false
  grpFirstTuple := none
  values := fun _ => none

/-- The loop over one group, with the iterations that are left and the counter,
a signed integer of 32 bits: there is no result if it overflows.  `deform` reads
the attributes out of a tuple. -/
def aggLoop (rel : HeapRel D) (deform : HeapTuple → ℕ → Option E) :
    ℕ → ℕ → AggState D E → Option (AggState D E)
  | 0, _, state => some state
  | left + 1, i, state => do
      let state := { state with
        pergroups := advanceAggregates state.aggs state.values state.pergroups
        grpFirstTuple := none }
      let (htup, scan) ← heapGetnext rel state.scan .forward
      match htup with
      | none => some { state with scan := scan, aggDone := true }
      | some htup =>
        let state := { state with scan := scan, values := deform htup }
        if i + 1 = 2 ^ 31 then none
        else aggLoop rel deform left (i + 1) state

/-- The row of the next group, or `NULL`. -/
def aggGetnext (rel : HeapRel D) (deform : HeapTuple → ℕ → Option E) (state : AggState D E) :
    Option (Option (List (Option E)) × AggState D E) := do
  if state.aggDone then some (none, state)
  else
    let (first, state) ← match state.grpFirstTuple with
      | some first => some (some first, state)
      | none => do
          let (htup, scan) ← heapGetnext rel state.scan .forward
          match htup with
          | some htup => some (some htup, { state with scan := scan, grpFirstTuple := some htup })
          | none => some (none, { state with scan := scan, aggDone := true })
    match first with
    | none => some (none, state)
    | some first =>
      let state := { state with
        pergroups := initializeAggregates state.aggs
        values := deform first }
      let state ← aggLoop rel deform state.groupSize 0 state
      let row := finalizeAggregates state.aggs state.pergroups
      -- a group that has been finalised has no transition value
      let pergroups := state.pergroups.map fun group =>
        { group with transValue := none }
      some (some row, { state with pergroups := pergroups })

def aggRows (rel : HeapRel D) (deform : HeapTuple → ℕ → Option E) :
    ℕ → AggState D E → Option (List (Option (List (Option E))))
  | 0, _ => some []
  | calls + 1, state => do
      let (row, state) ← aggGetnext rel deform state
      let rest ← aggRows rel deform calls state
      some (row :: rest)

/-! ### What the rows should be -/

def aggregateRow (deform : HeapTuple → ℕ → Option E) (tuples : List HeapTuple) : List (Option E) :=
  finalizeAggregates aggs
    (tuples.foldl (fun groups htup => advanceAggregates aggs (deform htup) groups)
      (initializeAggregates aggs))

def groupOf (tuples : List HeapTuple) (groupSize number : ℕ) : List HeapTuple :=
  (tuples.drop (number * groupSize)).take groupSize

def groupCount (count groupSize : ℕ) : ℕ := (count + groupSize - 1) / groupSize

/-- For all aggregates, successive calls return one row for each group of the
tuples that the scan yields, and then `NULL`. -/
def CoversEveryTuple (rel : HeapRel D) (keys : List (ScanKey D)) (groupSize : ℕ) : Prop :=
  ∀ (E : Type) (deform : HeapTuple → ℕ → Option E) (aggs : List (Aggregate E)), aggRows rel deform
        (groupCount (rel.matching keys).length groupSize + 1)
        (aggInit (heapBeginscan rel keys) aggs groupSize) =
      some ((range (groupCount (rel.matching keys).length groupSize)).map
          (fun number => some (aggregateRow aggs deform
            (groupOf (rel.matching keys) groupSize number))) ++ [none])

/-! ### One group -/

variable {rel : HeapRel D} {keys : List (ScanKey D)} {deform : HeapTuple → ℕ → Option E}

/-- The transition values after the tuple whose attributes have been read and
some more. -/
def AggState.advanced (state : AggState D E)
    (deform : HeapTuple → ℕ → Option E) (tuples : List HeapTuple) : List (PerGroup E) :=
  tuples.foldl (fun groups htup => advanceAggregates state.aggs (deform htup) groups)
    (advanceAggregates state.aggs state.values state.pergroups)

/-- The scan ends before the group is full. -/
theorem aggLoop_of_end (left i : ℕ) (state : AggState D E) {before rest : List HeapTuple}
    (hahead : Ahead rel keys state.scan before rest)
    (hleft : rest.length < left) (hcounter : i + rest.length < 2 ^ 31) :
    ∃ state', aggLoop rel deform left i state = some state' ∧
      state'.aggs = state.aggs ∧ state'.aggDone = true ∧
      state'.pergroups = state.advanced deform rest := by
  induction left generalizing i state before rest with
  | zero => exact absurd hleft (Nat.not_lt_zero _)
  | succ left ih =>
    rw [aggLoop]
    cases rest with
    | nil =>
      obtain ⟨scan', hnext, _⟩ := hahead.forward_nil
      rw [hnext]
      exact ⟨_, rfl, rfl, rfl, rfl⟩
    | cons htup rest =>
      obtain ⟨scan', hnext, hahead'⟩ := hahead.forward_cons
      rw [length_cons] at hleft hcounter
      rw [hnext, bind_eq_bind, bind_some]
      dsimp only
      rw [if_neg (by omega)]
      exact ih (i + 1) _ hahead' (by omega) (by omega)

/-- The group is full before the scan ends: the tuple after the group has been
fetched. -/
theorem aggLoop_of_full (left i : ℕ) (state : AggState D E) {before rest : List HeapTuple}
    (hahead : Ahead rel keys state.scan before rest)
    (hleft : left + 1 ≤ rest.length) (hcounter : i + (left + 1) < 2 ^ 31) :
    ∃ state' before', aggLoop rel deform (left + 1) i state = some state' ∧
      state'.aggs = state.aggs ∧ state'.groupSize = state.groupSize ∧
      state'.aggDone = state.aggDone ∧ state'.grpFirstTuple = none ∧
      state'.pergroups = state.advanced deform (rest.take left) ∧
      Ahead rel keys state'.scan before' (rest.drop (left + 1)) := by
  induction left generalizing i state before rest with
  | zero =>
    cases rest with
    | nil => exact absurd hleft (by decide)
    | cons htup rest =>
      obtain ⟨scan', hnext, hahead'⟩ := hahead.forward_cons
      rw [aggLoop]
      rw [hnext, bind_eq_bind, bind_some]
      dsimp only
      rw [if_neg (by omega)]
      exact ⟨_, _, rfl, rfl, rfl, rfl, rfl, rfl, hahead'⟩
  | succ left ih =>
    cases rest with
    | nil => exact absurd hleft (Nat.not_succ_le_zero _)
    | cons htup rest =>
      obtain ⟨scan', hnext, hahead'⟩ := hahead.forward_cons
      rw [length_cons] at hleft
      rw [aggLoop]
      rw [hnext, bind_eq_bind, bind_some]
      dsimp only
      rw [if_neg (by omega)]
      exact ih (i + 1) _ hahead' (by omega) (by omega)

/-- The counter of the loop overflows. -/
theorem aggLoop_of_overflow (left i : ℕ) (state : AggState D E) {before rest : List HeapTuple}
    (hahead : Ahead rel keys state.scan before rest) (hi : i < 2 ^ 31) (hleft : 2 ^ 31 ≤ i + left)
    (hcounter : 2 ^ 31 ≤ i + rest.length) : aggLoop rel deform left i state = none := by
  induction left generalizing i state before rest with
  | zero => exact absurd hi (by omega)
  | succ left ih =>
    cases rest with
    | nil => exact absurd hi (not_lt.mpr hcounter)
    | cons htup rest =>
      obtain ⟨scan', hnext, hahead'⟩ := hahead.forward_cons
      rw [length_cons] at hcounter
      rw [aggLoop]
      rw [hnext, bind_eq_bind, bind_some]
      dsimp only
      by_cases hlast : i + 1 = 2 ^ 31
      · exact if_pos hlast
      · rw [if_neg hlast]
        exact ih (i + 1) _ hahead' (by omega) (by omega) (by omega)

/-! ### Calls -/

/-- Between two calls no tuple is kept: the next group starts with the next
tuple of the scan. -/
structure Between (rel : HeapRel D) (keys : List (ScanKey D))
    (state : AggState D E) (rest : List HeapTuple) : Prop where
  done : state.aggDone = false
  first : state.grpFirstTuple = none
  ahead : ∃ before, Ahead rel keys state.scan before rest

def AggState.started (state : AggState D E) (scan : HeapScan D)
    (deform : HeapTuple → ℕ → Option E) (first : HeapTuple) : AggState D E :=
  { state with
    scan := scan
    grpFirstTuple := some first
    pergroups := initializeAggregates state.aggs
    values := deform first }

variable {state : AggState D E} {rest : List HeapTuple} {groupSize : ℕ}

theorem Between.not_done (hbetween : Between rel keys state rest) : ¬state.aggDone = true := by
  rw [hbetween.done]
  exact Bool.false_ne_true

variable {first : HeapTuple} {count : ℕ}

theorem Between.getnext (hbetween : Between rel keys state (first :: rest)) :
    ∃ scan' before, Ahead rel keys scan' before rest ∧ aggGetnext rel deform state =
        (aggLoop rel deform state.groupSize 0 (state.started scan' deform first)).bind fun state' =>
          some (some (finalizeAggregates state'.aggs state'.pergroups),
            { state' with
              pergroups := state'.pergroups.map fun group =>
                { group with transValue := none } }) := by
  obtain ⟨before, hahead⟩ := hbetween.ahead
  obtain ⟨scan', hnext, hahead'⟩ := hahead.forward_cons
  refine ⟨scan', _, hahead', ?_⟩
  rw [aggGetnext, if_neg hbetween.not_done, hbetween.first]
  rw [hnext]
  rfl

theorem aggGetnext_of_end (deform : HeapTuple → ℕ → Option E) {state : AggState D E}
    {rest : List HeapTuple} (hbetween : Between rel keys state (first :: rest))
    (hleft : rest.length < state.groupSize) (hcounter : rest.length < 2 ^ 31) :
    ∃ state', aggGetnext rel deform state =
        some (some (aggregateRow state.aggs deform (first :: rest)), state') ∧
      state'.aggDone = true := by
  obtain ⟨scan', before, hahead, hcall⟩ := hbetween.getnext
  obtain ⟨state', hloop, haggs, hdone, hgroups⟩ :=
    aggLoop_of_end state.groupSize 0 (state.started scan' deform first) hahead hleft (by omega)
  rw [hcall, hloop, bind_some, haggs, hgroups]
  exact ⟨_, rfl, hdone⟩

theorem aggGetnext_of_full (deform : HeapTuple → ℕ → Option E)
    {state : AggState D E} {rest : List HeapTuple} {left : ℕ}
    (hbetween : Between rel keys state (first :: rest))
    (hsize : state.groupSize = left + 1) (hleft : left + 1 ≤ rest.length)
    (hcounter : left + 1 < 2 ^ 31) :
    ∃ state', aggGetnext rel deform state =
        some (some (aggregateRow state.aggs deform (first :: rest.take left)), state') ∧
      state'.aggs = state.aggs ∧ state'.groupSize = state.groupSize ∧
      Between rel keys state' (rest.drop (left + 1)) := by
  obtain ⟨scan', before, hahead, hcall⟩ := hbetween.getnext
  obtain ⟨state', before', hloop, haggs, hsize', hdone, hfirst, hgroups, hahead'⟩ :=
    aggLoop_of_full left 0 (state.started scan' deform first) hahead hleft (by omega)
  rw [hcall, hsize, hloop, bind_some, haggs, hgroups]
  exact ⟨_, rfl, rfl, hsize'.trans hsize, hdone.trans hbetween.done, hfirst, before', hahead'⟩

theorem aggGetnext_of_overflow (deform : HeapTuple → ℕ → Option E) {state : AggState D E}
    {rest : List HeapTuple} (hbetween : Between rel keys state (first :: rest))
    (hsize : 2 ^ 31 ≤ state.groupSize) (hcounter : 2 ^ 31 ≤ rest.length) :
    aggGetnext rel deform state = none := by
  obtain ⟨scan', before, hahead, hcall⟩ := hbetween.getnext
  rw [hcall, aggLoop_of_overflow _ 0 _ hahead (by omega) (by omega) (by omega)]
  rfl

theorem aggGetnext_of_nil (deform : HeapTuple → ℕ → Option E) {state : AggState D E}
    (hbetween : Between rel keys state []) :
    ∃ state', aggGetnext rel deform state = some (none, state') := by
  obtain ⟨before, hahead⟩ := hbetween.ahead
  obtain ⟨scan', hnext, _⟩ := hahead.forward_nil
  rw [aggGetnext, if_neg hbetween.not_done, hbetween.first]
  rw [hnext]
  exact ⟨_, rfl⟩

theorem aggGetnext_of_done (hdone : state.aggDone = true) :
    aggGetnext rel deform state = some (none, state) :=
  if_pos hdone

theorem between_aggInit (rel : HeapRel D) (keys : List (ScanKey D))
    (aggs : List (Aggregate E)) (groupSize : ℕ) :
    Between rel keys (aggInit (heapBeginscan rel keys) aggs groupSize) (rel.matching keys) where
  done := rfl
  first := rfl
  ahead := ⟨[], ahead_of_sits_none sits_heapBeginscan⟩

/-! ### When the first group takes the whole scan -/

theorem groupCount_zero (hsize : 1 ≤ groupSize) : groupCount 0 groupSize = 0 :=
  Nat.div_eq_of_lt (by omega)

theorem groupCount_one (hpos : 1 ≤ count) (hle : count ≤ groupSize) :
    groupCount count groupSize = 1 := by
  have hsum : count + groupSize - 1 = count - 1 + groupSize := by omega
  rw [groupCount, hsum, Nat.add_div_right _ (by omega), Nat.div_eq_of_lt (by omega)]

theorem coversEveryTuple_of_le (hsize : 1 ≤ groupSize)
    (hle : (rel.matching keys).length ≤ groupSize)
    (hcounter : (rel.matching keys).length ≤ 2 ^ 31) : CoversEveryTuple rel keys groupSize := by
  intro E deform aggs
  have hbetween := between_aggInit rel keys aggs groupSize
  cases hmatching : rel.matching keys with
  | nil =>
    rw [hmatching] at hbetween
    obtain ⟨state', hcall⟩ := aggGetnext_of_nil deform hbetween
    rw [length_nil, groupCount_zero hsize, aggRows, hcall]
    rfl
  | cons first rest =>
    rw [hmatching] at hbetween hle hcounter
    rw [length_cons] at hle hcounter
    obtain ⟨state', hcall, hdone⟩ := aggGetnext_of_end deform hbetween hle (by omega)
    have hgroup : groupOf (first :: rest) groupSize 0 = first :: rest := by
      rw [groupOf, zero_mul, drop_zero, take_of_length_le hle]
    rw [length_cons, groupCount_one (by omega) hle, aggRows, hcall, bind_eq_bind, bind_some]
    dsimp only
    rw [aggRows, aggGetnext_of_done hdone]
    simp only [bind_eq_bind, bind_some, aggRows, range_one, map_cons, map_nil, hgroup]
    rfl

/-! ### When there is a second group -/

theorem nodup_tuples : rel.tuples.Nodup := by
  rw [HeapRel.tuples, nodup_flatMap]
  constructor
  · intro block _
    apply List.Nodup.map _ nodup_range'
    intro left right heq
    exact congrArg (fun tuple => tuple.tSelf.posid) heq
  · apply nodup_range.imp
    intro left right hne tuple hleft hright
    obtain ⟨_, _, rfl⟩ := mem_map.mp hleft
    obtain ⟨_, _, heq⟩ := mem_map.mp hright
    exact hne (congrArg (fun tuple => tuple.tSelf.block) heq.symm)

def firstTuple : Aggregate HeapTuple where
  inputAttnum := 1
  transfn := fun value _ => value
  fnStrict := true
  initValue := none
  finalfn := none

theorem aggregateRow_firstTuple (first : HeapTuple) (rest : List HeapTuple) :
    aggregateRow [firstTuple] (fun htup _ => some htup) (first :: rest) = [some first] := by
  have hkeep : ∀ tuples : List HeapTuple, tuples.foldl (fun groups htup =>
          advanceAggregates [firstTuple] (fun _ => some htup) groups)
        [⟨some first, false⟩] = [⟨some first, false⟩] := by
    intro tuples
    induction tuples with
    | nil => rfl
    | cons htup tuples ih => exact ih
  exact congrArg (finalizeAggregates [firstTuple]) (hkeep rest)

/-- The first call whose group is not the last fetches a tuple for which there
is no group. -/
theorem aggGetnext_firstTuple {state : AggState D HeapTuple}
    (hbetween : Between rel keys state (first :: rest))
    (haggs : state.aggs = [firstTuple]) (hpos : 1 ≤ state.groupSize)
    (hsize : state.groupSize < 2 ^ 31) :
    ∃ state', aggGetnext rel (fun htup _ => some htup) state =
      some (some [some first], state') := by
  obtain ⟨left, hleft⟩ := Nat.exists_eq_add_of_le' hpos
  by_cases hfull : left + 1 ≤ rest.length
  · obtain ⟨state', hcall, _⟩ := aggGetnext_of_full
      (fun htup _ => some htup) hbetween hleft hfull (by omega)
    rw [haggs, aggregateRow_firstTuple] at hcall
    exact ⟨state', hcall⟩
  · obtain ⟨state', hcall, _⟩ := aggGetnext_of_end
      (fun htup _ => some htup) hbetween (by omega) (by omega)
    rw [haggs, aggregateRow_firstTuple] at hcall
    exact ⟨state', hcall⟩

theorem two_le_groupCount (hpos : 1 ≤ groupSize)
    (hlt : groupSize < count) : 2 ≤ groupCount count groupSize :=
  (Nat.le_div_iff_mul_le hpos).mpr (by omega)

/-- The results of two calls that have one. -/
theorem aggRows_two {deform : HeapTuple → ℕ → Option E} {calls : ℕ}
    {state₁ state₂ : AggState D E} {row₁ row₂ : Option (List (Option E))}
    {rows : List (Option (List (Option E)))}
    (hfirst : aggGetnext rel deform state = some (row₁, state₁))
    (hsecond : aggGetnext rel deform state₁ = some (row₂, state₂))
    (hrows : aggRows rel deform (calls + 2) state = some rows) : rows[1]? = some row₂ := by
  simp only [aggRows, hfirst, hsecond, bind_eq_bind, bind_some] at hrows
  cases hrest : aggRows rel deform calls state₂ with
  | none =>
    rw [hrest] at hrows
    exact absurd hrows (some_ne_none _).symm
  | some rest =>
    rw [hrest] at hrows
    cases hrows
    rfl

theorem not_coversEveryTuple_of_lt (hpos : 1 ≤ groupSize)
    (hlt : groupSize < (rel.matching keys).length) : ¬CoversEveryTuple rel keys groupSize := by
  intro hcovers
  have hrows := hcovers HeapTuple (fun htup _ => some htup) [firstTuple]
  have hbetween := between_aggInit rel keys [firstTuple] groupSize
  obtain ⟨calls, hcalls⟩ := Nat.exists_eq_add_of_le' (two_le_groupCount hpos hlt)
  obtain ⟨left, rfl⟩ := Nat.exists_eq_add_of_le' hpos
  have hnodup : (rel.matching keys).Nodup := nodup_tuples.filter _
  rw [hcalls] at hrows
  cases hmatching : rel.matching keys with
  | nil =>
    rw [hmatching] at hlt
    exact absurd hlt (Nat.not_lt_zero _)
  | cons first rest =>
    rw [hmatching] at hbetween hlt hnodup hrows
    have hlength : left < rest.length := Nat.lt_of_succ_lt_succ hlt
    by_cases hcounter : left + 1 < 2 ^ 31
    · obtain ⟨state₁, hfirst, haggs, hsize, hbetween'⟩ := aggGetnext_of_full
        (fun htup _ => some htup) hbetween rfl hlength hcounter
      have hgroup : groupOf (first :: rest) (left + 1) 1 =
          rest.get ⟨left, hlength⟩ :: (rest.drop (left + 1)).take left := by
        rw [groupOf, one_mul, drop_succ_cons, drop_eq_getElem_cons hlength, take_succ_cons]
        rfl
      have hexpected : ∀ rows, some rows = some ((range (calls + 2)).map
            (fun number => some (aggregateRow [firstTuple] (fun htup _ => some htup)
              (groupOf (first :: rest) (left + 1) number))) ++ [none]) →
          rows[1]? = some (some [some (rest.get ⟨left, hlength⟩)]) := by
        intro rows heq
        rw [some.inj heq, getElem?_append_left (by
          rw [length_map, length_range]
          omega), getElem?_map, getElem?_range (by omega),
          map_some, hgroup, aggregateRow_firstTuple]
      cases hafter : rest.drop (left + 1) with
      | nil =>
        rw [hafter] at hbetween'
        obtain ⟨state₂, hsecond⟩ := aggGetnext_of_nil _ hbetween'
        have hnone := aggRows_two hfirst hsecond hrows
        rw [hexpected _ rfl] at hnone
        exact absurd (some.inj hnone) (some_ne_none _)
      | cons next after =>
        rw [hafter] at hbetween'
        obtain ⟨state₂, hsecond⟩ := aggGetnext_firstTuple hbetween' haggs
          (by rw [hsize]; exact hpos) (by rw [hsize]; exact hcounter)
        have hnext := aggRows_two hfirst hsecond hrows
        rw [hexpected _ rfl] at hnext
        have heq : rest.get ⟨left, hlength⟩ = next := by
          simpa using hnext
        have hdrop : rest.drop left = rest.get ⟨left, hlength⟩ :: next :: after := by
          rw [drop_eq_getElem_cons hlength, hafter]
          rfl
        have hdistinct : (rest.drop left).Nodup :=
          (nodup_cons.mp hnodup).2.sublist (drop_sublist _ _)
        rw [hdrop, heq] at hdistinct
        exact (nodup_cons.mp hdistinct).1 mem_cons_self
    · have hnone := aggGetnext_of_overflow (fun htup _ => some htup) hbetween
        (not_lt.mp hcounter) (by omega)
      rw [aggRows, hnone] at hrows
      exact absurd hrows (some_ne_none _).symm

/-- For every group size, the rows are right for all aggregates if and only if
the scan yields at most one group of tuples, and no more of them than the loop
counter can count. -/
theorem coversEveryTuple_iff (rel : HeapRel D) (keys : List (ScanKey D))
    (groupSize : ℕ) (hpos : 1 ≤ groupSize) :
    CoversEveryTuple rel keys groupSize ↔ (rel.matching keys).length ≤ groupSize ∧
        (rel.matching keys).length ≤ 2 ^ 31 := by
  constructor
  · intro hcovers
    have hle : (rel.matching keys).length ≤ groupSize := by
      by_contra hlt
      exact not_coversEveryTuple_of_lt hpos (not_le.mp hlt) hcovers
    refine ⟨hle, ?_⟩
    by_contra hmany
    have hbetween := between_aggInit rel keys [firstTuple] groupSize
    have hrows := hcovers HeapTuple (fun htup _ => some htup) [firstTuple]
    cases hmatching : rel.matching keys with
    | nil =>
      rw [hmatching, length_nil] at hmany
      exact absurd (Nat.zero_le _) hmany
    | cons first rest =>
      rw [hmatching] at hbetween hmany hle hrows
      rw [length_cons] at hmany hle
      have hnone := aggGetnext_of_overflow (fun htup _ => some htup) hbetween
        (show 2 ^ 31 ≤ groupSize by omega) (by omega)
      rw [aggRows, hnone] at hrows
      exact absurd hrows (some_ne_none _).symm
  · rintro ⟨hle, hcounter⟩
    exact coversEveryTuple_of_le hpos hle hcounter

def twoTuples : HeapRel ℕ where
  pages := [⟨[7, 8], [⟨0, .normal, 1⟩, ⟨1, .normal, 1⟩]⟩]
  getattr := fun _ _ => none

def countTuples : Aggregate ℕ where
  inputAttnum := 1
  transfn := fun value _ => value.map (· + 1)
  fnStrict := false
  initValue := some 0
  finalfn := none

theorem coversEveryTuple_twoTuples : CoversEveryTuple twoTuples [] 2 :=
  (coversEveryTuple_iff twoTuples [] 2 (by decide)).mpr ⟨by decide, by decide⟩

/-- With groups of one tuple the second tuple is counted in no row. -/
theorem not_coversEveryTuple_twoTuples : ¬CoversEveryTuple twoTuples [] 1 := by
  intro hcovers
  have hexpected : aggRows twoTuples (fun _ _ => some 0) 3
      (aggInit (heapBeginscan twoTuples []) [countTuples] 1) =
        some [some [some 1], some [some 1], none] :=
    hcovers ℕ (fun _ _ => some 0) [countTuples]
  have hactual : aggRows twoTuples (fun _ _ => some 0) 3
      (aggInit (heapBeginscan twoTuples []) [countTuples] 1) =
        some [some [some 1], none, none] := rfl
  exact absurd hexpected (by decide)

end Soda.Storpu
