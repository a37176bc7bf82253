import Soda.Core.Cursor

/-!
# Offloaded heap scans and rescans

A heap scan of the database server may run on the device.  `initscan` begins
such a scan where keys are passed, and the scan then takes its tuples from the
buffers that the device returns.  A rescan without keys resets the position of
the server's scan but not the scan on the device.
-/

namespace Soda.Postgres

open List Bool Cursor

/-- A table as one snapshot sees it: the visible tuples of each block.  `handle`
says whether the table can be scanned on the device, and `chunk` how many tuples
beside the first one the device puts into a buffer. -/
structure Table (K T : Type) where
  blocks : List (List T)
  keyTest : K → T → Bool
  handle : Bool
  chunk : List T → ℕ

/-- The scan descriptor.  `rsPlace` is where the server's own scan stands among
its tuples.  `rsSpuScan` holds what the scan on the device has still to return,
and `rsSpuTuples` the tuples of the last buffer. -/
structure Scan (K T : Type) where
  rsNkeys : ℕ
  rsKey : List K
  rsStartblock : ℕ
  rsInited : Bool
  rsCindex : ℕ
  rsPlace : Option ℕ
  rsSpuScan : Option (List T)
  rsSpuTuples : List T

variable {K T : Type}

namespace Table

variable (table : Table K T)

def passes (keys : List K) (tuple : T) : Bool := keys.all fun key => table.keyTest key tuple

/-- What the device returns: the matching tuples in heap order. -/
def matching (keys : List K) : List T := table.blocks.flatten.filter (table.passes keys)

/-- What the server's own scan goes through: the blocks from the start block on
and then those in front of it. -/
def hostTuples (start : ℕ) (keys : List K) : List T :=
  (table.blocks.drop start ++ table.blocks.take start).flatten.filter (table.passes keys)

def withoutHandle : Table K T :=
  { table with handle := false }

theorem hostTuples_zero (keys : List K) : table.hostTuples 0 keys = table.matching keys := by
  rw [hostTuples, drop_zero, take_zero, append_nil, matching]

end Table

variable (table : Table K T)

variable (scan : Scan K T)

/-- Keys are copied and the device scan is begun only if keys are passed. -/
def initscan (key : Option (List K)) : Scan K T :=
  let scan := { scan with rsInited := false, rsPlace := none }
  match key with
  | none => scan
  | some key =>
    if scan.rsNkeys > 0 then
      let scan := { scan with rsKey := key.take scan.rsNkeys }
      if table.handle then
        { scan with rsSpuScan := some (table.matching scan.rsKey) }
      else scan
    else scan

/-- `start` is zero unless the scan joins others that are under way. -/
def heapBeginscan (start : ℕ) (keys : List K) : Scan K T :=
  initscan table
    { rsNkeys := keys.length
      rsKey := []
      rsStartblock := start
      rsInited := false
      rsCindex := 0
      rsPlace := none
      rsSpuScan := none
      rsSpuTuples := [] } (some keys)

def heapRescan (key : Option (List K)) : Scan K T := initscan table scan key

/-- The next buffer of the device; it is empty when the scan has ended. -/
def heapgetpageStorpu : Scan K T :=
  match scan.rsSpuScan with
  | none => scan
  | some todo =>
    { scan with
      rsSpuTuples := todo.take (table.chunk todo + 1)
      rsSpuScan := some (todo.drop (table.chunk todo + 1)) }

/-- The end of the loop: the first tuple of the next buffer, if it has one. -/
def heapgettupRefill : Option T × Scan K T :=
  let scan := heapgetpageStorpu table scan
  match scan.rsSpuTuples with
  | [] => (none, { scan with rsInited := false })
  | tuple :: _ => (some tuple, { scan with rsCindex := 0 })

def heapgettupStorpu : Option T × Scan K T :=
  if scan.rsInited = false ∧ table.blocks = [] then (none, scan)
  else
    let lineindex := if scan.rsInited then scan.rsCindex + 1 else 0
    let scan :=
      if scan.rsInited then scan
      else { heapgetpageStorpu table scan with rsInited := true }
    match scan.rsSpuTuples[lineindex]? with
    | some tuple => (some tuple, { scan with rsCindex := lineindex })
    | none => heapgettupRefill table scan

/-- The server's own scan: one tuple after another, and from the first one again
after the end. -/
def heapgettupPagemode : Option T × Scan K T :=
  let tuples := table.hostTuples scan.rsStartblock scan.rsKey
  let place := forward tuples.length scan.rsPlace
  (place.bind fun index => tuples[index]?, { scan with rsPlace := place, rsInited := place.isSome })

def heapGetnextslot : Option T × Scan K T :=
  match scan.rsSpuScan with
  | some _ => heapgettupStorpu table scan
  | none => heapgettupPagemode table scan

inductive ScanAction (K : Type)
  | fetch
  | rescan (key : Option (List K))

def fetches (table : Table K T) : List (ScanAction K) → Scan K T → List (Option T)
  | [], _ => []
  | .fetch :: actions, scan =>
    let (tuple, scan) := heapGetnextslot table scan
    tuple :: fetches table actions scan
  | .rescan key :: actions, scan => fetches table actions (heapRescan table scan key)

def step : ScanAction K → Scan K T
  | .fetch => (heapGetnextslot table scan).2
  | .rescan key => heapRescan table scan key

/-! ### When the two scans agree -/

/-- The scan on the device has not been moved since it was begun, or it has no
tuple at all. -/
def AtStart : Prop := scan.rsSpuScan = some (table.matching scan.rsKey)

/-- The condition on a step of an offloaded scan: the server's scan would start
at the first block, a fetch does not follow one that found the end, and a rescan
passes keys, unless the scan on the device is at its start. -/
def Careful (action : ScanAction K) : Prop :=
  scan.rsSpuScan.isSome = true → scan.rsStartblock = 0 ∧ match action with
      | .fetch => scan.rsInited = true ∨ AtStart table scan
      | .rescan none => AtStart table scan
      | .rescan (some _) => True

def CarefulRun (table : Table K T) :
    List (ScanAction K) → Scan K T → Prop
  | [], _ => True
  | action :: actions, scan =>
    Careful table scan action ∧ CarefulRun table actions (step table scan action)

/-- How far an offloaded scan and the server's own scan are: both before the
first tuple, both on the same tuple with the same tuples to come, or both behind
the last one. -/
inductive Together (table : Table K T) (scan : Scan K T) : Option ℕ → Prop
  | idle (todo : List T) (hscan : scan.rsSpuScan = some todo) (hinited : scan.rsInited = false)
      (htodo : todo = table.matching scan.rsKey ∨ todo = []) :
      Together table scan none
  | running (todo : List T) (place : ℕ) (hscan : scan.rsSpuScan = some todo)
      (hinited : scan.rsInited = true) (hplace : place < (table.matching scan.rsKey).length)
      (htodo : (table.matching scan.rsKey).drop (place + 1) =
        scan.rsSpuTuples.drop (scan.rsCindex + 1) ++ todo) :
      Together table scan (some place)

variable {place : Option ℕ}

theorem Together.exists_todo {table : Table K T} {scan : Scan K T}
    (htogether : Together table scan place) : ∃ todo, scan.rsSpuScan = some todo := by
  cases htogether with
  | idle todo hscan _ _ | running todo _ hscan _ _ _ => exact ⟨todo, hscan⟩

/-- An offloaded scan and a scan without the device in the same run. -/
structure Agree (table : Table K T) (scan host : Scan K T) : Prop where
  nkeys : scan.rsNkeys = host.rsNkeys
  key : scan.rsKey = host.rsKey
  startblock : scan.rsStartblock = host.rsStartblock
  noDevice : host.rsSpuScan = none
  device : scan.rsSpuScan.isSome = true → table.handle = true ∧ 0 < scan.rsNkeys
  place : match scan.rsSpuScan with
    | none => scan.rsPlace = host.rsPlace
    | some _ => Together table scan host.rsPlace

variable {table : Table K T} {scan host : Scan K T}

variable {values : List T}

theorem facts_of_drop_eq_cons {rest : List T} {index : ℕ} {value : T}
    (hdrop : values.drop index = value :: rest) :
    index < values.length ∧ values[index]? = some value ∧ values.drop (index + 1) = rest := by
  have hlt : index < values.length := by
    by_contra hge
    rw [drop_eq_nil_of_le (not_lt.mp hge)] at hdrop
    exact absurd hdrop.symm (cons_ne_nil _ _)
  have hcons := drop_eq_getElem_cons hlt
  rw [hdrop, cons.injEq] at hcons
  refine ⟨hlt, ?_, hcons.2.symm⟩
  rw [getElem?_eq_getElem hlt, hcons.1]

/-- The next tuple of a scan that has more to come. -/
theorem forward_of_drop_eq_cons {rest : List T} {value : T} (place : Option ℕ)
    (hdrop : values.drop (passed place) = value :: rest) :
    forward values.length place = some (passed place) ∧
      ((forward values.length place).bind fun index => values[index]?) = some value := by
  obtain ⟨hlt, hget, _⟩ := facts_of_drop_eq_cons hdrop
  rw [forward_of_lt hlt]
  exact ⟨rfl, hget⟩

theorem forward_of_drop_eq_nil (hdrop : values.drop (passed place) = []) :
    forward values.length place = none :=
  forward_of_le (drop_eq_nil_iff.mp hdrop)

structure Frame (before after : Scan K T) : Prop where
  nkeys : after.rsNkeys = before.rsNkeys
  key : after.rsKey = before.rsKey
  startblock : after.rsStartblock = before.rsStartblock

/-- The first tuple of a buffer puts the scan on the place behind the last
one. -/
theorem together_of_first (tuple : T) (taken todo : List T)
    (hdrop : (table.matching scan.rsKey).drop (passed place) =
      tuple :: (taken ++ todo)) (hscan : scan.rsSpuScan = some todo)
    (hinited : scan.rsInited = true)
    (hbuffer : scan.rsSpuTuples = tuple :: taken) (hindex : scan.rsCindex = 0) :
    Together table scan (some (passed place)) := by
  obtain ⟨hlt, _, hrest⟩ := facts_of_drop_eq_cons hdrop
  apply Together.running todo _ hscan hinited hlt
  rw [hrest, hbuffer, hindex]
  rfl

theorem heapgettupRefill_spec (table : Table K T) (scan : Scan K T)
    (place : Option ℕ) {todo : List T}
    (hscan : scan.rsSpuScan = some todo) (hinited : scan.rsInited = true)
    (hdrop : (table.matching scan.rsKey).drop (passed place) = todo) :
    (heapgettupRefill table scan).1 = ((forward (table.matching scan.rsKey).length place).bind
          fun index => (table.matching scan.rsKey)[index]?) ∧
      Frame scan (heapgettupRefill table scan).2 ∧ Together table (heapgettupRefill table scan).2
        (forward (table.matching scan.rsKey).length place) := by
  cases todo with
  | nil =>
    rw [forward_of_drop_eq_nil hdrop, heapgettupRefill, heapgetpageStorpu, hscan]
    refine ⟨rfl, ⟨rfl, rfl, rfl⟩, ?_⟩
    exact Together.idle [] rfl rfl (.inr rfl)
  | cons tuple rest =>
    obtain ⟨hforward, hunder⟩ := forward_of_drop_eq_cons place hdrop
    rw [hunder, hforward, heapgettupRefill, heapgetpageStorpu, hscan]
    refine ⟨rfl, ⟨rfl, rfl, rfl⟩, ?_⟩
    apply together_of_first tuple (rest.take (table.chunk (tuple :: rest)))
      (rest.drop (table.chunk (tuple :: rest)))
    · rw [take_append_drop]
      exact hdrop
    · rfl
    · exact hinited
    · rfl
    · rfl

/-- A fetch that starts a scan takes the first buffer. -/
theorem heapgettupStorpu_of_idle (hinited : scan.rsInited = false) (hblocks : table.blocks ≠ []) :
    heapgettupStorpu table scan = match (heapgetpageStorpu table scan).rsSpuTuples[0]? with
      | some tuple => (some tuple,
          { heapgetpageStorpu table scan with rsInited := true, rsCindex := 0 })
      | none => heapgettupRefill table { heapgetpageStorpu table scan with rsInited := true } := by
  rw [heapgettupStorpu, if_neg (fun h => hblocks h.2), if_neg (by
    rw [hinited]
    exact false_ne_true), if_neg (by
    rw [hinited]
    exact false_ne_true)]

theorem heapgettupStorpu_of_start (hstart : AtStart table scan) (hinited : scan.rsInited = false) :
    (heapgettupStorpu table scan).1 = ((forward (table.matching scan.rsKey).length none).bind
          fun index => (table.matching scan.rsKey)[index]?) ∧
      Frame scan (heapgettupStorpu table scan).2 ∧ Together table (heapgettupStorpu table scan).2
        (forward (table.matching scan.rsKey).length none) := by
  rw [AtStart] at hstart
  by_cases hblocks : table.blocks = []
  · have hnone : table.matching scan.rsKey = [] := by
      rw [Table.matching, hblocks]
      rfl
    rw [heapgettupStorpu, if_pos ⟨hinited, hblocks⟩, hnone]
    exact ⟨rfl, ⟨rfl, rfl, rfl⟩, Together.idle _ hstart hinited (.inl rfl)⟩
  · rw [heapgettupStorpu_of_idle hinited hblocks]
    cases hmatching : table.matching scan.rsKey with
    | nil =>
      rw [hmatching] at hstart
      have hpage : heapgetpageStorpu table scan =
          { scan with rsSpuTuples := [], rsSpuScan := some [] } := by
        rw [heapgetpageStorpu, hstart]
        simp
      rw [hpage]
      have hrefill := heapgettupRefill_spec table
        { scan with
          rsSpuTuples := [], rsSpuScan := some [], rsInited := true }
        none rfl rfl (by
          rw [hmatching]
          rfl)
      rw [hmatching] at hrefill
      exact ⟨hrefill.1, ⟨hrefill.2.1.nkeys, hrefill.2.1.key, hrefill.2.1.startblock⟩, hrefill.2.2⟩
    | cons tuple rest =>
      rw [hmatching] at hstart
      have hdrop : (table.matching scan.rsKey).drop (passed none) = tuple :: rest := hmatching
      obtain ⟨hforward, hunder⟩ := forward_of_drop_eq_cons none hdrop
      rw [hmatching] at hforward hunder
      rw [hunder, hforward, heapgetpageStorpu, hstart]
      refine ⟨rfl, ⟨rfl, rfl, rfl⟩, ?_⟩
      apply together_of_first tuple (rest.take (table.chunk (tuple :: rest)))
        (rest.drop (table.chunk (tuple :: rest)))
      · rw [take_append_drop]
        exact hdrop
      · rfl
      · rfl
      · rfl
      · rfl

theorem heapgettupStorpu_spec (htogether : Together table scan place)
    (hcareful : scan.rsInited = true ∨ AtStart table scan) :
    (heapgettupStorpu table scan).1 = ((forward (table.matching scan.rsKey).length place).bind
          fun index => (table.matching scan.rsKey)[index]?) ∧
      Frame scan (heapgettupStorpu table scan).2 ∧ Together table (heapgettupStorpu table scan).2
        (forward (table.matching scan.rsKey).length place) := by
  cases htogether with
  | idle todo hscan hinited htodo =>
    rcases hcareful with hrunning | hstart
    · rw [hinited] at hrunning
      exact absurd hrunning false_ne_true
    · exact heapgettupStorpu_of_start hstart hinited
  | running todo place hscan hinited hplace htodo =>
    rw [heapgettupStorpu, if_neg (fun h => by
      rw [hinited] at h
      exact absurd h.1 true_eq_false.mp), if_pos hinited,
      if_pos hinited]
    dsimp only
    cases hnext : scan.rsSpuTuples[scan.rsCindex + 1]? with
    | none =>
      have hdrop : scan.rsSpuTuples.drop (scan.rsCindex + 1) = [] :=
        drop_eq_nil_of_le (getElem?_eq_none_iff.mp hnext)
      rw [hdrop, nil_append] at htodo
      exact heapgettupRefill_spec table scan (some place) hscan hinited htodo
    | some tuple =>
      obtain ⟨hlt, hget⟩ := List.getElem?_eq_some_iff.mp hnext
      have hdrop := drop_eq_getElem_cons hlt
      rw [hget] at hdrop
      rw [hdrop, cons_append] at htodo
      obtain ⟨hforward, hunder⟩ := forward_of_drop_eq_cons (some place) htodo
      obtain ⟨hplace', _, hrest⟩ := facts_of_drop_eq_cons htodo
      rw [hunder, hforward]
      refine ⟨rfl, ⟨rfl, rfl, rfl⟩, ?_⟩
      exact Together.running todo _ hscan hinited hplace' hrest

/-! ### Runs -/

theorem agree_initscan {key : Option (List K)} (hagree : Agree table scan host)
    (hcareful : Careful table scan (.rescan key)) :
    Agree table (initscan table scan key) (initscan table.withoutHandle host key) := by
  cases key with
  | none =>
    refine ⟨hagree.nkeys, hagree.key, hagree.startblock, hagree.noDevice, hagree.device, ?_⟩
    cases hscan : scan.rsSpuScan with
    | none => simp only [initscan, hscan]
    | some todo =>
      obtain ⟨_, hstart⟩ := hcareful (by rw [hscan]; rfl)
      simp only [initscan, hscan]
      exact Together.idle todo rfl rfl (.inl (Option.some.inj (hscan.symm.trans hstart)))
  | some key =>
    by_cases hnkeys : scan.rsNkeys > 0
    · have hnkeys' : host.rsNkeys > 0 := by
        rw [← hagree.nkeys]
        exact hnkeys
      have hhost : initscan table.withoutHandle host (some key) =
          { host with
            rsInited := false
            rsPlace := none
            rsKey := key.take host.rsNkeys } := by
        exact (if_pos hnkeys').trans (if_neg Bool.false_ne_true)
      cases hhandle : table.handle with
      | true =>
        have hscan : initscan table scan (some key) =
            { scan with
              rsInited := false
              rsPlace := none
              rsKey := key.take scan.rsNkeys
              rsSpuScan := some (table.matching (key.take scan.rsNkeys)) } := by
          exact (if_pos hnkeys).trans (if_pos hhandle)
        rw [hhost, hscan]
        exact ⟨hagree.nkeys, by rw [hagree.nkeys], hagree.startblock,
          hagree.noDevice, fun _ => ⟨hhandle, hnkeys⟩, Together.idle _ rfl rfl (.inl rfl)⟩
      | false =>
        have hnone : scan.rsSpuScan = none := by
          cases hspu : scan.rsSpuScan with
          | none => rfl
          | some todo =>
            have := (hagree.device (by rw [hspu]; rfl)).1
            rw [hhandle] at this
            exact absurd this false_ne_true
        have hscan : initscan table scan (some key) =
            { scan with
              rsInited := false
              rsPlace := none
              rsKey := key.take scan.rsNkeys } := by
          refine (if_pos hnkeys).trans (if_neg ?_)
          rw [hhandle]
          exact false_ne_true
        rw [hhost, hscan]
        refine ⟨hagree.nkeys, by rw [hagree.nkeys], hagree.startblock,
          hagree.noDevice, hagree.device, ?_⟩
        rw [hnone]
    · have hnone : scan.rsSpuScan = none := by
        cases hspu : scan.rsSpuScan with
        | none => rfl
        | some todo => exact absurd (hagree.device (by rw [hspu]; rfl)).2 hnkeys
      have hscan : initscan table scan (some key) =
          { scan with rsInited := false, rsPlace := none } := by
        exact if_neg hnkeys
      have hhost : initscan table.withoutHandle host (some key) =
          { host with rsInited := false, rsPlace := none } := by
        exact if_neg (by rw [← hagree.nkeys]; exact hnkeys)
      rw [hhost, hscan]
      refine ⟨hagree.nkeys, hagree.key, hagree.startblock, hagree.noDevice, hagree.device, ?_⟩
      rw [hnone]

/-- A fetch returns the same tuple from both. -/
theorem heapGetnextslot_agree (hagree : Agree table scan host)
    (hcareful : Careful table scan .fetch) :
    (heapGetnextslot table scan).1 = (heapGetnextslot table.withoutHandle host).1 ∧
      Agree table (heapGetnextslot table scan).2 (heapGetnextslot table.withoutHandle host).2 := by
  have hhost : heapGetnextslot table.withoutHandle host =
      heapgettupPagemode table.withoutHandle host := by
    rw [heapGetnextslot, hagree.noDevice]
  rw [hhost]
  cases hscan : scan.rsSpuScan with
  | none =>
    have hplace := hagree.place
    rw [hscan] at hplace
    have hpagemode : heapGetnextslot table scan = heapgettupPagemode table scan := by
      rw [heapGetnextslot, hscan]
    rw [hpagemode, heapgettupPagemode, heapgettupPagemode, hplace, hagree.key, hagree.startblock]
    refine ⟨rfl, hagree.nkeys, rfl, rfl, hagree.noDevice, hagree.device, ?_⟩
    rw [hscan]
    rfl
  | some todo =>
    obtain ⟨hstart, hfetch⟩ := hcareful (by rw [hscan]; rfl)
    have htogether := hagree.place
    rw [hscan] at htogether
    have hstorpu : heapGetnextslot table scan = heapgettupStorpu table scan := by
      rw [heapGetnextslot, hscan]
    have htuples : table.withoutHandle.hostTuples host.rsStartblock
        host.rsKey = table.matching scan.rsKey := by
      rw [← hagree.startblock, hstart, ← hagree.key]
      exact table.hostTuples_zero scan.rsKey
    obtain ⟨htuple, hframe, htogether'⟩ := heapgettupStorpu_spec htogether hfetch
    rw [hstorpu, heapgettupPagemode, htuples]
    refine ⟨htuple, hframe.nkeys.trans hagree.nkeys, hframe.key.trans hagree.key,
      hframe.startblock.trans hagree.startblock, hagree.noDevice, ?_, ?_⟩
    · intro _
      rw [hframe.nkeys]
      exact hagree.device (by rw [hscan]; rfl)
    · obtain ⟨todo', htodo'⟩ := htogether'.exists_todo
      rw [htodo']
      exact htogether'

theorem fetches_agree (actions : List (ScanAction K)) (hagree : Agree table scan host)
    (hcareful : CarefulRun table actions scan) :
    fetches table actions scan = fetches table.withoutHandle actions host := by
  induction actions generalizing scan host with
  | nil => rfl
  | cons action actions ih =>
    cases action with
    | fetch =>
      obtain ⟨htuple, hagree'⟩ := heapGetnextslot_agree hagree hcareful.1
      have hrest := ih hagree' hcareful.2
      rw [fetches, fetches]
      dsimp only
      rw [htuple, hrest]
    | rescan key =>
      exact ih (agree_initscan hagree hcareful.1) hcareful.2

/-- Two tuples in one block; a key is a bound from below. -/
def twoRows : Table ℕ ℕ where
  blocks := [[3, 5]]
  keyTest := fun bound value => decide (bound ≤ value)
  handle := true
  chunk := fun _ => 0

end Soda.Postgres
