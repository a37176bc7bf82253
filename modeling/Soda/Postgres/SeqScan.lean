import Mathlib

/-!
# Pushed-down filters of sequential scans

When a sequential scan is initialised, quals that compare a column with a
constant are taken out of the plan and become scan keys.  The plan itself is
changed, and only the serial way to begin a scan passes the keys on.
-/

namespace Soda.Postgres

open List Option

/-- A tuple: its attributes by number, null ones without a value. -/
abbrev Row (V : Type) := ℤ → Option V

inductive Operand (V : Type)
  | var (varattno : ℤ)
  | const (value : Option V)
  | relabel (arg : Operand V)
  | other (eval : Row V → Option V)

/-- A condition of a plan: an operator with its function and its one or two
arguments, or any other expression.  Truth values are three-valued. -/
inductive Qual (V : Type)
  | unaryOpExpr (fn : Option V → Option Bool) (arg : Operand V)
  | opExpr (fn : Option V → Option V → Option Bool) (left right : Operand V)
  | other (eval : Row V → Option Bool)

/-- A scan key; the argument is `none` where the source sets `SK_ISNULL`. -/
structure ScanKey (V : Type) where
  skAttno : ℤ
  skFunc : Option V → Option V → Option Bool
  skArgument : Option V

variable {V : Type}

/-! ### The expression evaluator -/

def Operand.eval (row : Row V) : Operand V → Option V
  | .var varattno => row varattno
  | .const value => value
  | .relabel arg => arg.eval row
  | .other eval => eval row

def Qual.eval (row : Row V) : Qual V → Option Bool
  | .unaryOpExpr fn arg => fn (arg.eval row)
  | .opExpr fn left right => fn (left.eval row) (right.eval row)
  | .other eval => eval row

/-- A conjunction accepts a row where every part of it is true. -/
def execQual (quals : List (Qual V)) (row : Row V) : Bool :=
  quals.all fun qual => qual.eval row == some true

/-! ### Building scan keys -/

def Operand.unlabelled : Operand V → Operand V
  | .relabel arg => arg
  | operand => operand

/-- What becomes of one qual: it is kept, it becomes a key, or the constant is
looked for behind a null pointer, as the operator has only one argument. -/
inductive Pushed (V : Type)
  | keep
  | key (key : ScanKey V)
  | fault

/-- The attribute number of an operand that is a column of the table. -/
def Operand.column (relnatts : ℤ) (operand : Operand V) : Option ℤ :=
  match operand.unlabelled with
  | .var varattno =>
    if varattno < 1 ∨ varattno > relnatts then none else some varattno
  | _ => none

def pushQual (relnatts : ℤ) : Qual V → Pushed V
  | .other _ => .keep
  | .unaryOpExpr _ arg =>
    match arg.column relnatts with
    | none => .keep
    | some _ => .fault
  | .opExpr fn left right =>
    match left.column relnatts, right.unlabelled with
    | some varattno, .const value => .key ⟨varattno, fn, value⟩
    | _, _ => .keep

/-- The loop over the quals: the quals that are left and the scan keys. -/
def execTableBuildScanKeys (relnatts : ℤ) :
    List (Qual V) → Option (List (Qual V) × List (ScanKey V))
  | [] => some ([], [])
  | qual :: quals => do
      match pushQual relnatts qual with
      | .fault => none
      | .keep => do
          let (left, keys) ← execTableBuildScanKeys relnatts quals
          some (qual :: left, keys)
      | .key key => do
          let (left, keys) ← execTableBuildScanKeys relnatts quals
          some (left, key :: keys)

/-! ### Executions -/

/-- `HeapKeyTest`: null on either side fails the key, and there is no result if
the function returns null. -/
def heapKeyTest (row : Row V) : List (ScanKey V) → Option Bool
  | [] => some true
  | key :: keys =>
    match key.skArgument, row key.skAttno with
    | some argument, some value =>
      match key.skFunc (some value) (some argument) with
      | none => none
      | some true => heapKeyTest row keys
      | some false => some false
    | _, _ => some false

def scanRows (keys : List (ScanKey V)) :
    List (Row V) → Option (List (Row V))
  | [] => some []
  | row :: rows => do
      let passes ← heapKeyTest row keys
      let rest ← scanRows keys rows
      some (if passes then row :: rest else rest)

/-- One execution: serial, with the rows that its snapshot sees, or parallel,
with the rows that each participant is given, the leader first. -/
inductive Execution (V : Type)
  | serial (visible : List (Row V))
  | parallel (leader : List (Row V)) (workers : List (List (Row V)))

def Execution.visible : Execution V → List (Row V)
  | .serial visible => visible
  | .parallel leader workers => leader ++ workers.flatten

/-- What a participant of a parallel execution returns: its scan has no keys. -/
def participantRows (quals : List (Qual V)) (rows : List (Row V)) : Option (List (Row V)) := do
  let rows ← scanRows [] rows
  some (rows.filter (execQual quals))

/-- A worker initialises its copy of the plan, as it is by then. -/
def workerRows (relnatts : ℤ) (plan : List (Qual V)) (rows : List (Row V)) :
    Option (List (Row V)) := do
  let (left, _) ← execTableBuildScanKeys relnatts plan
  participantRows left rows

def workersRows (relnatts : ℤ) (plan : List (Qual V)) :
    List (List (Row V)) → Option (List (Row V))
  | [] => some []
  | rows :: workers => do
      let first ← workerRows relnatts plan rows
      let rest ← workersRows relnatts plan workers
      some (first ++ rest)

/-- One execution of a plan: the rows it returns and the quals that the plan has
afterwards. -/
def execute (relnatts : ℤ) (plan : List (Qual V)) :
    Execution V → Option (List (Row V) × List (Qual V))
  | .serial visible => do
      let (left, keys) ← execTableBuildScanKeys relnatts plan
      let rows ← scanRows keys visible
      some (rows.filter (execQual left), left)
  | .parallel leader workers => do
      let (left, _) ← execTableBuildScanKeys relnatts plan
      let own ← participantRows left leader
      let others ← workersRows relnatts left workers
      some (own ++ others, left)

def executions (relnatts : ℤ) :
    List (Execution V) → List (Qual V) → Option (List (List (Row V)))
  | [], _ => some []
  | execution :: rest, plan => do
      let (rows, plan) ← execute relnatts plan execution
      let results ← executions relnatts rest plan
      some (rows :: results)

/-! ### What executions should return -/

/-- Every execution returns the visible rows that satisfy all quals. -/
def expected (quals : List (Qual V)) (runs : List (Execution V)) : List (List (Row V)) :=
  runs.map fun execution => execution.visible.filter (execQual quals)

def Qual.isPushed (relnatts : ℤ) (qual : Qual V) : Bool :=
  match pushQual relnatts qual with
  | .key _ => true
  | _ => false

def residual (relnatts : ℤ) (quals : List (Qual V)) : List (Qual V) :=
  quals.filter fun qual => !qual.isPushed relnatts

def pushed (relnatts : ℤ) (quals : List (Qual V)) : List (Qual V) :=
  quals.filter fun qual => qual.isPushed relnatts

/-- No qual is an operator with a column as its only argument. -/
def NoUnaryColumn (relnatts : ℤ) (quals : List (Qual V)) : Prop :=
  ∀ qual ∈ quals, pushQual relnatts qual ≠ .fault

/-- On this row an operator is not true of a null operand and not null of
others. -/
def Qual.StrictOn (row : Row V) : Qual V → Prop
  | .opExpr fn left right =>
    match left.eval row, right.eval row with
    | some value, some argument => fn (some value) (some argument) ≠ none
    | value, argument => fn value argument ≠ some true
  | _ => True

/-- The condition on one execution.  The first execution may be serial, if the
operators of the pushed quals are strict on the visible rows.  Any other one is
right only where the pushed quals filter nothing out. -/
def FilterSafe (relnatts : ℤ) (quals : List (Qual V)) (first : Bool) :
    Execution V → Prop
  | .serial visible =>
    if first then
      ∀ row ∈ visible, ∀ qual ∈ pushed relnatts quals, qual.StrictOn row
    else
      ∀ row ∈ visible, execQual (residual relnatts quals) row = true →
        execQual (pushed relnatts quals) row = true
  | .parallel leader workers =>
    ∀ row ∈ leader ++ workers.flatten, execQual (residual relnatts quals) row = true →
        execQual (pushed relnatts quals) row = true

/-- The condition on all executions of a plan. -/
def FilterSafeRun (relnatts : ℤ) (quals : List (Qual V)) :
    List (Execution V) → Prop
  | [] => True
  | execution :: rest =>
    FilterSafe relnatts quals true execution ∧ ∀ later ∈ rest, FilterSafe relnatts quals false later

variable {relnatts : ℤ} {quals : List (Qual V)}

/-! ### Keys and quals -/

@[simp] theorem Operand.eval_unlabelled (row : Row V) (operand : Operand V) :
    operand.unlabelled.eval row = operand.eval row := by
  cases operand <;> rfl

theorem Operand.unlabelled_of_column {operand : Operand V} {varattno : ℤ}
    (hcolumn : operand.column relnatts = some varattno) : operand.unlabelled = .var varattno := by
  rw [column] at hcolumn
  split at hcolumn
  · next attno hvar =>
      rw [hvar]
      split at hcolumn
      · exact absurd hcolumn (by simp)
      · rw [some.inj hcolumn]
  · exact absurd hcolumn (by simp)

variable {qual : Qual V} {key : ScanKey V}

def keysOf (relnatts : ℤ) (quals : List (Qual V)) : List (ScanKey V) :=
  quals.filterMap fun qual =>
    match pushQual relnatts qual with
    | .key key => some key
    | _ => none

theorem execTableBuildScanKeys_eq (hnone : NoUnaryColumn relnatts quals) :
    execTableBuildScanKeys relnatts quals =
      some (residual relnatts quals, keysOf relnatts quals) := by
  induction quals with
  | nil => rfl
  | cons qual quals ih =>
    have hrest := ih fun other hmem => hnone other (.tail _ hmem)
    rw [execTableBuildScanKeys, residual, keysOf, filter_cons, filterMap_cons, Qual.isPushed]
    cases hpush : pushQual relnatts qual with
    | fault => exact absurd hpush (hnone qual mem_cons_self)
    | keep | key key =>
      rw [hrest]
      rfl

theorem residual_cons (qual : Qual V) :
    residual relnatts (qual :: quals) = if qual.isPushed relnatts then residual relnatts quals
      else qual :: residual relnatts quals := by
  rw [residual, filter_cons]
  cases qual.isPushed relnatts <;> rfl

theorem pushed_cons (qual : Qual V) :
    pushed relnatts (qual :: quals) = if qual.isPushed relnatts then qual :: pushed relnatts quals
      else pushed relnatts quals := by
  rw [pushed, filter_cons]
  rfl

theorem execQual_cons (qual : Qual V) (row : Row V) :
    execQual (qual :: quals) row = ((qual.eval row == some true) && execQual quals row) :=
  all_cons

/-- Taking quals out of a plan splits its condition in two. -/
theorem execQual_eq_and (relnatts : ℤ) (quals : List (Qual V)) (row : Row V) :
    execQual quals row = (execQual (pushed relnatts quals) row &&
        execQual (residual relnatts quals) row) := by
  induction quals with
  | nil => rfl
  | cons qual quals ih =>
    rw [execQual_cons, ih, pushed_cons, residual_cons]
    cases qual.isPushed relnatts with
    | true => rw [if_pos rfl, if_pos rfl, execQual_cons, Bool.and_assoc]
    | false =>
      rw [if_neg Bool.false_ne_true, if_neg Bool.false_ne_true, execQual_cons, Bool.and_left_comm]

theorem keysOf_cons_of_not_isPushed (hkept : qual.isPushed relnatts = false) :
    keysOf relnatts (qual :: quals) = keysOf relnatts quals := by
  rw [Qual.isPushed] at hkept
  rw [keysOf, filterMap_cons]
  cases hpush : pushQual relnatts qual with
  | key key =>
    rw [hpush] at hkept
    exact absurd hkept (by simp)
  | keep | fault => rfl

theorem Qual.exists_key_of_isPushed (hpushed : qual.isPushed relnatts = true) :
    ∃ key, pushQual relnatts qual = .key key := by
  rw [Qual.isPushed] at hpushed
  split at hpushed
  · next key hkey => exact ⟨key, hkey⟩
  · exact absurd hpushed (by simp)

variable (hkey : pushQual relnatts qual = .key key)
include hkey

/-- What a pushed qual looks like. -/
theorem pushQual_eq_key :
    ∃ left right, qual = .opExpr key.skFunc left right ∧ (∀ row, left.eval row = row key.skAttno) ∧
      ∀ row, right.eval row = key.skArgument := by
  cases qual with
  | other eval => exact absurd hkey (by simp [pushQual])
  | unaryOpExpr fn arg =>
    rw [pushQual] at hkey
    split at hkey <;> exact absurd hkey (by simp)
  | opExpr fn left right =>
    rw [pushQual] at hkey
    split at hkey
    · next varattno value hcolumn hconst =>
        cases hkey
        refine ⟨left, right, rfl, ?_, ?_⟩
        · intro row
          rw [← Operand.eval_unlabelled, Operand.unlabelled_of_column hcolumn]
          rfl
        · intro row
          rw [← Operand.eval_unlabelled, hconst]
          rfl
    · exact absurd hkey (by simp)

theorem keysOf_cons_key : keysOf relnatts (qual :: quals) = key :: keysOf relnatts quals := by
  rw [keysOf, filterMap_cons, hkey]
  rfl

/-- Where its operator is strict, a key says what its qual says. -/
theorem heapKeyTest_cons {row : Row V} (hstrict : qual.StrictOn row) (keys : List (ScanKey V)) :
    heapKeyTest row (key :: keys) = if qual.eval row = some true then heapKeyTest row keys
      else some false := by
  obtain ⟨left, right, rfl, hleft, hright⟩ := pushQual_eq_key hkey
  rw [Qual.StrictOn, hleft, hright] at hstrict
  rw [heapKeyTest, Qual.eval, hleft, hright]
  cases hargument : key.skArgument with
  | none =>
    rw [hargument] at hstrict
    cases hvalue : row key.skAttno with
    | none | some value =>
      rw [hvalue] at hstrict
      rw [if_neg hstrict]
  | some argument =>
    rw [hargument] at hstrict
    cases hvalue : row key.skAttno with
    | none =>
      rw [hvalue] at hstrict
      rw [if_neg hstrict]
    | some value =>
      rw [hvalue] at hstrict
      dsimp only at hstrict ⊢
      cases hresult : key.skFunc (some value) (some argument) with
      | none => exact absurd hresult hstrict
      | some result => cases result <;> rfl

omit hkey

theorem heapKeyTest_keysOf {row : Row V}
    (hstrict : ∀ qual ∈ pushed relnatts quals, qual.StrictOn row) :
    heapKeyTest row (keysOf relnatts quals) = some (execQual (pushed relnatts quals) row) := by
  induction quals with
  | nil => rfl
  | cons qual quals ih =>
    rw [pushed_cons] at hstrict ⊢
    cases hpush : qual.isPushed relnatts with
    | false =>
      rw [hpush, if_neg Bool.false_ne_true] at hstrict
      rw [keysOf_cons_of_not_isPushed hpush, if_neg Bool.false_ne_true]
      exact ih hstrict
    | true =>
      rw [hpush, if_pos rfl] at hstrict
      obtain ⟨key, hkey⟩ := Qual.exists_key_of_isPushed hpush
      rw [keysOf_cons_key hkey, if_pos rfl, execQual_cons,
        heapKeyTest_cons hkey (hstrict qual mem_cons_self),
        ih fun other hmem => hstrict other (.tail _ hmem)]
      by_cases heval : qual.eval row = some true
      · rw [if_pos heval, heval]
        rfl
      · rw [if_neg heval, beq_false_of_ne heval, Bool.false_and]

variable {rows : List (Row V)} {execution : Execution V}

/-- A scan with keys that test as a predicate does filters by it. -/
theorem scanRows_eq_filter (passes : Row V → Bool) {keys : List (ScanKey V)}
    (htest : ∀ row ∈ rows, heapKeyTest row keys = some (passes row)) :
    scanRows keys rows = some (rows.filter passes) := by
  induction rows with
  | nil => rfl
  | cons row rows ih =>
    rw [scanRows, htest row mem_cons_self,
      ih fun other hmem => htest other (.tail _ hmem), filter_cons]
    rfl

/-! ### Plans without keys -/

theorem residual_residual :
    residual relnatts (residual relnatts quals) = residual relnatts quals := by
  rw [residual, residual, List.filter_filter]
  simp only [Bool.and_self]

theorem keysOf_residual : keysOf relnatts (residual relnatts quals) = [] := by
  induction quals with
  | nil => rfl
  | cons qual quals ih =>
    rw [residual_cons]
    cases hpush : qual.isPushed relnatts with
    | true => exact ih
    | false => rw [if_neg Bool.false_ne_true, keysOf_cons_of_not_isPushed hpush, ih]

theorem scanRows_nil (rows : List (Row V)) : scanRows [] rows = some rows := by
  rw [scanRows_eq_filter (fun _ => true) fun _ _ => rfl, filter_true]

theorem participantRows_eq (quals : List (Qual V)) (rows : List (Row V)) :
    participantRows quals rows = some (rows.filter (execQual quals)) := by
  rw [participantRows, scanRows_nil]
  rfl

variable (hnone : NoUnaryColumn relnatts quals)
include hnone

theorem NoUnaryColumn.residual : NoUnaryColumn relnatts (residual relnatts quals) :=
  fun qual hmem => hnone qual (mem_of_mem_filter hmem)

/-- Initialising the plan again finds nothing more to push. -/
theorem execTableBuildScanKeys_residual :
    execTableBuildScanKeys relnatts (residual relnatts quals) =
      some (residual relnatts quals, []) := by
  rw [execTableBuildScanKeys_eq hnone.residual, residual_residual, keysOf_residual]

theorem workersRows_eq (workers : List (List (Row V))) :
    workersRows relnatts (residual relnatts quals) workers =
      some (workers.flatten.filter (execQual (residual relnatts quals))) := by
  induction workers with
  | nil => rfl
  | cons rows workers ih =>
    rw [workersRows, workerRows, execTableBuildScanKeys_residual hnone, ih,
      flatten_cons, filter_append]
    simp only [bind_eq_bind, bind_some, participantRows_eq]

omit hnone

/-! ### Whole executions -/

/-- Rows on which the pushed quals follow from the others. -/
theorem filter_residual
    (hsafe : ∀ row ∈ rows, execQual (residual relnatts quals) row = true →
      execQual (pushed relnatts quals) row = true) :
    rows.filter (execQual (residual relnatts quals)) = rows.filter (execQual quals) := by
  apply filter_congr
  intro row hrow
  rw [execQual_eq_and relnatts quals]
  cases hresidual : execQual (residual relnatts quals) row with
  | false => rw [Bool.and_false]
  | true => rw [hsafe row hrow hresidual, Bool.and_true]

variable (hnone : NoUnaryColumn relnatts quals)
include hnone

/-- The first execution of a plan. -/
theorem execute_eq_of_first (hsafe : FilterSafe relnatts quals true execution) :
    execute relnatts quals execution = some (execution.visible.filter (execQual quals),
        residual relnatts quals) := by
  cases execution with
  | serial visible =>
    have hrows : scanRows (keysOf relnatts quals) visible =
        some (visible.filter (execQual (pushed relnatts quals))) :=
      scanRows_eq_filter _ fun row hrow => heapKeyTest_keysOf (hsafe row hrow)
    have hall : (visible.filter (execQual (pushed relnatts quals))).filter
        (execQual (residual relnatts quals)) = visible.filter (execQual quals) := by
      rw [List.filter_filter]
      apply filter_congr
      intro row _
      rw [execQual_eq_and relnatts quals, Bool.and_comm]
    rw [execute, execTableBuildScanKeys_eq hnone]
    simp only [bind_eq_bind, bind_some, hrows, hall, Execution.visible]
  | parallel leader workers =>
    rw [execute, execTableBuildScanKeys_eq hnone]
    simp only [bind_eq_bind, bind_some, participantRows_eq, workersRows_eq hnone, ← filter_append]
    rw [filter_residual hsafe, Execution.visible]

/-- Later executions find the plan without the pushed quals. -/
theorem execute_eq_of_later (hsafe : FilterSafe relnatts quals false execution) :
    execute relnatts (residual relnatts quals) execution =
      some (execution.visible.filter (execQual quals), residual relnatts quals) := by
  cases execution with
  | serial visible =>
    rw [execute, execTableBuildScanKeys_residual hnone]
    simp only [bind_eq_bind, bind_some, scanRows_nil]
    rw [filter_residual hsafe, Execution.visible]
  | parallel leader workers =>
    rw [execute, execTableBuildScanKeys_residual hnone]
    simp only [bind_eq_bind, bind_some, participantRows_eq, workersRows_eq hnone, ← filter_append]
    rw [filter_residual hsafe, Execution.visible]

theorem executions_eq_of_later {runs : List (Execution V)}
    (hsafe : ∀ later ∈ runs, FilterSafe relnatts quals false later) :
    executions relnatts runs (residual relnatts quals) = some (expected quals runs) := by
  induction runs with
  | nil => rfl
  | cons execution runs ih =>
    rw [executions, execute_eq_of_later hnone (hsafe execution mem_cons_self)]
    simp only [bind_eq_bind, bind_some, ih fun later hmem => hsafe later (.tail _ hmem)]
    rfl

omit hnone

def columnIs (varattno : ℤ) (value : Bool) : Qual Bool :=
  .opExpr (fun left right => do return (← left) == (← right)) (.var varattno) (.const (some value))

/-- `HeapKeyTest` of the device: it looks at the null flag of the attribute only,
so the operator is called with the datum that a null constant carries. -/
def deviceKeyTest (constvalue : V) (row : Row V) (keys : List (ScanKey V)) : Bool :=
  keys.all fun key =>
    match row key.skAttno with
    | none => false
    | some value => key.skFunc (some value) (some (key.skArgument.getD constvalue)) == some true

/-- The keys together with the quals that are left, as a test of a row. -/
def splitTest (relnatts : ℤ) (constvalue : V) (quals : List (Qual V))
    (row : Row V) : Option Bool := do
  let (left, keys) ← execTableBuildScanKeys relnatts quals
  some (deviceKeyTest constvalue row keys && execQual left row)

/-- The operator of a scan key is null where one of its operands is. -/
def ScanKey.Strict (key : ScanKey V) : Prop :=
  ∀ value, key.skFunc none value = none ∧ key.skFunc value none = none

/-- A row that the conjunction rejects because of a null constant is rejected by
the datum in its place, by another key or by a qual that is left. -/
def NullsReject (relnatts : ℤ) (constvalue : V) (quals : List (Qual V)) (row : Row V) : Prop :=
  ∀ key ∈ keysOf relnatts quals, key.skArgument = none →
    deviceKeyTest constvalue row (keysOf relnatts quals) = false ∨
      execQual (residual relnatts quals) row = false

variable {constvalue : V} {row : Row V}

theorem noUnaryColumn_of_isSome (hsome : (execTableBuildScanKeys relnatts quals).isSome) :
    NoUnaryColumn relnatts quals := by
  induction quals with
  | nil => exact fun qual hmem => absurd hmem not_mem_nil
  | cons first quals ih =>
    intro qual hmem
    have hrest : (execTableBuildScanKeys relnatts quals).isSome := by
      rw [execTableBuildScanKeys] at hsome
      cases hbuilt : execTableBuildScanKeys relnatts quals with
      | none =>
        cases hpush : pushQual relnatts first <;>
          simp [hbuilt, hpush] at hsome
      | some built => rfl
    rcases mem_cons.mp hmem with rfl | hmem
    · intro hfault
      simp [execTableBuildScanKeys, hfault] at hsome
    · exact ih hrest qual hmem

/-- The pushed quals, read as scan keys with three-valued operators. -/
theorem execQual_pushed_eq_all :
    execQual (pushed relnatts quals) row = (keysOf relnatts quals).all fun key =>
        key.skFunc (row key.skAttno) key.skArgument == some true := by
  induction quals with
  | nil => rfl
  | cons qual quals ih =>
    rw [pushed_cons]
    cases hpush : qual.isPushed relnatts with
    | false => rw [keysOf_cons_of_not_isPushed hpush, if_neg Bool.false_ne_true, ih]
    | true =>
      obtain ⟨key, hkey⟩ := Qual.exists_key_of_isPushed hpush
      obtain ⟨left, right, rfl, hleft, hright⟩ := pushQual_eq_key hkey
      rw [keysOf_cons_key hkey, if_pos rfl, execQual_cons, ih, all_cons, Qual.eval, hleft, hright]

/-- Without null constants the device tests the pushed quals. -/
theorem deviceKeyTest_keysOf (hstrict : ∀ key ∈ keysOf relnatts quals, key.Strict)
    (hnulls : ∀ key ∈ keysOf relnatts quals, key.skArgument ≠ none) :
    deviceKeyTest constvalue row (keysOf relnatts quals) =
      execQual (pushed relnatts quals) row := by
  rw [execQual_pushed_eq_all, deviceKeyTest, Bool.eq_iff_iff, List.all_eq_true, List.all_eq_true]
  apply forall₂_congr
  intro key hkey
  obtain ⟨argument, hargument⟩ := ne_none_iff_exists'.mp (hnulls key hkey)
  rw [hargument, getD_some]
  cases row key.skAttno with
  | none =>
    rw [(hstrict key hkey _).1]
    rfl
  | some value => rfl

/-- A strict operator with a null constant is true of no row. -/
theorem execQual_pushed_eq_false {key : ScanKey V}
    (hkey : key ∈ keysOf relnatts quals) (hstrict : key.Strict) (hnull : key.skArgument = none) :
    execQual (pushed relnatts quals) row = false := by
  rw [execQual_pushed_eq_all, List.all_eq_false]
  refine ⟨key, hkey, ?_⟩
  rw [hnull, (hstrict _).2]
  exact Bool.false_ne_true

/-- The split accepts a row exactly as the conjunction does, unless an operator
has a column as its only argument or a null constant lets the row pass. -/
theorem splitTest_exact_iff (row : Row V) (hstrict : ∀ key ∈ keysOf relnatts quals, key.Strict) :
    splitTest relnatts constvalue quals row = some (execQual quals row) ↔
      NoUnaryColumn relnatts quals ∧ NullsReject relnatts constvalue quals row := by
  constructor
  · intro hexact
    have hnone : NoUnaryColumn relnatts quals := by
      apply noUnaryColumn_of_isSome
      cases hbuilt : execTableBuildScanKeys relnatts quals with
      | none => simp [splitTest, hbuilt] at hexact
      | some built => rfl
    refine ⟨hnone, fun key hkey hnull => ?_⟩
    rw [splitTest, execTableBuildScanKeys_eq hnone, execQual_eq_and relnatts quals,
      execQual_pushed_eq_false hkey (hstrict key hkey) hnull] at hexact
    exact Bool.and_eq_false_iff.mp (some.inj hexact)
  · rintro ⟨hnone, hreject⟩
    rw [splitTest, execTableBuildScanKeys_eq hnone, execQual_eq_and relnatts quals]
    by_cases hnull : ∃ key ∈ keysOf relnatts quals, key.skArgument = none
    · obtain ⟨key, hkey, hnull⟩ := hnull
      rw [execQual_pushed_eq_false hkey (hstrict key hkey) hnull]
      exact congrArg some (Bool.and_eq_false_iff.mpr (hreject key hkey hnull))
    · have hnulls : ∀ key ∈ keysOf relnatts quals, key.skArgument ≠ none :=
        fun key hkey heq => hnull ⟨key, hkey, heq⟩
      rw [← deviceKeyTest_keysOf hstrict hnulls]
      rfl

/-- A column compared with a constant, beside a null test that is kept. -/
theorem splitTest_exact_iff_column :
    splitTest 1 false [columnIs 1 true, .other fun row => some (row 1).isSome]
      (fun _ => some true) = some true :=
  (splitTest_exact_iff _ (by
    intro key hkey value
    rw [mem_singleton.mp hkey]
    cases value <;> exact ⟨rfl, rfl⟩)).mpr
  ⟨noUnaryColumn_of_isSome rfl, by
    intro key hkey hnull
    rw [mem_singleton.mp hkey] at hnull
    exact absurd hnull (some_ne_none _)⟩

/-- A column compared with a null constant: the device takes the row whose value
is the datum of the constant. -/
theorem not_splitTest_exact :
    ¬ ∀ (quals : List (Qual Bool)) (row : Row Bool), (∀ key ∈ keysOf 1 quals, key.Strict) →
        splitTest 1 false quals row = some (execQual quals row) := by
  intro hall
  have hexact := hall [.opExpr (fun left right => do return (← left) == (← right)) (.var 1)
      (.const none)] (fun _ => some false) (by
      intro key hkey value
      rw [mem_singleton.mp hkey]
      cases value <;> exact ⟨rfl, rfl⟩)
  exact absurd hexact (by decide)

end Soda.Postgres
