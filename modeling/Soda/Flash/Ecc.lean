import Soda.Flash.Fil

/-!
# Correction of reads by the ECC engine

`amu_submit_transaction` passes a read on to the ECC engine when the flash
layer reports blocks with errors.  Three layers with three conventions decide
what it returns: the wait gives a positive code for a timeout, the ECC task
gives a negative code for each failure the engine names, and the transaction
fails when that code is negative.

The task is on the stack of the calling thread, so that its address is a
thread and a place on that thread's stack.  A run interleaves the threads, the
main loop, the timer and the engine.
-/

namespace Soda

open TaskRing

inductive EccTaskType
  | calc | correct
  deriving DecidableEq, Repr

/-- The fields of `struct ecc_task` that the FTL sets. -/
structure EccRequest where
  type : EccTaskType
  data : BitVec 64
  offset : BitVec 32
  length : BitVec 32
  code : BitVec 64
  codeLength : BitVec 32
  errBitmap : BitVec 64
  deriving DecidableEq, Repr

/-- The fields of `struct ecc_task` that the engine sets.  The status is any
word: the engine leaves it uninitialised after a code it does not know. -/
structure EccVerdict where
  status : BitVec 32
  codeLength : BitVec 32
  deriving DecidableEq, Repr

def etsOk : BitVec 32 := 0
def etsDecError : BitVec 32 := 1
def etsNospc : BitVec 32 := 2
def etsNotsupported : BitVec 32 := 3
def etsIoError : BitVec 32 := 4

abbrev EccRing := TaskRing (Tid × ℕ) Tid EccRequest EccVerdict

section Codes

-- The values of the error numbers, of which only the sign is used.
variable (errno : IoErrno → ℕ+)

/-- What `submit_ecc_task` returns; a wait that timed out has no verdict.  A
status outside the switch leaves the zero of the wait. -/
def submitEccTask : Option EccVerdict → ℤ
  | none => (errno .etimedout : ℤ)
  | some verdict =>
    if verdict.status = etsOk then verdict.codeLength.toInt
    else if verdict.status = etsNospc then -(errno .enomem : ℤ)
    else if verdict.status = etsDecError then -(errno .ebadmsg : ℤ)
    else if verdict.status = etsNotsupported then -(errno .enosys : ℤ)
    else if verdict.status = etsIoError then -(errno .eio : ℤ)
    else 0

/-- The engine is asked after a successful read with errors. -/
def asksEngine (type : FilTaskType) (flash : Option IoErrno) (errBitmap : BitVec 64) : Bool :=
  type = .read && flash.isNone && errBitmap != 0

/-- What `amu_submit_transaction` returns.  `flash` is the code of
`submit_flash_transaction`, `errBitmap` what it left in the transaction and
`ecc` the end of the wait for the engine, where it is asked. -/
def amuSubmitTransaction (type : FilTaskType) (flash : Option IoErrno)
    (errBitmap : BitVec 64) (ecc : Option EccVerdict) : ℤ :=
  match flash with
  | some code => (errno code : ℤ)
  | none =>
    if type = .read ∧ errBitmap ≠ 0 then
      let r := submitEccTask errno ecc
      if r < 0 then -r else 0
    else 0

end Codes

/-- The request of `ecc_correct` as `amu_submit_transaction` calls it for a
page buffer at `data`. -/
def eccCorrect (data errBitmap : BitVec 64) : EccRequest where
  type := .correct
  data := data
  offset := 0
  length := 16384
  code := data + 16384
  codeLength := 1872
  errBitmap := errBitmap

inductive EccAction
  /-- The flash layer has returned to `amu_submit_transaction`. -/
  | submit (self : Tid) (place : ℕ) (type : FilTaskType)
      (flash : Option IoErrno) (data errBitmap : BitVec 64)
  | dequeue
  | complete (addr : Tid × ℕ) (call : ℕ) (verdict : EccVerdict)
  | poll
  | timeout (self : Tid)
  | resume (self : Tid)
  deriving DecidableEq

def EccRing.init : EccRing := empty (eccCorrect 0 0) ⟨0, 0⟩

/-- A transaction that does not ask the engine returns at once. -/
def eccStep (ring : EccRing) : EccAction → Option EccRing
  | .submit self place type flash data errBitmap =>
    let request := eccCorrect data errBitmap
    if asksEngine type flash errBitmap then
      ring.post ⟨etsOk, request.codeLength⟩ self (self, place) request
    else some ring
  | .dequeue => ring.take
  | .complete addr call verdict => ring.reply addr call verdict
  | .poll => ring.poll
  | .timeout self => ring.expire self
  | .resume self => ring.resume self

namespace EccRing

/-- A read that returns zero had no error bits set, or the engine reported
them corrected.  The first part is about transactions that do not ask the
engine, the second about those that do. -/
def PassesGood (errno : IoErrno → ℕ+) (ring : EccRing) (self : Tid) : Prop :=
  (∀ flash errBitmap ecc, asksEngine .read flash errBitmap = false →
    amuSubmitTransaction errno .read flash errBitmap ecc = 0 → errBitmap = 0) ∧
  ∀ ret ∈ ring.returns, ret.thread = self → ret.request.errBitmap ≠ 0 →
    amuSubmitTransaction errno .read none ret.request.errBitmap ret.verdict = 0 →
    ∃ verdict, (ret.call, verdict) ∈ ring.replies ∧ verdict.status = etsOk

end EccRing

/-- One of the five codes of the protocol. -/
def EccVerdict.Defined (verdict : EccVerdict) : Prop := verdict.status ≤ etsIoError

instance (verdict : EccVerdict) : Decidable verdict.Defined := inferInstanceAs (Decidable (_ ≤ _))

theorem EccVerdict.defined_ok (codeLength : BitVec 32) :
    EccVerdict.Defined ⟨etsOk, codeLength⟩ := by
  change etsOk ≤ etsIoError
  decide

/-- No timeout of the thread, and no status for it outside the protocol. -/
def EccAction.Orderly (self : Tid) : EccAction → Prop
  | timeout other => other ≠ self
  | complete addr _ verdict => addr.1 = self → verdict.Defined
  | _ => True

instance (self : Tid) : DecidablePred (EccAction.Orderly self)
  | .timeout other => inferInstanceAs (Decidable (other ≠ self))
  | .complete addr _ verdict => inferInstanceAs (Decidable (addr.1 = self → verdict.Defined))
  | .submit _ _ _ _ _ _ => isTrue trivial
  | .dequeue => isTrue trivial
  | .poll => isTrue trivial
  | .resume _ => isTrue trivial

variable {errBitmap : BitVec 64} {ecc : Option EccVerdict}

theorem amuSubmitTransaction_direct (errno : IoErrno → ℕ+) {flash : Option IoErrno}
    (hdirect : asksEngine .read flash errBitmap = false)
    (hzero : amuSubmitTransaction errno .read flash errBitmap ecc = 0) : errBitmap = 0 := by
  cases flash with
  | some code =>
    have hpos := (errno code).pos
    simp only [amuSubmitTransaction] at hzero
    omega
  | none => simpa [asksEngine] using hdirect

/-- The transaction succeeds on every code that is not negative. -/
theorem amuSubmitTransaction_asked (errno : IoErrno → ℕ+) (herrors : errBitmap ≠ 0)
    (hzero : amuSubmitTransaction errno .read none errBitmap ecc = 0) :
    0 ≤ submitEccTask errno ecc := by
  by_contra hnegative
  rw [amuSubmitTransaction, if_pos ⟨rfl, herrors⟩, if_pos (not_le.mp hnegative)] at hzero
  omega

/-- Of the five codes only `ETS_OK` gives one that is not negative. -/
theorem status_of_submitEccTask_nonneg (errno : IoErrno → ℕ+)
    {verdict : EccVerdict} (hdefined : verdict.Defined)
    (hcode : 0 ≤ submitEccTask errno (some verdict)) : verdict.status = etsOk := by
  by_contra hne
  have hnospc := (errno .enomem).pos
  have hdec := (errno .ebadmsg).pos
  have hnotsupported := (errno .enosys).pos
  have hio := (errno .eio).pos
  simp only [submitEccTask, if_neg hne] at hcode
  split_ifs at hcode with hnospc' hdec' hnotsupported' hio'
  all_goals try omega
  simp only [EccVerdict.Defined, etsOk, etsDecError, etsNospc, etsNotsupported, etsIoError] at *
  bv_omega

/-- What a run keeps for a thread whose waits all ended in time. -/
structure EccRing.Orderly (ring : EccRing) (tid : Tid) : Prop where
  calm : ring.Calm (fun addr => some addr.1) tid
  verdicts : ring.Verdicts fun addr verdict => addr.1 = tid → verdict.Defined

theorem orderly_eccStep {ring ring' : EccRing} {self : Tid}
    {action : EccAction} (horderly : ring.Orderly self) (haction : action.Orderly self)
    (hstep : eccStep ring action = some ring') : ring'.Orderly self := by
  obtain ⟨hcalm, hverdicts⟩ := horderly
  cases action with
  | submit other place type flash data errBitmap =>
    simp only [eccStep] at hstep
    split at hstep
    · constructor
      · by_cases hother : other = self
        · subst hother
          exact hcalm.post_self rfl hstep
        · apply hcalm.post_other hother _ hstep
          simpa using hother
      · apply hverdicts.post _ hstep
        intro _
        exact EccVerdict.defined_ok _
    · cases hstep
      exact ⟨hcalm, hverdicts⟩
  | dequeue => exact ⟨hcalm.take hstep, hverdicts.take hstep⟩
  | complete addr call verdict => exact ⟨hcalm.reply hstep, hverdicts.reply haction hstep⟩
  | poll => exact ⟨hcalm.poll hstep, hverdicts.poll hstep⟩
  | timeout other => exact ⟨hcalm.expire_other haction hstep, hverdicts.expire hstep⟩
  | resume other => exact ⟨hcalm.resume hstep, hverdicts.resume hstep⟩

/-- As long as no wait of a thread for the engine times out and the engine
answers that thread with codes of the protocol, a read of the thread returns
zero only if its errors were corrected. -/
theorem eccRun_passesGood (errno : IoErrno → ℕ+) (self : Tid)
    (actions : List EccAction) (last : EccRing) (hrun : FreeRun eccStep EccRing.init actions last)
    (horderly : ∀ action ∈ actions, action.Orderly self) : last.PassesGood errno self := by
  have hlast : last.Orderly self := by
    apply (hrun.restrict horderly).invariant
    · intro ring action ring' hring haction hstep
      exact orderly_eccStep hring haction hstep
    · constructor
      · exact calm_empty _ _
      · constructor
        · intro addr _
          exact EccVerdict.defined_ok _
        · simp [EccRing.init, empty]
  constructor
  · intro flash errBitmap ecc hdirect hzero
    exact amuSubmitTransaction_direct errno hdirect hzero
  · intro ret hret hthread herrors hzero
    obtain ⟨hhome, verdict, hverdict, hreply⟩ := hlast.calm.returned ret hret hthread
    have hdefined := hlast.verdicts.returned ret hret verdict hverdict (Option.some.inj hhome)
    have hcode := amuSubmitTransaction_asked errno herrors hzero
    rw [hverdict] at hcode
    exact ⟨verdict, hreply, status_of_submitEccTask_nonneg errno hdefined hcode⟩

/-- One read that the engine corrects while another thread's times out. -/
def benchEccRun : List EccAction :=
  [.submit 0 8 .read none 4096 5, .submit 1 8 .read none 8192 1, .dequeue,
    .dequeue, .timeout 1, .resume 1, .complete (0, 8) 0 ⟨etsOk, 1872⟩, .poll, .resume 0]

theorem eccRun_passesGood_bench :
    ∃ last, FreeRun eccStep EccRing.init benchEccRun last ∧ last.PassesGood (fun _ => 1) 0 := by
  obtain ⟨last, hlast⟩ : ∃ last, runActions eccStep EccRing.init benchEccRun = some last := ⟨_, rfl⟩
  have hrun := freeRun_of_runActions hlast
  exact ⟨last, hrun, eccRun_passesGood (fun _ => 1) 0 benchEccRun last hrun (by decide)⟩

theorem amuSubmitTransaction_timedOut (errno : IoErrno → ℕ+) (errBitmap : BitVec 64) :
    amuSubmitTransaction errno .read none errBitmap none = 0 := by
  have hpos := (errno .etimedout).pos
  have hnonneg : ¬submitEccTask errno none < 0 := by
    rw [submitEccTask]
    omega
  rw [amuSubmitTransaction, if_neg hnonneg, ite_self]

/-- The code of a timeout is positive, so a read whose correction times out
counts as good, with no answer of the engine at all. -/
theorem not_eccRun_passesGood :
    ∃ last, FreeRun eccStep EccRing.init
      [.submit 0 8 .read none 4096 5, .timeout 0, .resume 0] last ∧
      ∀ errno, ¬last.PassesGood errno 0 := by
  obtain ⟨last, hlast, hreturns, hreplies⟩ : ∃ last, runActions eccStep EccRing.init
        [.submit 0 8 .read none 4096 5, .timeout 0, .resume 0] = some last ∧
      last.returns = [⟨0, (0, 8), eccCorrect 4096 5, 0, none⟩] ∧
      last.replies = [] := ⟨_, rfl, rfl, rfl⟩
  refine ⟨last, freeRun_of_runActions hlast, ?_⟩
  intro errno hgood
  have hmem : ⟨0, (0, 8), eccCorrect 4096 5, 0, none⟩ ∈ last.returns := by
    rw [hreturns]
    exact List.mem_singleton_self _
  obtain ⟨verdict, hreply, _⟩ := hgood.2 _ hmem rfl (by decide)
    (amuSubmitTransaction_timedOut errno _)
  rw [hreplies] at hreply
  exact absurd hreply List.not_mem_nil

end Soda
