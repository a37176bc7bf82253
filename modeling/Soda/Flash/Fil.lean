import Soda.Core.Runs
import Soda.Core.TaskRing
import Soda.Ftl.State

/-!
# Flash transactions between the two processors

`submit_flash_transaction` writes a transaction into the slot of the calling
thread, hands the slot to the flash processor through a ring and waits for
three seconds.  If the wait times out it hands over a request for a dump, in
one more slot that all threads share, and waits again.  The flash processor
answers in the slot, in any order, and the main loop wakes the thread that the
slot names.

A run interleaves the threads, the main loop, the timer and the flash
processor.  Between two of these steps nothing else can see the slots: threads
give up the processor only in a wait, and the main loop polls between two
passes over the threads.
-/

namespace Soda

open Option

inductive IoErrno
  | eio | enomem | ebadmsg | enosys | etimedout
  deriving DecidableEq, Repr

inductive FilTaskType
  | read | write | erase | dump
  deriving DecidableEq, Repr

inductive FilTaskSource
  | userIo | mapping | gc
  deriving DecidableEq, Repr

inductive FilStatus
  | ok | error
  deriving DecidableEq, Repr

/-- The fields of `struct fil_task` that the FTL sets. -/
structure FilRequest where
  addr : FlashAddress
  type : FilTaskType
  source : FilTaskSource
  data : BitVec 64
  offset : BitVec 32
  length : BitVec 32
  codeBuf : BitVec 64
  codeLength : BitVec 32
  deriving DecidableEq, Repr

/-- The fields of `struct fil_task` that the flash processor sets. -/
structure FilVerdict where
  status : FilStatus
  totalXferUs : BitVec 32
  totalExecUs : BitVec 32
  errBitmap : BitVec 64
  deriving DecidableEq, Repr

namespace FilVerdict

def blank : FilVerdict := ⟨.ok, 0, 0, 0⟩

end FilVerdict

/-- The request that `dump_fil` leaves after `memset`. -/
def FilRequest.dump : FilRequest where
  addr := ⟨⟨0, 0, 0, 0⟩, 0, 0⟩
  type := .dump
  source := .userIo
  data := 0
  offset := 0
  length := 0
  codeBuf := 0
  codeLength := 0

/-- Slots are numbered by thread, and the slot after the last thread is the
one for dumps. -/
abbrev FilRing := TaskRing ℕ Tid FilRequest FilVerdict

def FilRing.init : FilRing := TaskRing.empty FilRequest.dump FilVerdict.blank

/-- `task->status == FTS_ERROR ? EIO : 0`. -/
def FilStatus.code : FilStatus → Option IoErrno
  | ok => none
  | error => some .eio

/-- `notify_task_complete` for a task that is answered in the same turn. -/
def notifyTaskComplete (ring : FilRing) (slot : ℕ) (status : FilStatus) : Option FilRing :=
  ring.reply slot (ring.task slot).call { (ring.task slot).verdict with status := status }

/-- One turn of `dequeue_requests`, with the range check of
`tsu_process_task`.  A task that passes it is queued and answered later. -/
def dequeueRequest (g : Geometry) (ring : FilRing) : Option FilRing :=
  match ring.avail with
  | [] => none
  | slot :: _ =>
    let request := (ring.task slot).request
    ring.take.bind fun taken =>
      if request.type = .dump then notifyTaskComplete taken slot .ok
      else if g.nrChannels ≤ request.addr.planeAddr.channel ∨
          g.chipsPerChannel ≤ request.addr.planeAddr.chip then
        notifyTaskComplete taken slot .error
      else some taken

inductive FilAction
  | submit (self : Tid) (txn : FilRequest)
  | dequeue
  | complete (slot call : ℕ) (verdict : FilVerdict)
  | poll
  | timeout (self : Tid)
  | resume (self : Tid)
  deriving DecidableEq

/-- `submit_flash_transaction` once its wait is over: a timeout of the wait
for the transaction makes it ask for a dump and wait for that. -/
def resumeSubmit (nrThreads : ℕ) (self : Tid) (ring : FilRing) : Option FilRing :=
  (ring.wait self).bind fun wait =>
    (ring.resume self).bind fun resumed =>
      if wait.addr ≠ nrThreads ∧ wait.timedOut then
        resumed.post FilVerdict.blank self nrThreads FilRequest.dump
      else some resumed

def filStep (g : Geometry) (nrThreads : ℕ) (ring : FilRing) :
    FilAction → Option FilRing
  | .submit self txn =>
    -- The second condition is the assertion at the start of the function.
    if self < nrThreads ∧ (txn.type = .erase ∨ 0 < txn.length) then
      ring.post FilVerdict.blank self self txn
    else none
  | .dequeue => dequeueRequest g ring
  | .complete slot call verdict => ring.reply slot call verdict
  | .poll => ring.poll
  | .timeout self => ring.expire self
  | .resume self => resumeSubmit nrThreads self ring

/-- What a return of `submit_flash_transaction` leaves with the caller: the
code and, unless the wait timed out, the fields copied from the slot. -/
structure FilResult where
  code : Option IoErrno
  copied : Option (BitVec 32 × BitVec 32 × BitVec 64)
  deriving DecidableEq, Repr

def filResult : Option FilVerdict → FilResult
  | none => ⟨some .etimedout, none⟩
  | some verdict =>
    ⟨verdict.status.code, some (verdict.totalXferUs, verdict.totalExecUs, verdict.errBitmap)⟩

namespace FilRing

/-- Every wait of the thread for a transaction that ended without a timeout
leaves the caller with the flash processor's verdict on that transaction. -/
def Delivers (nrThreads : ℕ) (ring : FilRing) (self : Tid) : Prop :=
  ∀ ret ∈ ring.returns, ret.thread = self → ret.addr ≠ nrThreads →
    (filResult ret.verdict).code ≠ some .etimedout → ∃ verdict, (ret.call, verdict) ∈ ring.replies ∧
      filResult ret.verdict = filResult (some verdict)

/-- The thread never wrote into a slot the flash processor had. -/
def KeepsSlots (ring : FilRing) (self : Tid) : Prop :=
  ∀ overwrite ∈ ring.overwrites, overwrite.1 ≠ self

end FilRing

def slotHome (nrThreads : ℕ) (slot : ℕ) : Option Tid :=
  if slot < nrThreads then some slot else none

variable {nrThreads : ℕ} {self : Tid} {ring ring' : FilRing}

theorem slotHome_of_lt (hself : self < nrThreads) : slotHome nrThreads self = some self :=
  if_pos hself

/-- The slot for dumps belongs to nobody. -/
theorem slotHome_dump (nrThreads : ℕ) : slotHome nrThreads nrThreads = none :=
  if_neg (lt_irrefl nrThreads)

theorem calm_dequeueRequest {g : Geometry} {home : ℕ → Option Tid} (hcalm : ring.Calm home self)
    (hdequeue : dequeueRequest g ring = some ring') : ring'.Calm home self := by
  rw [dequeueRequest] at hdequeue
  split at hdequeue
  · simp at hdequeue
  rw [bind_eq_some_iff] at hdequeue
  obtain ⟨taken, htake, hrest⟩ := hdequeue
  have htaken := hcalm.take htake
  split at hrest
  · exact htaken.reply hrest
  · split at hrest
    · exact htaken.reply hrest
    · exact some.inj hrest ▸ htaken

/-- A thread that asks for a dump has timed out, so it is not the calm one. -/
theorem calm_resumeSubmit {other : Tid} (hcalm : ring.Calm (slotHome nrThreads) self)
    (hresume : resumeSubmit nrThreads other ring = some ring') :
    ring'.Calm (slotHome nrThreads) self := by
  rw [resumeSubmit, bind_eq_some_iff] at hresume
  obtain ⟨wait, hwait, hresume⟩ := hresume
  rw [bind_eq_some_iff] at hresume
  obtain ⟨resumed, hresumed, hrest⟩ := hresume
  have hcalmed := hcalm.resume hresumed
  split at hrest
  · next htimedOut =>
    have hother : other ≠ self := by
      intro heq
      subst heq
      have hinTime := (hcalm.busy wait hwait).inTime
      rw [htimedOut.2] at hinTime
      exact absurd hinTime (by decide)
    apply hcalmed.post_other hother _ hrest
    rw [slotHome_dump]
    simp
  · exact some.inj hrest ▸ hcalmed

theorem calm_filStep {g : Geometry} {action : FilAction}
    (hcalm : ring.Calm (slotHome nrThreads) self) (hinTime : action ≠ .timeout self)
    (hstep : filStep g nrThreads ring action = some ring') :
    ring'.Calm (slotHome nrThreads) self := by
  cases action with
  | submit other txn =>
    rw [filStep] at hstep
    split at hstep
    · next hguard =>
      have hhome := slotHome_of_lt hguard.1
      by_cases hother : other = self
      · subst hother
        exact hcalm.post_self hhome hstep
      · apply hcalm.post_other hother _ hstep
        rw [hhome]
        simpa using hother
    · simp at hstep
  | dequeue => exact calm_dequeueRequest hcalm hstep
  | complete slot call verdict => exact hcalm.reply hstep
  | poll => exact hcalm.poll hstep
  | timeout other =>
    have hother : other ≠ self := fun heq => hinTime (heq ▸ rfl)
    exact hcalm.expire_other hother hstep
  | resume other => exact calm_resumeSubmit hcalm hstep

/-- As long as no wait of a thread for the flash processor times out, whatever
happens to the other threads, the thread's transactions return the verdicts
given on them and the thread leaves alone what the flash processor has. -/
theorem filRun_delivers (g : Geometry) (nrThreads : ℕ) (self : Tid)
    (actions : List FilAction) (last : FilRing)
    (hrun : FreeRun (filStep g nrThreads) FilRing.init actions last)
    (hinTime : ∀ action ∈ actions, action ≠ .timeout self) :
    last.Delivers nrThreads self ∧ last.KeepsSlots self := by
  have hcalm : last.Calm (slotHome nrThreads) self := by
    apply (hrun.restrict hinTime).invariant
    · intro ring action ring' hcalm haction hstep
      exact calm_filStep hcalm haction hstep
    · exact TaskRing.calm_empty _ _
  constructor
  · intro ret hret hthread _ _
    obtain ⟨_, verdict, heq, hreply⟩ := hcalm.returned ret hret hthread
    exact ⟨verdict, hreply, by rw [heq]⟩
  · exact hcalm.intact

def benchRead : FilRequest :=
  { FilRequest.dump with type := .read, length := 4096 }

def benchFilRun : List FilAction :=
  [.submit 0 benchRead, .submit 1 benchRead, .dequeue, .dequeue, .complete 1 1 ⟨.ok, 7, 9, 3⟩,
    .complete 0 0 ⟨.error, 7, 9, 0⟩, .timeout 1, .poll, .poll, .resume 0]

theorem filRun_delivers_bench :
    ∃ last, FreeRun (filStep benchGeometry 2) FilRing.init benchFilRun last ∧
      last.Delivers 2 0 ∧ last.KeepsSlots 0 := by
  obtain ⟨last, hlast⟩ : ∃ last, runActions (filStep benchGeometry 2) FilRing.init benchFilRun =
        some last := ⟨_, rfl⟩
  have hrun := freeRun_of_runActions hlast
  exact ⟨last, hrun, filRun_delivers benchGeometry 2 0 benchFilRun last hrun (by decide)⟩

/-- The first read times out while the flash processor has it.  The second
one is written over it, and is woken by the answer to the first. -/
def lateReplyRun : List FilAction :=
  [.submit 0 benchRead, .dequeue, .timeout 0, .resume 0, .dequeue, .poll,
    .resume 0, .submit 0 benchRead, .complete 0 0 ⟨.ok, 7, 9, 3⟩, .poll, .resume 0]

theorem not_filRun_delivers :
    ∃ last, FreeRun (filStep benchGeometry 1) FilRing.init lateReplyRun last ∧
      ¬last.Delivers 1 0 ∧ ¬last.KeepsSlots 0 := by
  obtain ⟨last, hlast, hreturns, hreplies, hoverwrites⟩ : ∃ last,
      runActions (filStep benchGeometry 1) FilRing.init lateReplyRun = some last ∧
      last.returns.head? = some ⟨0, 0, benchRead, 2, some ⟨.ok, 7, 9, 3⟩⟩ ∧
      last.replies.map Prod.fst = [0, 1] ∧ last.overwrites = [(0, 0)] := ⟨_, rfl, rfl, rfl, rfl⟩
  refine ⟨last, freeRun_of_runActions hlast, ?_, ?_⟩
  · intro hdelivers
    obtain ⟨verdict, hreply, _⟩ :=
      hdelivers _ (List.mem_of_mem_head? hreturns) rfl (by decide) (by decide)
    have hcall := List.mem_map_of_mem (f := Prod.fst) hreply
    rw [hreplies] at hcall
    simp at hcall
  · intro hkeeps
    exact hkeeps (0, 0) (by rw [hoverwrites]; exact List.mem_singleton_self _) rfl

end Soda
