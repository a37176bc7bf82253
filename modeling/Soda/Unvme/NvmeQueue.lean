import Soda.Core.Rings
import Soda.Core.Runs

/-!
# The queue pairs of the host driver

A submission queue and a completion queue of `depth` slots each, shared with
the controller.  The driver writes commands at `sqTail` and rings the tail
doorbell; the controller fetches at its own head as long as that differs from
the doorbell.  The controller posts completion entries at its own tail, with a
phase bit that changes at every wrap, and the driver takes entries as long as
the phase bit at `cqHead` is the one it expects.

The driver counts neither the commands the controller has yet to fetch nor the
wraps of a ring of 65536 slots, and both rings then go wrong.  The condition
`QueuePair.Careful` leaves out exactly the steps where this happens.
-/

namespace Soda.Unvme

open Function

structure NvmeCompletion (R : Type) where
  result : R
  commandId : UInt16
  status : UInt16

/-- The depth of an I/O queue is at most the 16-bit field MQES plus one.
`sqTail`, `lastSqTail` and `cqHead` are 16-bit numbers. -/
structure NvmeQueue where
  depth : ℕ
  sqTail : ℕ
  lastSqTail : ℕ
  cqHead : ℕ
  cqPhase : ℕ
  depth_pos : 0 < depth
  depth_le : depth ≤ 65536

/-- `cqPhase` changes where the 16-bit successor of the head is the depth. -/
def NvmeQueue.updateCqHead (nvmeq : NvmeQueue) : NvmeQueue :=
  let tmp := (nvmeq.cqHead + 1) % 65536
  if tmp = nvmeq.depth then
    { nvmeq with cqHead := 0, cqPhase := nvmeq.cqPhase ^^^ 1 }
  else { nvmeq with cqHead := tmp }

/-- The 16-bit successor of the tail, set back to zero at the depth. -/
def NvmeQueue.nextTail (nvmeq : NvmeQueue) : ℕ :=
  let tail := (nvmeq.sqTail + 1) % 65536
  if tail = nvmeq.depth then 0 else tail

/-- The queue, its memory, and the controller's side of it.  `pending` marks
the submission slots whose entry was not fetched yet, `found` is the local of
a running `nvme_irq`, and the lists record what happened: `overruns` has the
commands that were overwritten before they were fetched. -/
structure QueuePair (C R : Type) where
  queue : NvmeQueue
  sq : ℕ → Option C
  pending : ℕ → Bool
  cq : ℕ → NvmeCompletion R
  sqDoorbell : ℕ
  cqDoorbell : ℕ
  sqHead : ℕ
  cqTail : ℕ
  postPhase : ℕ
  found : Option ℕ
  submitted : List C
  fetched : List C
  overruns : List C
  posted : List (NvmeCompletion R)
  consumed : List (NvmeCompletion R)

variable {C R : Type}

namespace QueuePair

/-- After `init_queue`: the completion queue is cleared. -/
def initQueue (depth : ℕ) (hpos : 0 < depth) (hle : depth ≤ 65536) (zero : R) : QueuePair C R where
  queue := ⟨depth, 0, 0, 0, 1, hpos, hle⟩
  sq := fun _ => none
  pending := fun _ => false
  cq := fun _ => ⟨zero, 0, 0⟩
  sqDoorbell := 0
  cqDoorbell := 0
  sqHead := 0
  cqTail := 0
  postPhase := 1
  found := none
  submitted := []
  fetched := []
  overruns := []
  posted := []
  consumed := []

def writeSqDoorbell (writeSq : Bool) (q : QueuePair C R) : QueuePair C R :=
  if !writeSq && q.queue.nextTail != q.queue.lastSqTail then q
  else
    { q with
      sqDoorbell := q.queue.sqTail
      queue := { q.queue with lastSqTail := q.queue.sqTail } }

/-- The slot at the tail is written whatever it holds. -/
def writeSlot (cmd : C) (q : QueuePair C R) : QueuePair C R :=
  let slot := q.queue.sqTail
  { q with
    sq := update q.sq slot (some cmd)
    pending := update q.pending slot true
    submitted := q.submitted ++ [cmd]
    overruns := if q.pending slot then
      q.overruns ++ (q.sq slot).toList else q.overruns }

def advanceTail (q : QueuePair C R) : QueuePair C R :=
  { q with queue := { q.queue with sqTail := q.queue.nextTail } }

def submitSqCommand (cmd : C) (writeSq : Bool) (q : QueuePair C R) : QueuePair C R :=
  ((q.writeSlot cmd).advanceTail).writeSqDoorbell writeSq

def cqePending (q : QueuePair C R) : Bool :=
  ((q.cq q.queue.cqHead).status &&& 1).toNat == q.queue.cqPhase

/-- One round of the loop of `nvme_irq`, which hands the entry at the head to
`handle_cqe`, or the end of the loop. -/
def nvmeIrqRound (found : ℕ) (q : QueuePair C R) : QueuePair C R :=
  if q.cqePending then
    { q with
      consumed := q.consumed ++ [q.cq q.queue.cqHead]
      queue := q.queue.updateCqHead
      found := some (found + 1) }
  else if found = 0 then { q with found := none }
  else { q with found := none, cqDoorbell := q.queue.cqHead }

def fetch (q : QueuePair C R) : QueuePair C R :=
  { q with
    fetched := q.fetched ++ (q.sq q.sqHead).toList
    pending := update q.pending q.sqHead false
    sqHead := (q.sqHead + 1) % q.queue.depth }

def post (cqe : NvmeCompletion R) (q : QueuePair C R) : QueuePair C R :=
  { q with
    cq := update q.cq q.cqTail cqe
    posted := q.posted ++ [cqe]
    cqTail := (q.cqTail + 1) % q.queue.depth
    postPhase := if q.cqTail + 1 = q.queue.depth then
      q.postPhase ^^^ 1 else q.postPhase }

end QueuePair

inductive QueueAction (C R : Type)
  | submit (cmd : C) (writeSq : Bool)
  | fetch
  | post (cqe : NvmeCompletion R)
  | irq
  | irqRound

/-- The controller fetches while its head differs from the tail doorbell, and
posts while its tail would not reach the head doorbell.  Interrupts of one
queue are handled one after the other. -/
def queueStep (q : QueuePair C R) :
    QueueAction C R → Option (QueuePair C R)
  | .submit cmd writeSq => some (q.submitSqCommand cmd writeSq)
  | .fetch => if q.sqHead = q.sqDoorbell then none else some q.fetch
  | .post cqe =>
    if (q.cqTail + 1) % q.queue.depth ≠ q.cqDoorbell ∧ (cqe.status &&& 1).toNat = q.postPhase then
      some (q.post cqe)
    else none
  | .irq =>
    match q.found with
    | none => some { q with found := some 0 }
    | some _ => none
  | .irqRound => q.found.map fun found => q.nvmeIrqRound found

namespace QueuePair

/-- A command is submitted only while fewer than `depth` commands wait to be
fetched, and in a ring of 65536 slots the entry in the last slot is never
taken. -/
def Careful (q : QueuePair C R) : QueueAction C R → Prop
  | .submit _ _ => q.submitted.length - q.fetched.length < q.queue.depth
  | .irqRound => ¬(q.cqePending ∧ q.queue.depth = 65536 ∧ q.queue.cqHead = 65535)
  | _ => True

/-- No command was overwritten before it was fetched, the entries taken are
the first ones posted, in order, and the test of `nvme_irq` succeeds exactly
while there are more.  Fewer than `depth` of them can wait, so its loop ends,
and it returns when it has taken every entry. -/
def InOrder (q : QueuePair C R) : Prop :=
  q.overruns = [] ∧ q.consumed <+: q.posted ∧ q.posted.length < q.consumed.length + q.queue.depth ∧
    (q.cqePending ↔ q.consumed.length < q.posted.length)

end QueuePair

end Soda.Unvme
