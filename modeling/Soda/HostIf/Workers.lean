import Soda.Core.Runs
import Soda.Ftl.State

/-!
# The worker coroutines

The main loop takes entries off the NVMe submission FIFO and tasks off the
StorPU queue and puts them into the command slots of worker coroutines; a
worker without work helps itself from both queues before it goes to sleep.  A
shutdown request comes by interrupt and is served by the first worker before
anything else, even if that leaves its slot filled.

A worker is cut into steps at every point where a shutdown request could make
a difference, and steps of the workers, of the main loop and of the interrupt
handler may alternate in any way.  Real runs are among these: a worker gives
up the processor only while it sleeps, processes a command or shuts down.

`arrival` numbers the entries and tasks in the order in which they come in.
The numbers, the entries taken so far, the completions and the invocations
begun so far are kept in the state only to say what happened.
-/

namespace Soda

open Function

structure Sqe where
  arrival : ℕ
  commandId : ℕ
  /-- The opcode is that of a StorPU invocation. -/
  invoke : Bool
  deriving DecidableEq, Repr

/-- `struct storpu_ftl_task`.  `issuer` is the command whose invocation the
task comes from, if it comes from one. -/
structure StorpuFtlTask where
  arrival : ℕ
  issuer : Option ℕ
  srcCpu : ℕ
  deriving DecidableEq, Repr

inductive Work
  | nvme (qid : ℕ) (sqe : Sqe)
  | storpu (task : StorpuFtlTask)
  deriving DecidableEq, Repr

def Work.arrival : Work → ℕ
  | nvme _ sqe => sqe.arrival
  | storpu task => task.arrival

structure CommandSlot where
  qid : ℕ
  sqe : Sqe
  storpuTask : Option StorpuFtlTask
  valid : Bool

def CommandSlot.work (slot : CommandSlot) : Work :=
  match slot.storpuTask with
  | some task => .storpu task
  | none => .nvme slot.qid slot.sqe

/-- Where a worker is.  `found` is what `nvme_worker_get_work` returned. -/
inductive WorkerPc
  | unstarted
  /-- Before the first look at the shutdown request. -/
  | top
  /-- Before the slot and the queues. -/
  | pick
  | asleep (woken : Bool)
  /-- Before the second look at the shutdown request. -/
  | woke
  /-- Before the slot, after a sleep. -/
  | fetch
  /-- Before the condition of the loop. -/
  | loop (found : Option Work)
  /-- At the head of the loop body. -/
  | body (found : Option Work)
  | shutdown (found : Option Work)
  | process (work : Work)
  /-- Out of the loop. -/
  | left
  /-- A failed assertion, or a command processed that was never read. -/
  | astray
  deriving DecidableEq

structure NvmeState where
  fifo : List (ℕ × Sqe)
  ftlAvail : List StorpuFtlTask
  slot : Tid → CommandSlot
  slotEmpty : Tid → Bool
  workerIdle : Tid → Bool
  shutdownReq : Bool
  pc : Tid → WorkerPc
  arrivals : ℕ
  taken : List Work
  completions : List (Tid × Work)
  started : List ℕ

def shutdownThread : Tid := 0

namespace NvmeState

def init : NvmeState where
  fifo := []
  ftlAvail := []
  slot := fun _ => ⟨0, ⟨0, 0, false⟩, none, false⟩
  slotEmpty := fun _ => false
  workerIdle := fun _ => false
  shutdownReq := false
  pc := fun _ => .unstarted
  arrivals := 0
  taken := []
  completions := []
  started := []

def setPc (w : Tid) (pc : WorkerPc) (s : NvmeState) : NvmeState :=
  { s with pc := update s.pc w pc }

/-- `worker_wake` with `WT_BLOCKED_ON_NVME_SQ`. -/
def wake (w : Tid) (s : NvmeState) : NvmeState :=
  if s.pc w = .asleep false then s.setPc w (.asleep true) else s

/-- The worker that `nvme_worker_dispatch` and `nvme_worker_dispatch_storpu`
choose. -/
def chooseWorker (nrWorkers : ℕ) (s : NvmeState) : Option Tid :=
  match (List.range nrWorkers).find? fun w => s.workerIdle w && s.slotEmpty w with
  | some w => some w
  | none => (List.range nrWorkers).find? s.slotEmpty

/-- Both dispatch functions from the choice of the worker on.  `fill` sets the
fields of the slot. -/
def dispatchTo (fill : CommandSlot → CommandSlot) (w : Tid) (s : NvmeState) : NvmeState :=
  wake w
    { s with
      slot := update s.slot w { fill (s.slot w) with valid := true }
      slotEmpty := update s.slotEmpty w false }

/-- `nvme_worker_dispatch` of the first entry and `nvme_pcie_pop_sqe`. -/
def dispatch (nrWorkers : ℕ) (s : NvmeState) : Option NvmeState :=
  match s.fifo, s.chooseWorker nrWorkers with
  | (qid, sqe) :: rest, some w =>
    if (s.slot w).valid then none
    else some (dispatchTo (fun slot => { slot with qid := qid, sqe := sqe, storpuTask := none })
      w { s with fifo := rest, taken := .nvme qid sqe :: s.taken })
  | _, _ => none

/-- `nvme_worker_dispatch_storpu` of the first task.  A task that finds no
worker is put back. -/
def dispatchStorpu (nrWorkers : ℕ) (s : NvmeState) : Option NvmeState :=
  match s.ftlAvail, s.chooseWorker nrWorkers with
  | task :: rest, some w =>
    if (s.slot w).valid then none
    else some (dispatchTo (fun slot => { slot with storpuTask := some task }) w
      { s with ftlAvail := rest, taken := .storpu task :: s.taken })
  | _, _ => none

def mustShutDown (s : NvmeState) (w : Tid) : Bool := s.shutdownReq && w = shutdownThread

def takeSlot (w : Tid) (s : NvmeState) : NvmeState :=
  setPc w (.loop (some (s.slot w).work))
    { s with
      slot := update s.slot w { s.slot w with valid := false }
      slotEmpty := update s.slotEmpty w true }

/-- `nvme_worker_get_work` between the two looks at the shutdown request. -/
def pick (w : Tid) (s : NvmeState) : NvmeState :=
  if (s.slot w).valid then
    if s.slotEmpty w then s.setPc w .astray else s.takeSlot w
  else if !s.slotEmpty w then s.setPc w .astray
  else
    match s.fifo, s.ftlAvail with
    | (qid, sqe) :: rest, _ =>
      setPc w (.loop (some (.nvme qid sqe)))
        { s with fifo := rest, taken := .nvme qid sqe :: s.taken }
    | [], task :: rest =>
      setPc w (.loop (some (.storpu task)))
        { s with ftlAvail := rest, taken := .storpu task :: s.taken }
    | [], [] => setPc w (.asleep false) { s with workerIdle := update s.workerIdle w true }

def beginWork (w : Tid) (work : Work) (s : NvmeState) : NvmeState :=
  setPc w (.process work) { s with started := work.arrival :: s.started }

def workerStep (w : Tid) (s : NvmeState) : Option NvmeState :=
  match s.pc w with
  | .unstarted => some (setPc w .top { s with slotEmpty := update s.slotEmpty w true })
  | .top => some (s.setPc w (if s.mustShutDown w then .loop none else .pick))
  | .pick => some (s.pick w)
  | .asleep false => none
  | .asleep true => some (setPc w .woke { s with workerIdle := update s.workerIdle w false })
  | .woke => some (s.setPc w (if s.mustShutDown w then .loop none else .fetch))
  | .fetch => some (if (s.slot w).valid then s.takeSlot w else s.setPc w (.loop none))
  | .loop found =>
    some (s.setPc w (if found.isSome || s.mustShutDown w then .body found else .left))
  | .body found =>
    if s.mustShutDown w then some (s.setPc w (.shutdown found))
    else
      match found with
      | some work => some (s.beginWork w work)
      | none => some (s.setPc w .astray)
  | .shutdown found =>
    let s := { s with shutdownReq := false }
    match found with
    | some work => some (s.beginWork w work)
    | none => some (s.setPc w .top)
  | .process work => some (setPc w .top { s with completions := (w, work) :: s.completions })
  | .left => none
  | .astray => none

end NvmeState

inductive NvmeAction
  /-- The host submits an entry. -/
  | submit (qid commandId : ℕ) (invoke : Bool)
  /-- A StorPU thread asks for I/O (`enqueue_storpu_ftl_task`). -/
  | issue (issuer : Option ℕ) (srcCpu : ℕ)
  | dispatch
  | dispatchStorpu
  | requestShutdown
  | work (w : Tid)
  deriving DecidableEq

/-- A task comes from an invocation only after that has begun. -/
def nvmeStep (nrWorkers : ℕ) (s : NvmeState) : NvmeAction → Option NvmeState
  | .submit qid commandId invoke =>
    some { s with
      fifo := s.fifo ++ [(qid, ⟨s.arrivals, commandId, invoke⟩)]
      arrivals := s.arrivals + 1 }
  | .issue issuer srcCpu =>
    if ∀ command ∈ issuer, command ∈ s.started then
      some { s with
        ftlAvail := ⟨s.arrivals, issuer, srcCpu⟩ :: s.ftlAvail
        arrivals := s.arrivals + 1 }
    else none
  | .dispatch => s.dispatch nrWorkers
  | .dispatchStorpu => s.dispatchStorpu nrWorkers
  | .requestShutdown => some (NvmeState.wake shutdownThread { s with shutdownReq := true })
  | .work w => if w < nrWorkers then s.workerStep w else none

end Soda
