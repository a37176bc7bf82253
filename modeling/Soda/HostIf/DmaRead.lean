import Soda.Core.Pool
import Soda.Flash.Fil

/-!
# Reads of host memory

`pcie_do_dma_iter` cuts a read into requests, takes an entry of the request
table for each, hands up to sixteen of them to the receive engine and waits
until all have completed.  Completions come by interrupt.  They share a
counter and an error flag for each thread, and they name an entry of the table
but not the command they belong to.

`issue` numbers the commands handed to the engine.  The numbers, the results
the engine gave, the entries of the current batch and whether one of them
failed are kept in the state only to say what happened.
-/

namespace Soda

open Function Prog

def tagMax : ℕ := 64

def rqBufferMax : ℕ := 16

structure Iovec where
  base : ℕ
  len : ℕ

/-- `struct rq_queue_entry` with a thread. -/
structure RqEntry where
  thread : Tid
  rxBuf : ℕ
  rxCount : ℕ
  completed : Bool
  issue : Option ℕ

/-- `struct rq_buffer_desc` of a read: its tag and what its header holds. -/
structure RqBuffer where
  tag : ℕ
  addr : ℕ
  byteCount : ℕ

structure DmaReturn where
  thread : Tid
  code : Option IoErrno
  issued : List ℕ

structure DmaState where
  rqQueue : ℕ → Option RqEntry
  rqesInUsed : ℕ
  rxfifoAvail : ℕ
  pendingRcs : Tid → ℕ
  rcError : Tid → Bool
  sent : List (ℕ × ℕ)
  issues : ℕ
  results : List (ℕ × Bool)
  batch : Tid → List ℕ
  failed : Tid → Bool
  returns : List DmaReturn

inductive DmaWait
  /-- Interrupts are enabled. -/
  | irq
  | rqQueue
  | rxfifo (bytes : ℕ)
  | cpl

/-- A wait ends with `true` if it timed out. -/
abbrev DmaM := Prog DmaState DmaWait Bool Fault

namespace DmaState

def init (rxfifoAvail : ℕ) : DmaState where
  rqQueue := fun _ => none
  rqesInUsed := 0
  rxfifoAvail := rxfifoAvail
  pendingRcs := fun _ => 0
  rcError := fun _ => false
  sent := []
  issues := 0
  results := []
  batch := fun _ => []
  failed := fun _ => false
  returns := []

def freeTag (s : DmaState) : Option ℕ := (List.range tagMax).find? fun tag => (s.rqQueue tag).isNone

/-- The entry that `setup_rq` fills in. -/
def setup (self tag buf rxCount : ℕ) (s : DmaState) : DmaState :=
  { s with
    rqQueue := update s.rqQueue tag (some ⟨self, buf, rxCount, false, none⟩)
    rqesInUsed := s.rqesInUsed + 1 }

/-- `pending_rcs` and `rc_error` before a batch is sent. -/
def begin (self : Tid) (tags : List ℕ) (s : DmaState) : DmaState :=
  { s with
    pendingRcs := update s.pendingRcs self tags.length
    rcError := update s.rcError self false
    batch := update s.batch self tags
    failed := update s.failed self false }

/-- `nvme_pcie_send_rxcmd`. -/
def send (buf : RqBuffer) (s : DmaState) : DmaState :=
  { s with
    rxfifoAvail := s.rxfifoAvail - buf.byteCount
    rqQueue := update s.rqQueue buf.tag
      ((s.rqQueue buf.tag).map fun entry =>
        { entry with issue := some s.issues })
    sent := s.sent ++ [(buf.tag, s.issues)]
    issues := s.issues + 1 }

def completeRq (tag : ℕ) (s : DmaState) : DmaState :=
  { s with
    rqQueue := update s.rqQueue tag none
    rqesInUsed := s.rqesInUsed - 1 }

def finish (self : Tid) (s : DmaState) : DmaState :=
  { s with batch := update s.batch self [] }

def rxDmaCallback (tag : ℕ) (error : Bool) (s : DmaState) : DmaState :=
  match s.rqQueue tag with
  | none => s
  | some entry =>
    if entry.completed then s
    else
      { s with
        rxfifoAvail := s.rxfifoAvail + entry.rxCount
        rcError := update s.rcError entry.thread error
        rqQueue := update s.rqQueue tag (some { entry with completed := true })
        pendingRcs := update s.pendingRcs entry.thread (s.pendingRcs entry.thread - 1)
        failed := update s.failed entry.thread (s.failed entry.thread || error) }

end DmaState

structure RxCompletion where
  tag : ℕ
  issue : ℕ
  error : Bool
  deriving DecidableEq

def DmaState.complete (event : RxCompletion) (s : DmaState) : DmaState :=
  { s with
    sent := s.sent.erase (event.tag, event.issue)
    results := (event.issue, event.error) :: s.results
    }.rxDmaCallback event.tag event.error

/-- `choice` is whether a wait for completions times out.  The other waits are
loops around a condition, and end when it holds. -/
def dmaMachine : Machine Tid DmaState DmaWait Bool Bool RxCompletion where
  answer self wait s choice :=
    match wait with
    | .irq => some (false, s)
    | .rqQueue => if s.rqesInUsed ≠ tagMax then some (false, s) else none
    | .rxfifo bytes => if bytes ≤ s.rxfifoAvail then some (false, s) else none
    | .cpl =>
      if choice then some (true, s)
      else if s.pendingRcs self = 0 then some (false, s)
      else none
  event s event :=
    if (event.tag, event.issue) ∈ s.sent then some (s.complete event)
    else none

/-! ### The program -/

def setupRq (self buf rxCount : ℕ) (force : Bool) : DmaM (Option ℕ) := do
  let s ← get
  assert .assertion (s.rqesInUsed ≤ tagMax)
  let _ ← if force then await .rqQueue else pure false
  let s ← get
  match s.freeTag with
  | some tag => do
      modify (.setup self tag buf rxCount)
      pure (some tag)
  | none => do
      assert .assertion (!force)
      pure none

/-- `send_rq_packets_rx`, with the numbers of the commands. -/
def sendRqPacketsRx : List RqBuffer → DmaM (List ℕ)
  | [] => pure []
  | buf :: bufs => do
      let _ ← await (.rxfifo buf.byteCount)
      let s ← get
      modify (.send buf)
      let issued ← sendRqPacketsRx bufs
      pure (s.issues :: issued)

def completeAllRqs (self : Tid) : List RqBuffer → DmaM Unit
  | [] => modify (.finish self)
  | buf :: bufs => do
      let s ← get
      assert .assertion ((s.rqQueue buf.tag).map RqEntry.thread = some self)
      assert .assertion (0 < s.rqesInUsed)
      modify (.completeRq buf.tag)
      completeAllRqs self bufs

/-- Send a batch, wait for it and give its entries back. -/
def flushRqs (self : Tid) (bufs : List RqBuffer) : DmaM (Option IoErrno × List ℕ) := do
  modify (.begin self (bufs.map RqBuffer.tag))
  let issued ← sendRqPacketsRx bufs
  let s ← get
  let timedOut ←
    if s.pendingRcs self ≠ 0 then await .cpl else pure false
  let _ ← await .irq
  completeAllRqs self bufs
  let s ← get
  pure (if timedOut then some .etimedout
    else if s.rcError self then some .eio else none, issued)

/-- The loop of `pcie_do_dma_iter` over the requests, and what follows it.
`bufs` are the requests collected so far. -/
def dmaReadLoop (self : Tid) : List (ℕ × ℕ) → ℕ → List RqBuffer → List ℕ →
    DmaM (Option IoErrno × List ℕ)
  | [], _, bufs, issued =>
    if bufs = [] then pure (none, issued)
    else do
      let (code, more) ← flushRqs self bufs
      pure (code, issued ++ more)
  | (buf, chunk) :: chunks, addr, bufs, issued => do
      let tag ← setupRq self buf chunk bufs.isEmpty
      let _ ← await .irq
      match tag with
      | some tag =>
        if rqBufferMax ≤ bufs.length then do
          let (code, more) ← flushRqs self bufs
          if code ≠ none then pure (code, issued ++ more)
          else
            dmaReadLoop self chunks (addr + chunk) [⟨tag, addr, chunk⟩] (issued ++ more)
        else
          dmaReadLoop self chunks (addr + chunk) (bufs ++ [⟨tag, addr, chunk⟩]) issued
      | none => do
          assert .assertion (!bufs.isEmpty)
          let (code, more) ← flushRqs self bufs
          if code ≠ none then pure (code, issued ++ more)
          else do
            let tag ← setupRq self buf chunk true
            match tag with
            | none => fault .assertion
            | some tag =>
              dmaReadLoop self chunks (addr + chunk) [⟨tag, addr, chunk⟩] (issued ++ more)

/-- The pieces in which `pcie_do_dma_iter` reads, with their buffers
(`iov_iter_get_bufaddr` and `iov_iter_consume`).  A round uses up a byte or an
element of the vector. -/
def dmaChunks (maxPayload : ℕ) : (rounds : ℕ) → List Iovec → (offset count : ℕ) → List (ℕ × ℕ)
  | 0, _, _, _ => []
  | rounds + 1, iovs, offset, count =>
    if count = 0 then []
    else
      match iovs with
      | [] =>
        let chunk := min count maxPayload
        (0, chunk) :: dmaChunks maxPayload rounds [] 0 (count - chunk)
      | iov :: rest =>
        let chunk := min (min count maxPayload) (iov.len - offset)
        (iov.base + offset, chunk) :: if offset + chunk = iov.len then
            dmaChunks maxPayload rounds rest 0 (count - chunk)
          else
            dmaChunks maxPayload rounds iovs (offset + chunk) (count - chunk)

structure DmaRead where
  addr : ℕ
  iovs : List Iovec
  count : ℕ

/-- `pcie_do_dma_iter` for a read. -/
def pcieDoDmaIter (maxPayload : ℕ) (self : Tid) (read : DmaRead) : DmaM (Option IoErrno × List ℕ) :=
  dmaReadLoop self (dmaChunks maxPayload (read.count + read.iovs.length) read.iovs 0
      read.count) read.addr [] []

def dmaThread (maxPayload : ℕ) (self : Tid) : List DmaRead → DmaM Unit
  | [] => pure ()
  | read :: reads => do
      let _ ← await .irq
      let (code, issued) ← pcieDoDmaIter maxPayload self read
      modify fun s => { s with returns := ⟨self, code, issued⟩ :: s.returns }
      dmaThread maxPayload self reads

def dmaPool (maxPayload rxfifoAvail : ℕ) (reads : Tid → List DmaRead) :
    Pool Tid DmaState DmaWait Bool Fault where
  shared := .init rxfifoAvail
  thread self := dmaThread maxPayload self (reads self)

/-- One thread that reads some pages of 4096 bytes into one buffer. -/
def benchReads (pages : ℕ) : Tid → List DmaRead := fun self =>
  if self = 0 then [⟨8192, [⟨65536, 4096 * pages⟩], 4096 * pages⟩] else []

def benchMoves : List (Move Tid Bool RxCompletion) :=
  [.resume 0 false, .resume 0 false, .resume 0 false, .resume 0 false,
    .event ⟨0, 0, false⟩, .resume 0 false, .resume 0 false]

end Soda
