import Soda.Core.Llist
import Soda.Core.Runs

/-!
# The request queue of the StorPU

The FTL pushes requests onto `avail_queue`, a lock-less list whose nodes lie in
the requests themselves.  `process_request_queue` takes the whole list and walks
it twice, first for the requests that create and delete contexts, then for the
invocations, unlinking each request it handles.  Answered requests are pushed
onto `used_queue` through the same nodes while the walk goes on.  A successful
invocation is answered by `thread_reap`, once the thread that runs it has
exited and was switched away from.

The rounds of the two loops are steps of their own, so that the FTL can submit
requests and take answers, also at addresses that were just answered, and
threads can exit at any point in between.
-/

namespace Soda.Storpu

open Function

inductive SpuType
  | createContext
  | deleteContext
  | invoke
  deriving DecidableEq

structure SpuTask where
  type : SpuType
  retval : ℕ
  result : ℕ

inductive ThreadState
  | running
  | reapable
  | dead
  deriving DecidableEq

/-- A thread that runs an invocation.  It counts as running while it is
blocked. -/
structure SpuThread (A : Type) where
  task : Option A
  state : ThreadState
  result : ℕ

/-- Where `process_request_queue` is: the locals of the loop it is in, with
`req` the request at the cursor. -/
inductive QueuePhase (A : Type)
  | idle
  | contexts (entry prev req : Option A)
  | invocations (entry prev req : Option A)

def QueuePhase.entry {A : Type} : QueuePhase A → Option A
  | .idle => none
  | .contexts entry _ _ => entry
  | .invocations entry _ _ => entry

/-- How a request was answered: by the queue itself or when its thread was
reaped. -/
inductive Answer
  | atOnce (retval : ℕ)
  | reaped (result : ℕ)

/-- Requests are numbered as they are submitted: `requests` are their types,
`serving` is the number of the request at an address, `started` are the
invocations that got a thread, and `completions` what was put on the completion
queue. -/
structure RequestQueues (A T : Type) where
  next : A → Option A
  task : A → SpuTask
  availQueue : Option A
  usedQueue : Option A
  phase : QueuePhase A
  thread : T → SpuThread A
  requests : List SpuType
  serving : A → Option ℕ
  started : List ℕ
  completions : List (ℕ × Answer)

variable {A T : Type} [DecidableEq A] [DecidableEq T]

namespace RequestQueues

def empty (task : SpuTask) : RequestQueues A T where
  next := fun _ => none
  task := fun _ => task
  availQueue := none
  usedQueue := none
  phase := .idle
  thread := fun _ => ⟨none, .dead, 0⟩
  requests := []
  serving := fun _ => none
  started := []
  completions := []

def enqueueStorpuRequest (addr : A) (type : SpuType) (s : RequestQueues A T) : RequestQueues A T :=
  { s with
    next := update s.next addr s.availQueue
    availQueue := some addr
    task := update s.task addr ⟨type, 0, 0⟩
    requests := s.requests ++ [type]
    serving := update s.serving addr (some s.requests.length) }

/-- The answer is recorded under the number of the request at `addr`. -/
def enqueueStorpuCompletion (addr : A) (answer : Answer)
    (s : RequestQueues A T) : RequestQueues A T :=
  { s with
    next := update s.next addr s.usedQueue
    usedQueue := some addr
    completions := s.completions ++ ((s.serving addr).map fun number => (number, answer)).toList }

/-- `retval` is set and the request put on the completion queue. -/
def answerAtOnce (addr : A) (retval : ℕ) (s : RequestQueues A T) : RequestQueues A T :=
  { s with
    task := update s.task addr { s.task addr with retval := retval }
  }.enqueueStorpuCompletion addr (.atOnce retval)

/-- The pointer to the request at the cursor, in its predecessor or in
`entry`, is set to the one after it. -/
def unlink (entry prev reqNext : Option A) (s : RequestQueues A T) : RequestQueues A T × Option A :=
  match prev with
  | some node => ({ s with next := update s.next node reqNext }, entry)
  | none => (s, reqNext)

/-- `process_invoke_function` found the context and `thread_create` a control
block. -/
def threadCreate (thread : T) (addr : A) (s : RequestQueues A T) : RequestQueues A T :=
  { s with
    thread := update s.thread thread ⟨some addr, .running, 0⟩
    started := s.started ++ (s.serving addr).toList }

/-- One round of the first loop; `retval` is what `process_create_context` or
`process_delete_context` returns. -/
def contextsRound (entry prev : Option A) (req : A) (retval : ℕ)
    (s : RequestQueues A T) : RequestQueues A T :=
  let reqNext := s.next req
  if (s.task req).type = .invoke then
    { s with phase := .contexts entry (some req) reqNext }
  else
    let (s, entry) := s.unlink entry prev reqNext
    { s.answerAtOnce req retval with phase := .contexts entry prev reqNext }

/-- One round of the second loop; `retval` is what `process_invoke_function`
returns, and `thread` the control block it uses where that is 0. -/
def invocationsRound (entry prev : Option A) (req : A) (retval : ℕ)
    (thread : T) (s : RequestQueues A T) : RequestQueues A T :=
  let reqNext := s.next req
  if (s.task req).type = .invoke then
    let (s, entry) := s.unlink entry prev reqNext
    let s := if retval = 0 then s.threadCreate thread req
      else s.answerAtOnce req retval
    { s with phase := .invocations entry prev reqNext }
  else { s with phase := .invocations entry (some req) reqNext }

/-- Takes the list off `avail_queue`, if there is one. -/
def startQueue (s : RequestQueues A T) : RequestQueues A T :=
  match s.availQueue with
  | none => s
  | some first =>
    { s with
      availQueue := none
      phase := .contexts (some first) none (some first) }

/-- One round of the loop that runs, or what follows its end. -/
def queueRound (retval : ℕ) (thread : T) (s : RequestQueues A T) : Option (RequestQueues A T) :=
  match s.phase with
  | .idle => none
  | .contexts entry prev (some req) => some (s.contextsRound entry prev req retval)
  | .contexts none _ none => some { s with phase := .idle }
  | .contexts (some first) _ none =>
    some { s with phase := .invocations (some first) none (some first) }
  | .invocations entry prev (some req) =>
    if retval = 0 ∧ (s.thread thread).state ≠ .dead then none
    else some (s.invocationsRound entry prev req retval thread)
  | .invocations _ _ none => some { s with phase := .idle }

def threadExit (thread : T) (result : ℕ) (s : RequestQueues A T) : RequestQueues A T :=
  { s with
    thread := update s.thread thread
      { s.thread thread with state := .reapable, result := result } }

/-- `thread_reap`; a thread without a request is a failed assertion. -/
def threadReap (thread : T) (s : RequestQueues A T) : Option (RequestQueues A T) :=
  match (s.thread thread).task with
  | none => none
  | some addr =>
    let result := (s.thread thread).result
    let s := { s with
      task := update s.task addr
        { s.task addr with retval := 0, result := result } }
    let s := s.enqueueStorpuCompletion addr (.reaped result)
    some { s with
      thread := update s.thread thread ⟨none, .dead, 0⟩ }

/-- `finish_thread_switch` after `prev` was switched away from. -/
def finishThreadSwitch (prev : T) (s : RequestQueues A T) : Option (RequestQueues A T) :=
  if (s.thread prev).state = .reapable then s.threadReap prev else some s

/-- The FTL takes the list off `used_queue`; `addrs` are the nodes it finds
there, whose requests are over. -/
def dequeueStorpuCompletions (addrs : List A) (s : RequestQueues A T) : RequestQueues A T :=
  { s with
    usedQueue := none
    serving := fun addr => if addr ∈ addrs then none else s.serving addr }

end RequestQueues

inductive RequestAction (A T : Type)
  | submit (addr : A) (type : SpuType)
  | start
  | round (retval : ℕ) (thread : T)
  | exit (thread : T) (result : ℕ)
  | switch (prev : T)
  | collect (addrs : List A)

/-- A request is submitted at an address that serves no other one, and a thread
exits while it runs. -/
def requestStep (s : RequestQueues A T) :
    RequestAction A T → Option (RequestQueues A T)
  | .submit addr type =>
    match s.serving addr with
    | none => some (s.enqueueStorpuRequest addr type)
    | some _ => none
  | .start =>
    match s.phase with
    | .idle => some s.startQueue
    | _ => none
  | .round retval thread => s.queueRound retval thread
  | .exit thread result =>
    if (s.thread thread).state = .running then
      some (s.threadExit thread result)
    else none
  | .switch prev => s.finishThreadSwitch prev
  | .collect addrs =>
    if Linked s.next s.usedQueue addrs then
      some (s.dequeueStorpuCompletions addrs)
    else none

end Soda.Storpu
