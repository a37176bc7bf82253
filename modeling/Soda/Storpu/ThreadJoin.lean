import Soda.Core.Runs

/-!
# Exit and join of a thread

Any CPUs and threads, and one thread `e` that exits and is joined.  Each access
of `thread_exit` to the control block of the thread is a step, and so are the
two parts of a switch: `schedule` up to `swapcontext`, and
`finish_thread_switch` on the stack of the next thread, which clears `on_cpu`
and then looks at the state of the previous one.  A CPU changes its thread only
where that thread calls `schedule`.  Which runnable thread is picked is left
open, and so is when a blocked thread is woken: the loops around a wait test
again.
-/

namespace Soda.Storpu

open Function

inductive RunState
  | running
  | blocked
  | exiting
  | dead
  deriving DecidableEq

/-- The places in `thread_exit` and `thread_join`; `user` is all other code. -/
inductive JoinPc
  | user
  | exitLock
  | exitPublish
  | exitSignal
  | exitSignalWake
  | exitUnlock
  | exitUnlockWake
  | exitSchedule
  | exited
  | joinLock
  | joinTest
  | joinWait
  | joinUnlock
  | joinStop
  | joined
  deriving DecidableEq

/-- What `finish_thread_switch` has still to do for the previous thread. -/
inductive FinishStage
  | clearOnCpu
  | checkState
  deriving DecidableEq

/-- The mutex `exitm` and the control block are those of the exiting thread. -/
structure JoinWorld (C T : Type) where
  cur : C → Option T
  finishing : C → Option (T × FinishStage)
  cpu : T → C
  state : T → RunState
  onRq : T → Bool
  onCpu : T → Bool
  pc : T → JoinPc
  exitm : Option T
  contended : Bool
  joiner : Option T

variable {C T : Type} [DecidableEq C] [DecidableEq T]

namespace JoinWorld

def goto (t : T) (pc : JoinPc) (s : JoinWorld C T) : JoinWorld C T :=
  { s with pc := update s.pc t pc }

/-- `mutex_lock(&thread->exitm)`; a thread that fails marks the mutex and tries
again. -/
def lockExitm (t : T) (pc : JoinPc) (s : JoinWorld C T) : JoinWorld C T :=
  if s.exitm = none then ({ s with exitm := some t }).goto t pc
  else { s with contended := true }

/-- The exchange of `mutex_unlock(&thread->exitm)`. -/
def unlockExitm (s : JoinWorld C T) : JoinWorld C T :=
  { s with exitm := none, contended := false }

/-- The next step of `thread_exit` or `thread_join` of thread `t`.  What the
joiner does from `joinStop` on is `thread_reset` and `thread_free`. -/
def advance (e t : T) (s : JoinWorld C T) : Option (JoinWorld C T) :=
  match s.pc t with
  | .user => none
  | .exitLock => some (s.lockExitm t .exitPublish)
  | .exitPublish =>
    some (({ s with
      state := update s.state t .exiting }).goto t .exitSignal)
  | .exitSignal => some (s.goto t .exitSignalWake)
  | .exitSignalWake => some (s.goto t .exitUnlock)
  | .exitUnlock =>
    some (s.unlockExitm.goto t (if s.contended then .exitUnlockWake else .exitSchedule))
  | .exitUnlockWake => some (s.goto t .exitSchedule)
  | .exitSchedule => none
  | .exited => none
  | .joinLock => some (s.lockExitm t .joinTest)
  | .joinTest =>
    if s.state e = .exiting then some (s.goto t .joinUnlock)
    else some (s.unlockExitm.goto t .joinWait)
  | .joinWait => some (s.goto t .joinLock)
  | .joinUnlock => some (s.unlockExitm.goto t .joinStop)
  | .joinStop =>
    some (({ s with
      state := update s.state e .dead }).goto t .joined)
  | .joined => none

/-- `schedule` on CPU `c`, up to `swapcontext`.  A thread that is not running
leaves the run queue. -/
def schedule (c : C) (prev : T) (next : Option T) (s : JoinWorld C T) : JoinWorld C T :=
  { s with
    cur := update s.cur c next
    finishing := update s.finishing c (some (prev, .clearOnCpu))
    onRq := if s.state prev = .running then s.onRq
      else update s.onRq prev false
    onCpu := match next with
      | none => s.onCpu
      | some next => update s.onCpu next true
    pc := if s.pc prev = .exitSchedule then
        update s.pc prev .exited
      else s.pc }

end JoinWorld

/-- `run c` is the next step of the thread on CPU `c`, `block c` its marking as
blocked, and `finish c` a step of `finish_thread_switch`. -/
inductive JoinAction (C T : Type)
  | exit (c : C)
  | join (c : C)
  | run (c : C)
  | block (c : C)
  | schedule (c : C) (next : Option T)
  | idle (c : C) (next : T)
  | finish (c : C)
  | wake (t : T)
  | migrate (t : T) (c : C)

/-- A thread calls `schedule` from other code, where it waits for the mutex or
the condition variable, and at the end of `thread_exit`. -/
def JoinPc.schedules : JoinPc → Bool
  | .user => true
  | .exitLock => true
  | .exitSchedule => true
  | .joinLock => true
  | .joinWait => true
  | .joined => true
  | _ => false

def JoinPc.blocks : JoinPc → Bool
  | .exitSchedule => false
  | pc => pc.schedules

/-- The thread that runs on a CPU, once the switch to it is finished. -/
def JoinWorld.running (s : JoinWorld C T) (c : C) : Option T :=
  if s.finishing c = none then s.cur c else none

/-- The thread on a CPU goes on with its code; a blocked one can only call
`schedule`. -/
def JoinWorld.executing (s : JoinWorld C T) (c : C) : Option T :=
  (s.running c).filter fun t => s.state t ≠ .blocked

def joinStep (e : T) (s : JoinWorld C T) :
    JoinAction C T → Option (JoinWorld C T)
  | .exit c =>
    if s.executing c = some e ∧ s.pc e = .user then some (s.goto e .exitLock)
    else none
  | .join c =>
    match s.executing c with
    | some t =>
      -- `thread_join` returns at once for the thread itself or a dead one
      if s.pc t = .user ∧ t ≠ e ∧ s.state e ≠ .dead ∧ s.joiner = none then
        some (({ s with joiner := some t }).goto t .joinLock)
      else none
    | none => none
  | .run c =>
    match s.executing c with
    | some t => s.advance e t
    | none => none
  | .block c =>
    match s.executing c with
    | some t =>
      if (s.pc t).blocks then
        some { s with state := update s.state t .blocked }
      else none
    | none => none
  | .schedule c next =>
    match s.running c with
    | some prev =>
      if (s.pc prev).schedules ∧ next ≠ some prev ∧ ∀ t ∈ next, s.onRq t = true ∧ s.cpu t = c then
        some (s.schedule c prev next)
      else none
    | none => none
  | .idle c next =>
    -- the idle thread gives way
    if s.cur c = none ∧ s.finishing c = none ∧ s.onRq next = true ∧ s.cpu next = c then
      some { s with
        cur := update s.cur c (some next)
        onCpu := update s.onCpu next true }
    else none
  | .finish c =>
    match s.finishing c with
    | some (prev, .clearOnCpu) =>
      some { s with
        finishing := update s.finishing c (some (prev, .checkState))
        onCpu := update s.onCpu prev false }
    | some (_, .checkState) => some { s with finishing := update s.finishing c none }
    | none => none
  | .wake t =>
    if s.state t = .blocked ∧ (s.onRq t = true ∨ s.onCpu t = false) then
      some { s with
        state := update s.state t .running
        onRq := update s.onRq t true }
    else none
  | .migrate t c =>
    if s.onRq t = true ∧ s.onCpu t = false then
      some { s with cpu := update s.cpu t c }
    else none

end Soda.Storpu
