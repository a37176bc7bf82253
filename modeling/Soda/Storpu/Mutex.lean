import Soda.Core.Runs

/-!
# The futex mutex and the condition variable

One mutex and one condition variable that is used under it, for any threads.
Each atomic operation on a lock word is a step, and so is each section under a
futex queue lock: the test of the word that puts a thread to sleep, and the
wake-up of sleepers.  A thread that was put on a queue still has to call
`schedule`, which takes it off its CPU only if it was not woken by then.
-/

namespace Soda.Storpu

open Function

inductive MutexState
  | unlocked
  | lockedUncontended
  | lockedContended
  deriving DecidableEq

/-- What `cond_pulse` is called for. -/
inductive CondPulse
  | signal
  | broadcast
  deriving DecidableEq

/-- The count `cond_pulse` is called with, `UINT_MAX` for a broadcast. -/
def CondPulse.count : CondPulse → ℕ
  | .signal => 1
  | .broadcast => 4294967295

/-- Where a thread is.  `old` is the value of the condition variable that
`cond_wait` has read; `wakeOne` is the end of `mutex_unlock`, which goes on in
`cond_wait` where it has such a value. -/
inductive LockPc
  | outside
  | trylock
  | exchange
  | futexWait
  | sched
  | asleep
  | holding
  | waitUnlock (old : ℕ)
  | wakeOne (old : Option ℕ)
  | condFutexWait (old : ℕ)
  | condSched
  | condAsleep
  | pulse (kind : CondPulse)
  deriving DecidableEq

namespace LockPc

/-- Between a successful `mutex_lock` and the exchange of `mutex_unlock`. -/
def holds : LockPc → Bool
  | .holding => true
  | .waitUnlock _ => true
  | .pulse _ => true
  | _ => false

def resume : LockPc → LockPc
  | .asleep => .exchange
  | .condAsleep => .trylock
  | pc => pc

def unlocked : Option ℕ → LockPc
  | none => .outside
  | some old => .condFutexWait old

/-- In `cond_wait`, from the load to the end of `futex_wait`. -/
def waits : LockPc → Bool
  | .waitUnlock _ => true
  | .wakeOne (some _) => true
  | .condFutexWait _ => true
  | .condSched => true
  | .condAsleep => true
  | _ => false

end LockPc

/-- `blocked` is the state `THREAD_BLOCKED`.  The last five fields only record
what happened: the signals and broadcasts made, those that are finished, those
made when the last broadcast was finished, those made when a thread entered
`cond_wait`, and for a thread that went to sleep there the finished ones plus
the sleepers before it. -/
structure LockWorld (T : Type) where
  mutex : MutexState
  mutexQueue : List T
  condState : ℕ
  condQueue : List T
  blocked : T → Bool
  pc : T → LockPc
  pulses : ℕ
  finished : ℕ
  lastBroadcast : ℕ
  entered : T → ℕ
  place : T → ℕ

variable {T : Type} [DecidableEq T]

namespace LockWorld

def init : LockWorld T where
  mutex := .unlocked
  mutexQueue := []
  condState := 0
  condQueue := []
  blocked := fun _ => false
  pc := fun _ => .outside
  pulses := 0
  finished := 0
  lastBroadcast := 0
  entered := fun _ => 0
  place := fun _ => 0

def goto (t : T) (pc : LockPc) (s : LockWorld T) : LockWorld T :=
  { s with pc := update s.pc t pc }

/-- `wake_up_thread`: a blocked thread is runnable again, and goes on if it was
off its CPU. -/
def wakeUpThread (t : T) (s : LockWorld T) : LockWorld T :=
  if s.blocked t then
    { s with
      blocked := update s.blocked t false
      pc := update s.pc t (s.pc t).resume }
  else s

def wakeUpThreads (ts : List T) (s : LockWorld T) : LockWorld T :=
  ts.foldl (fun s t => s.wakeUpThread t) s

def mutexWake (count : ℕ) (s : LockWorld T) : LockWorld T :=
  ({ s with mutexQueue := s.mutexQueue.drop count }).wakeUpThreads (s.mutexQueue.take count)

def condWake (count : ℕ) (s : LockWorld T) : LockWorld T :=
  ({ s with condQueue := s.condQueue.drop count }).wakeUpThreads (s.condQueue.take count)

def mutexTrylock (t : T) (s : LockWorld T) : LockWorld T :=
  if s.mutex = .unlocked then
    ({ s with mutex := MutexState.lockedUncontended }).goto t .holding
  else s.goto t .exchange

/-- The exchange in the loop of `mutex_lock`. -/
def mutexExchange (t : T) (s : LockWorld T) : LockWorld T :=
  ({ s with mutex := MutexState.lockedContended }).goto t
    (if s.mutex = MutexState.unlocked then .holding else .futexWait)

def mutexFutexWait (t : T) (s : LockWorld T) : LockWorld T :=
  if s.mutex = .lockedContended then
    ({ s with
      blocked := update s.blocked t true
      mutexQueue := s.mutexQueue ++ [t] }).goto t .sched
  else s.goto t .exchange

/-- The exchange of `mutex_unlock`, which goes on in `cond_wait` where `old` is
given. -/
def mutexUnlock (t : T) (old : Option ℕ) (s : LockWorld T) : LockWorld T :=
  ({ s with mutex := MutexState.unlocked }).goto t
    (if s.mutex = MutexState.lockedContended then .wakeOne old
    else .unlocked old)

def mutexUnlockWake (t : T) (old : Option ℕ) (s : LockWorld T) : LockWorld T :=
  (s.mutexWake 1).goto t (.unlocked old)

def condFutexWait (t : T) (old : ℕ) (s : LockWorld T) : LockWorld T :=
  if s.condState = old then
    ({ s with
      blocked := update s.blocked t true
      condQueue := s.condQueue ++ [t]
      place := update s.place t (s.finished + s.condQueue.length) }).goto t .condSched
  else s.goto t .trylock

/-- `__atomic_fetch_add` of `cond_pulse`. -/
def condPulse (t : T) (kind : CondPulse) (s : LockWorld T) : LockWorld T :=
  ({ s with
    condState := (s.condState + 4) % 4294967296
    pulses := s.pulses + 1 }).goto t (.pulse kind)

def condPulseWake (t : T) (kind : CondPulse) (s : LockWorld T) : LockWorld T :=
  ({ s.condWake kind.count with
    finished := s.finished + 1
    lastBroadcast := if kind = CondPulse.broadcast then s.pulses
      else s.lastBroadcast }).goto t .holding

def advance (t : T) (s : LockWorld T) : Option (LockWorld T) :=
  match s.pc t with
  | .outside => none
  | .trylock => some (s.mutexTrylock t)
  | .exchange => some (s.mutexExchange t)
  | .futexWait => some (s.mutexFutexWait t)
  | .sched => some (s.goto t (if s.blocked t then .asleep else .exchange))
  | .asleep => none
  | .holding => none
  | .waitUnlock old => some (s.mutexUnlock t (some old))
  | .wakeOne old => some (s.mutexUnlockWake t old)
  | .condFutexWait old => some (s.condFutexWait t old)
  | .condSched => some (s.goto t (if s.blocked t then .condAsleep else .trylock))
  | .condAsleep => none
  | .pulse kind => some (s.condPulseWake t kind)

/-- Blocked in the `futex_wait` of `mutex_lock`, off its CPU or not yet. -/
def SleepsInLock (s : LockWorld T) (t : T) : Prop :=
  s.pc t = .asleep ∨ s.pc t = .sched ∧ s.blocked t = true

/-- Blocked in the `futex_wait` of `cond_wait`, off its CPU or not yet. -/
def SleepsInWait (s : LockWorld T) (t : T) : Prop :=
  s.pc t = .condAsleep ∨ s.pc t = .condSched ∧ s.blocked t = true

end LockWorld

/-- What a thread calls, or `go` for the next step of what it has called. -/
inductive LockAction (T : Type)
  | lock (t : T)
  | unlock (t : T)
  | wait (t : T)
  | signal (t : T)
  | broadcast (t : T)
  | go (t : T)

def LockAction.thread : LockAction T → T
  | .lock t => t
  | .unlock t => t
  | .wait t => t
  | .signal t => t
  | .broadcast t => t
  | .go t => t

/-- The condition variable is used under the mutex. -/
def lockStep (s : LockWorld T) : LockAction T → Option (LockWorld T)
  | .lock t => if s.pc t = .outside then some (s.goto t .trylock) else none
  | .unlock t => if s.pc t = .holding then some (s.mutexUnlock t none) else none
  | .wait t =>
    if s.pc t = .holding then
      some ({ s with
        entered := update s.entered t s.pulses }.goto t (.waitUnlock s.condState))
    else none
  | .signal t => if s.pc t = .holding then some (s.condPulse t .signal) else none
  | .broadcast t =>
    if s.pc t = .holding then some (s.condPulse t .broadcast) else none
  | .go t => s.advance t

end Soda.Storpu
