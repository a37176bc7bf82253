import Soda.Core.Runs

/-!
# The reader-writer lock

One lock and any threads.  Each atomic operation on the lock word is a step, and
so is each section under the pending mutex or a futex queue lock, up to the
atomic operation on the word that such a section makes.  Readers and writers
run the same code up to a side.
-/

namespace Soda.Storpu

open Function

inductive RwSide
  | reader
  | writer
  deriving DecidableEq

/-! ## The lock word -/

/-- `RWS_PD_READERS` and `RWS_PD_WRITERS`. -/
def rwsPd : RwSide → BitVec 32
  | .writer => 1#32 <<< 0
  | .reader => 1#32 <<< 1

def rcntIncStep : BitVec 32 := 1#32 <<< 2

def rwsWrlocked : BitVec 32 := 1#32 <<< 31

def rwWrlocked (state : BitVec 32) : Bool := (state &&& rwsWrlocked) ≠ 0

def rwRdlocked (state : BitVec 32) : Bool := rcntIncStep.ule state

def canRdlock (state : BitVec 32) : Bool := !rwWrlocked state

/-- The parameter of `__can_wrlock` is an `int`, so the comparison is signed. -/
def canWrlock (state : BitVec 32) : Bool := !(rwWrlocked state && rcntIncStep.sle state)

def RwSide.canLock : RwSide → BitVec 32 → Bool
  | .reader => canRdlock
  | .writer => canWrlock

/-- What a successful compare-and-swap writes. -/
def RwSide.locked : RwSide → BitVec 32 → BitVec 32
  | .reader, state => state + rcntIncStep
  | .writer, state => state ||| rwsWrlocked

/-- `!RW_RDLOCKED(new_state)` in `rwlock_tryrdlock`. -/
def RwSide.overflows : RwSide → BitVec 32 → Bool
  | .reader, state => !rwRdlocked (state + rcntIncStep)
  | .writer, _ => false

/-! ## The threads -/

/-- Where a thread is.  `first` tells the try before the loop; an `unlock` keeps
the side the thread holds the lock on. -/
inductive RwPc
  | outside
  | load (side : RwSide) (first : Bool)
  | cas (side : RwSide) (first : Bool) (old : BitVec 32)
  | check (side : RwSide)
  | pending (side : RwSide)
  | fetchOr (side : RwSide)
  | loadSerial (side : RwSide) (old : BitVec 32)
  | futexWait (side : RwSide) (old : BitVec 32) (serial : ℕ)
  | asleep (side : RwSide)
  | notPending (side : RwSide)
  | fetchAnd (side : RwSide)
  | holding (side : RwSide)
  | unlock (side : RwSide)
  | unlockWriter (side : RwSide)
  | unlockReader (side : RwSide)
  | unlockPending
  | wake (side : RwSide)
  deriving DecidableEq

/-- Between a successful `rdlock` or `wrlock` and the release in `unlock`. -/
def RwPc.holds : RwPc → Option RwSide
  | .holding side => some side
  | .unlock side => some side
  | .unlockWriter side => some side
  | .unlockReader side => some side
  | _ => none

/-- The serials count without wrapping; the source holds their low 32 bits, and
only those are compared. -/
structure RwWorld (T : Type) where
  state : BitVec 32
  pendingMutex : Option T
  pendingCount : RwSide → ℕ
  pendingSerial : RwSide → ℕ
  pendingWq : RwSide → List T
  pc : T → RwPc

variable {T : Type} [DecidableEq T]

namespace RwWorld

def init : RwWorld T where
  state := 0
  pendingMutex := none
  pendingCount := fun _ => 0
  pendingSerial := fun _ => 0
  pendingWq := fun _ => []
  pc := fun _ => .outside

def goto (t : T) (pc : RwPc) (s : RwWorld T) : RwWorld T :=
  { s with pc := update s.pc t pc }

/-- The loop test of `tryrdlock` and `trywrlock` and what follows it. -/
def tryLock (side : RwSide) (first : Bool) (old : BitVec 32) : RwPc :=
  if side.canLock old then
    if side.overflows old then
      -- `EAGAIN`: the call in the loop returns it to the caller
      if first then .load side false else .outside
    else .cas side first old
  else if first then .load side false
  else .check side

/-- A weak compare-and-swap may fail though the values agree; it then leaves
everything as it was. -/
def cas (t : T) (side : RwSide) (first : Bool) (old : BitVec 32) (s : RwWorld T) : RwWorld T :=
  if s.state = old then
    ({ s with state := side.locked old }).goto t (.holding side)
  else s.goto t (tryLock side first s.state)

def check (t : T) (side : RwSide) (s : RwWorld T) : RwWorld T :=
  s.goto t (if side.canLock s.state then .load side false else .pending side)

/-- `mutex_lock(&lock->pending_mutex)` and the count of pending threads. -/
def pending (t : T) (side : RwSide) (s : RwWorld T) : Option (RwWorld T) :=
  if s.pendingMutex = none then
    some (({ s with
      pendingMutex := some t
      pendingCount := update s.pendingCount side
        (s.pendingCount side + 1) }).goto t (.fetchOr side))
  else none

def fetchOr (t : T) (side : RwSide) (s : RwWorld T) : RwWorld T :=
  ({ s with state := s.state ||| rwsPd side }).goto t (.loadSerial side s.state)

/-- The load of the serial and `mutex_unlock(&lock->pending_mutex)`. -/
def loadSerial (t : T) (side : RwSide) (old : BitVec 32) (s : RwWorld T) : RwWorld T :=
  ({ s with pendingMutex := none }).goto t (.futexWait side old (s.pendingSerial side))

def futexWait (t : T) (side : RwSide) (old : BitVec 32) (serial : ℕ) (s : RwWorld T) : RwWorld T :=
  if !side.canLock old && s.pendingSerial side % 4294967296 = serial % 4294967296 then
    ({ s with
      pendingWq := update s.pendingWq side (s.pendingWq side ++ [t]) }).goto t (.asleep side)
  else s.goto t (.notPending side)

/-- The second section under the pending mutex, up to the clearing of the flag
where this was the last pending thread. -/
def notPending (t : T) (side : RwSide) (s : RwWorld T) : Option (RwWorld T) :=
  if s.pendingMutex = none then
    if s.pendingCount side - 1 = 0 then
      some (({ s with
        pendingMutex := some t
        pendingCount := update s.pendingCount side
          (s.pendingCount side - 1) }).goto t (.fetchAnd side))
    else
      some (({ s with
        pendingCount := update s.pendingCount side
          (s.pendingCount side - 1) }).goto t (.load side false))
  else none

def fetchAnd (t : T) (side : RwSide) (s : RwWorld T) : RwWorld T :=
  ({ s with
    state := s.state &&& ~~~rwsPd side
    pendingMutex := none }).goto t (.load side false)

def unlockLoad (t : T) (side : RwSide) (s : RwWorld T) : RwWorld T :=
  s.goto t (if rwWrlocked s.state then .unlockWriter side
    else if rwRdlocked s.state then .unlockReader side
    else .outside)

/-- Where `unlock` goes on after the release of a writer, by the old word. -/
def afterWriter (old : BitVec 32) : RwPc :=
  if (old &&& rwsPd .writer) = 0 ∧ (old &&& rwsPd .reader) = 0 then .outside
  else .unlockPending

def afterReader (old : BitVec 32) : RwPc :=
  if (old >>> 2) ≠ 1 ∨ ¬((old &&& rwsPd .writer) ≠ 0 ∧ (old &&& rwsPd .reader) ≠ 0) then
    .outside
  else .unlockPending

def unlockWriter (t : T) (s : RwWorld T) : RwWorld T :=
  ({ s with state := s.state &&& ~~~rwsWrlocked }).goto t (afterWriter s.state)

def unlockReader (t : T) (s : RwWorld T) : RwWorld T :=
  ({ s with state := s.state - rcntIncStep }).goto t (afterReader s.state)

def advanceSerial (t : T) (side : RwSide) (s : RwWorld T) : RwWorld T :=
  ({ s with
    pendingSerial := update s.pendingSerial side (s.pendingSerial side + 1) }).goto t (.wake side)

def unlockPending (t : T) (s : RwWorld T) : Option (RwWorld T) :=
  if s.pendingMutex = none then
    some (if s.pendingCount .writer ≠ 0 then s.advanceSerial t .writer
      else if s.pendingCount .reader ≠ 0 then s.advanceSerial t .reader
      else s.goto t .outside)
  else none

/-- The count `futex_wake` is called with, `UINT_MAX` for the readers. -/
def wakeCount : RwSide → ℕ
  | .reader => 4294967295
  | .writer => 1

/-- `futex_wake`: a woken thread goes on behind its `futex_wait`. -/
def wake (t : T) (side : RwSide) (s : RwWorld T) : RwWorld T :=
  let woken := (s.pendingWq side).take (wakeCount side)
  ({ s with
    pendingWq := update s.pendingWq side ((s.pendingWq side).drop (wakeCount side))
    pc := fun u => if u ∈ woken then .notPending side
      else s.pc u }).goto t .outside

def advance (t : T) (s : RwWorld T) : Option (RwWorld T) :=
  match s.pc t with
  | .outside => none
  | .load side first => some (s.goto t (tryLock side first s.state))
  | .cas side first old => some (s.cas t side first old)
  | .check side => some (s.check t side)
  | .pending side => s.pending t side
  | .fetchOr side => some (s.fetchOr t side)
  | .loadSerial side old => some (s.loadSerial t side old)
  | .futexWait side old serial => some (s.futexWait t side old serial)
  | .asleep _ => none
  | .notPending side => s.notPending t side
  | .fetchAnd side => some (s.fetchAnd t side)
  | .holding _ => none
  | .unlock side => some (s.unlockLoad t side)
  | .unlockWriter _ => some (s.unlockWriter t)
  | .unlockReader _ => some (s.unlockReader t)
  | .unlockPending => s.unlockPending t
  | .wake side => some (s.wake t side)

end RwWorld

/-- What a thread calls, or `go` for the next step of what it has called. -/
inductive RwAction (T : Type)
  | lock (t : T) (side : RwSide)
  | unlock (t : T)
  | go (t : T)

/-- The calls come in matched pairs. -/
def rwStep (s : RwWorld T) : RwAction T → Option (RwWorld T)
  | .lock t side =>
    if s.pc t = .outside then some (s.goto t (.load side true)) else none
  | .unlock t =>
    match s.pc t with
    | .holding side => some (s.goto t (.unlock side))
    | _ => none
  | .go t => s.advance t

end Soda.Storpu
