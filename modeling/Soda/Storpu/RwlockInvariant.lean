import Soda.Core.Counts
import Soda.Core.Lists
import Soda.Storpu.RwlockWord

/-!
# The invariant of the reader-writer lock

Three parts: the lock word shows who holds the lock; the pending mutex, count,
flag and queue agree with where the readers are; and a reader that waits for a
writer is woken by it.  A writer never waits, since its test never fails.
-/

namespace Soda.Storpu

open RwWorld RwPc

variable {T : Type}

inductive RwRole
  | idle
  | counted
  | loading
  | waiting
  | asleep
  | clearing
  | writerWaits
  deriving DecidableEq

namespace RwPc

def role : RwPc → RwRole
  | .fetchOr .reader => .counted
  | .loadSerial .reader _ => .loading
  | .futexWait .reader _ _ => .waiting
  | .notPending .reader => .waiting
  | .asleep .reader => .asleep
  | .fetchAnd .reader => .clearing
  | .check .writer => .writerWaits
  | .pending .writer => .writerWaits
  | .fetchOr .writer => .writerWaits
  | .loadSerial .writer _ => .writerWaits
  | .futexWait .writer _ _ => .writerWaits
  | .asleep .writer => .writerWaits
  | .notPending .writer => .writerWaits
  | .fetchAnd .writer => .writerWaits
  | .wake .writer => .writerWaits
  | _ => .idle

/-- Between the two changes of `pending_reader_count`. -/
def pends (pc : RwPc) : Bool :=
  match pc.role with
  | .counted => true
  | .loading => true
  | .waiting => true
  | .asleep => true
  | _ => false

def flagged (pc : RwPc) : Bool :=
  match pc.role with
  | .loading => true
  | .waiting => true
  | .asleep => true
  | _ => false

def reads (pc : RwPc) : Bool := decide (pc.holds = some .reader)

/-- A reader that tries over a writer, or an `unlock` on the wrong side. -/
def mistaken : RwPc → Bool
  | .cas .reader _ old => (rwFields old).wrlocked
  | .unlockWriter .reader => true
  | .unlockReader .writer => true
  | _ => false

def wakes : RwPc → Bool
  | .unlockPending => true
  | .wake .reader => true
  | _ => false

end RwPc

/-- What a role says about the pending mutex, the queue of the readers, their
flag and their count. -/
def RwRole.Agrees (role : RwRole) (inMutex inQueue flag : Prop) (count : ℕ) : Prop :=
  match role with
  | .idle => ¬inMutex ∧ ¬inQueue
  | .counted => inMutex ∧ ¬inQueue
  | .loading => inMutex ∧ ¬inQueue ∧ flag
  | .waiting => ¬inMutex ∧ ¬inQueue ∧ flag
  | .asleep => ¬inMutex ∧ inQueue ∧ flag
  | .clearing => inMutex ∧ ¬inQueue ∧ count = 0
  | .writerWaits => False

variable (s : RwWorld T)

def RwWorld.RoleAgrees (t : T) (role : RwRole) : Prop :=
  role.Agrees (s.pendingMutex = some t) (t ∈ s.pendingWq .reader)
    ((rwFields s.state).pdReaders = true) (s.pendingCount .reader)

structure HoldInv [Fintype T] (s : RwWorld T) : Prop where
  writers : if (rwFields s.state).wrlocked = true then
      (rwFields s.state).readers = 0 ∧ ∃ t, ∀ u, (s.pc u).holds = some .writer ↔ u = t
    else ∀ u, (s.pc u).holds ≠ some .writer
  readers : countWhere reads s.pc = (rwFields s.state).readers
  sides : ∀ t, (s.pc t).mistaken = false

structure PendInv [Fintype T] (s : RwWorld T) : Prop where
  agrees : ∀ t, s.RoleAgrees t (s.pc t).role
  counted : countWhere pends s.pc = s.pendingCount .reader
  noWriters : s.pendingCount .writer = 0
  nodup : (s.pendingWq .reader).Nodup

/-- The lock has a writer, or an `unlock` is about to advance the serial. -/
def RwWorld.Armed : Prop := (rwFields s.state).wrlocked = true ∨ ∃ u, s.pc u = .unlockPending

/-- Why a reader at a place does not wait in vain. -/
def RwWorld.Covered : RwPc → Prop
  | .loadSerial .reader old => (rwFields old).wrlocked = true → s.Armed
  | .futexWait .reader old serial =>
    serial ≤ s.pendingSerial .reader ∧ ((rwFields old).wrlocked = true →
        serial < s.pendingSerial .reader ∨ s.Armed)
  | .asleep .reader => s.Armed ∨ ∃ u, s.pc u = .wake .reader
  | _ => True

def WaitInv : Prop := ∀ t, s.Covered (s.pc t)

structure RwInv [Fintype T] (s : RwWorld T) : Prop where
  hold : HoldInv s
  pend : PendInv s
  wait : WaitInv s

namespace RwWorld

theorem covered_of_not_flagged {pc : RwPc} (hflagged : pc.flagged = false) : s.Covered pc := by
  revert hflagged
  cases pc with
  | loadSerial side old | futexWait side old serial | asleep side =>
    cases side with
    | reader => exact nofun
    | writer => exact fun _ => trivial
  | _ => exact fun _ => trivial

theorem covered_of_idle {pc : RwPc} (hrole : pc.role = .idle) : s.Covered pc := by
  apply covered_of_not_flagged
  rw [RwPc.flagged, hrole]

variable [DecidableEq T]

@[simp]
theorem goto_pc_self (t : T) (pc : RwPc) (s : RwWorld T) : (s.goto t pc).pc t = pc := by
  simp [goto]

theorem goto_pc_of_ne {t u : T} (hne : u ≠ t) (pc : RwPc) (s : RwWorld T) :
    (s.goto t pc).pc u = s.pc u := by
  simp [goto, hne]

end RwWorld

section Frame

variable {s base : RwWorld T} {t : T} {place pc : RwPc}

/-- What keeps the cover of a waiting reader. -/
theorem RwWorld.Covered.mono {next : RwWorld T} {pc : RwPc} (hcovered : s.Covered pc)
    (hserial : s.pendingSerial .reader ≤ next.pendingSerial .reader) (harmed : s.Armed → next.Armed)
    (hwake : pc = .asleep .reader → (∃ u, s.pc u = .wake .reader) →
      next.Armed ∨ ∃ u, next.pc u = .wake .reader) : next.Covered pc := by
  cases pc with
  | loadSerial side old =>
    cases side with
    | reader => exact fun hlocked => harmed (hcovered hlocked)
    | writer => exact trivial
  | futexWait side old serial =>
    cases side with
    | reader =>
      refine ⟨hcovered.1.trans hserial, fun hlocked => ?_⟩
      rcases hcovered.2 hlocked with hless | hbefore
      · exact .inl (hless.trans_le hserial)
      · exact .inr (harmed hbefore)
    | writer => exact trivial
  | asleep side =>
    cases side with
    | reader =>
      rcases hcovered with hbefore | hbefore
      · exact .inl (harmed hbefore)
      · exact hwake rfl hbefore
    | writer => exact trivial
  | _ => exact trivial

variable [DecidableEq T]

theorem RwWorld.armed_goto (hplace : s.pc t = place) (hpc : base.pc = s.pc)
    (hwrlocked : (rwFields s.state).wrlocked = true → (rwFields base.state).wrlocked = true)
    (hwakes : place.wakes = false) (harmed : s.Armed) : (base.goto t pc).Armed := by
  rcases harmed with hlocked | ⟨u, hu⟩
  · exact .inl (hwrlocked hlocked)
  · have hne : u ≠ t := by
      rintro rfl
      rw [← hplace, hu] at hwakes
      cases hwakes
    refine .inr ⟨u, ?_⟩
    rw [goto_pc_of_ne hne, hpc, hu]

theorem RwWorld.wake_goto (hplace : s.pc t = place) (hpc : base.pc = s.pc)
    (hwakes : place.wakes = false) (hwake : ∃ u, s.pc u = .wake .reader) :
    ∃ u, (base.goto t pc).pc u = .wake .reader := by
  obtain ⟨u, hu⟩ := hwake
  have hne : u ≠ t := by
    rintro rfl
    rw [← hplace, hu] at hwakes
    cases hwakes
  refine ⟨u, ?_⟩
  rw [goto_pc_of_ne hne, hpc, hu]

theorem WaitInv.goto (hinv : WaitInv s) (hplace : s.pc t = place) (hpc : base.pc = s.pc)
    (hwrlocked : (rwFields s.state).wrlocked = true → (rwFields base.state).wrlocked = true)
    (hserial : base.pendingSerial = s.pendingSerial) (hwakes : place.wakes = false)
    (hcovered : (base.goto t pc).Covered pc) : WaitInv (base.goto t pc) := by
  intro u
  by_cases hu : u = t
  · rw [hu, goto_pc_self]
    exact hcovered
  · rw [goto_pc_of_ne hu, hpc]
    refine (hinv u).mono ?_ ?_ ?_
    · exact (congrFun hserial .reader).ge
    · exact armed_goto hplace hpc hwrlocked hwakes
    · intro _ hwake
      exact .inr (wake_goto hplace hpc hwakes hwake)

variable [Fintype T]

omit [DecidableEq T] in
/-- A step after which the same threads hold the lock. -/
theorem HoldInv.keep {next : RwWorld T} (hinv : HoldInv s)
    (hwrlocked : (rwFields next.state).wrlocked = (rwFields s.state).wrlocked)
    (hreaders : (rwFields next.state).readers = (rwFields s.state).readers)
    (hholds : ∀ u, (next.pc u).holds = (s.pc u).holds)
    (hsides : ∀ u, (next.pc u).mistaken = false) : HoldInv next where
  writers := by
    simp only [hholds]
    rw [hwrlocked, hreaders]
    exact hinv.writers
  readers := by
    rw [hreaders, ← hinv.readers]
    apply countWhere_congr
    intro u
    rw [reads, reads, hholds]
  sides := hsides

theorem HoldInv.sides_goto (hinv : HoldInv s) (hpc : base.pc = s.pc)
    (hside : pc.mistaken = false) (u : T) : ((base.goto t pc).pc u).mistaken = false := by
  by_cases hu : u = t
  · rw [hu, goto_pc_self, hside]
  · rw [goto_pc_of_ne hu, hpc]
    exact hinv.sides u

theorem HoldInv.goto (hinv : HoldInv s) (hplace : s.pc t = place) (hpc : base.pc = s.pc)
    (hwrlocked : (rwFields base.state).wrlocked = (rwFields s.state).wrlocked)
    (hreaders : (rwFields base.state).readers = (rwFields s.state).readers)
    (hholds : pc.holds = place.holds) (hside : pc.mistaken = false) : HoldInv (base.goto t pc) := by
  refine HoldInv.keep hinv hwrlocked hreaders (fun u => ?_) (hinv.sides_goto hpc hside)
  by_cases hu : u = t
  · rw [hu, goto_pc_self, hholds, hplace]
  · rw [goto_pc_of_ne hu, hpc]

/-- A step that changes the place of one thread and the data of the waiting. -/
theorem PendInv.change (hpc : base.pc = s.pc) (hself : base.RoleAgrees t pc.role)
    (hothers : ∀ u, u ≠ t → base.RoleAgrees u (s.pc u).role)
    (hcounted : countWhere pends (Function.update s.pc t pc) = base.pendingCount .reader)
    (hwriters : base.pendingCount .writer = 0)
    (hnodup : (base.pendingWq .reader).Nodup) : PendInv (base.goto t pc) where
  agrees := by
    intro u
    change base.RoleAgrees u ((base.goto t pc).pc u).role
    by_cases hu : u = t
    · rw [hu, goto_pc_self]
      exact hself
    · rw [goto_pc_of_ne hu, hpc]
      exact hothers u hu
  counted := by
    rw [← hpc] at hcounted
    exact hcounted
  noWriters := hwriters
  nodup := hnodup

theorem PendInv.counted_same (hinv : PendInv s) (hplace : s.pc t = place)
    (hpends : pc.pends = place.pends) :
    countWhere pends (Function.update s.pc t pc) = s.pendingCount .reader := by
  subst hplace
  exact (countWhere_update_same hpends).trans hinv.counted

omit [DecidableEq T] in
theorem PendInv.agrees_at (hinv : PendInv s) (hplace : s.pc t = place) :
    s.RoleAgrees t place.role := by
  subst hplace
  exact hinv.agrees t

theorem PendInv.goto (hinv : PendInv s) (hplace : s.pc t = place) (hpc : base.pc = s.pc)
    (hmutex : base.pendingMutex = s.pendingMutex) (hcount : base.pendingCount = s.pendingCount)
    (hwq : base.pendingWq = s.pendingWq)
    (hflag : (rwFields base.state).pdReaders = (rwFields s.state).pdReaders)
    (hrole : pc.role = place.role) : PendInv (base.goto t pc) := by
  have hsame : ∀ u role, s.RoleAgrees u role → base.RoleAgrees u role := by
    intro u role hagrees
    rw [RwWorld.RoleAgrees, hmutex, hwq, hflag, hcount]
    exact hagrees
  refine PendInv.change hpc ?_ ?_ ?_ ?_ ?_
  · rw [hrole]
    exact hsame t _ (hinv.agrees_at hplace)
  · intro u _
    exact hsame u _ (hinv.agrees u)
  · rw [hcount]
    apply hinv.counted_same hplace
    rw [pends, pends, hrole]
  · rw [hcount]
    exact hinv.noWriters
  · rw [hwq]
    exact hinv.nodup

/-- A step of a thread that changes nothing but its own idle place. -/
theorem RwInv.quiet (hinv : RwInv s) (hplace : s.pc t = place) (hleft : place.role = .idle)
    (hright : pc.role = .idle) (hwakes : place.wakes = false) (hholds : pc.holds = place.holds)
    (hside : pc.mistaken = false) : RwInv (s.goto t pc) :=
  ⟨hinv.hold.goto hplace rfl rfl rfl hholds hside,
    hinv.pend.goto hplace rfl rfl rfl rfl rfl (hright.trans hleft.symm),
    hinv.wait.goto hplace rfl id rfl hwakes (covered_of_idle _ hright)⟩

end Frame

end Soda.Storpu
