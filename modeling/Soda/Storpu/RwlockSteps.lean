import Soda.Storpu.RwlockInvariant

/-!
# The steps of the reader-writer lock

Each step keeps the invariant, where a writer takes the lock only when no thread
holds it, a reader only below the largest count, and a reader goes to sleep
before its serial has come round.
-/

namespace Soda.Storpu

open Function RwWorld Option List Bool

variable {T : Type} {s next : RwWorld T} {t u : T} {place : RwPc} {role : RwRole} {first : Bool}
  {count serial : ℕ} {old : BitVec 32} {side : RwSide}

theorem tryLock_places (side : RwSide) (first : Bool) (old : BitVec 32) :
    (tryLock side first old).role = .idle ∧ (tryLock side first old).holds = none ∧
      (tryLock side first old).mistaken = false := by
  cases side with
  | writer =>
    have htest : RwSide.writer.canLock old = true := canWrlock_eq_true old
    rw [tryLock, if_pos htest]
    exact ⟨rfl, rfl, rfl⟩
  | reader =>
    rw [tryLock]
    cases first with
    | true | false =>
      split
      case isTrue htest =>
        have hfree : (rwFields old).wrlocked = false := by
          rw [← rwWrlocked_eq]
          exact (not_eq_true' _).mp htest
        split
        · exact ⟨rfl, rfl, rfl⟩
        · exact ⟨rfl, rfl, hfree⟩
      case isFalse htest => exact ⟨rfl, rfl, rfl⟩

theorem afterWriter_places (old : BitVec 32) :
    (afterWriter old).role = .idle ∧ (afterWriter old).holds = none ∧
      (afterWriter old).mistaken = false := by
  rw [afterWriter]
  split
  · exact ⟨rfl, rfl, rfl⟩
  · exact ⟨rfl, rfl, rfl⟩

theorem afterReader_places (old : BitVec 32) :
    (afterReader old).role = .idle ∧ (afterReader old).holds = none ∧
      (afterReader old).mistaken = false := by
  rw [afterReader]
  split
  · exact ⟨rfl, rfl, rfl⟩
  · exact ⟨rfl, rfl, rfl⟩

theorem afterWriter_of_flag (hflag : (rwFields old).pdReaders = true) :
    afterWriter old = .unlockPending := by
  apply if_neg
  rintro ⟨-, hclear⟩
  exact (pdReaders_iff old).mpr hflag hclear

theorem RwPc.not_flagged_of_not_pends {pc : RwPc} (hpends : pc.pends = false) :
    pc.flagged = false := by
  rw [pends] at hpends
  rw [flagged]
  revert hpends
  cases pc.role with
  | loading | waiting | asleep =>
    intro hpends
    cases hpends
  | _ => exact fun _ => rfl

/-- Where the pending mutex is not held by the thread, before and after, the
count does not matter to it. -/
theorem RwRole.Agrees.outside {inMutex inMutex' inQueue flag : Prop}
    {count' : ℕ} (hagrees : role.Agrees inMutex inQueue flag count)
    (hbefore : ¬inMutex) (hafter : ¬inMutex') : role.Agrees inMutex' inQueue flag count' := by
  cases role with
  | idle | waiting | asleep => exact ⟨hafter, hagrees.2⟩
  | counted | loading | clearing => exact absurd hagrees.1 hbefore
  | writerWaits => exact hagrees.elim

theorem RwRole.Agrees.flagged {inMutex inQueue flag flag' : Prop}
    (hagrees : role.Agrees inMutex inQueue flag count) (hflag : flag') :
    role.Agrees inMutex inQueue flag' count := by
  cases role with
  | idle | counted | clearing | writerWaits => exact hagrees
  | loading | waiting | asleep => exact ⟨hagrees.1, hagrees.2.1, hflag⟩

/-- A thread that does not hold the pending mutex does not see another thread
take or release it. -/
theorem RwWorld.RoleAgrees.outside {base : RwWorld T}
    (hagrees : s.RoleAgrees u role) (hbefore : s.pendingMutex ≠ some u)
    (hafter : base.pendingMutex ≠ some u) (hwq : base.pendingWq .reader = s.pendingWq .reader)
    (hstate : base.state = s.state) : base.RoleAgrees u role := by
  rw [RwWorld.RoleAgrees, hwq, hstate]
  exact .outside hagrees hbefore hafter

variable (hagrees : s.RoleAgrees u (s.pc u).role)
include hagrees

/-- A thread that neither waits nor holds the pending mutex is idle. -/
theorem RwWorld.RoleAgrees.idle
    (hmutex : s.pendingMutex ≠ some u) (hpends : (s.pc u).pends = false) :
    (s.pc u).role = .idle ∧ u ∉ s.pendingWq .reader := by
  rw [RwPc.pends] at hpends
  cases hrole : (s.pc u).role with
  | idle =>
    rw [hrole] at hagrees
    exact ⟨rfl, hagrees.2⟩
  | counted | loading | waiting | asleep =>
    rw [hrole] at hpends
    cases hpends
  | clearing =>
    rw [hrole] at hagrees
    exact absurd hagrees.1 hmutex
  | writerWaits =>
    rw [hrole] at hagrees
    exact hagrees.elim

theorem RwWorld.RoleAgrees.flag
    (hflagged : (s.pc u).flagged = true) : (rwFields s.state).pdReaders = true := by
  rw [RwPc.flagged] at hflagged
  cases hrole : (s.pc u).role with
  | loading | waiting | asleep =>
    rw [hrole] at hagrees
    exact hagrees.2.2
  | idle | counted | clearing | writerWaits =>
    rw [hrole] at hflagged
    cases hflagged

theorem RwWorld.RoleAgrees.asleep_iff : u ∈ s.pendingWq .reader ↔ s.pc u = .asleep .reader := by
  have hrole : s.pc u = .asleep .reader ↔ (s.pc u).role = .asleep := by
    constructor
    · intro hpc
      rw [hpc]
      rfl
    · cases s.pc u with
      | asleep side =>
        cases side with
        | reader => exact fun _ => rfl
        | writer =>
          intro hrole
          cases hrole
      | check side | pending side | fetchOr side | loadSerial side old
      | futexWait side old serial | notPending side | fetchAnd side
      | wake side =>
        intro hrole
        cases side with
        | reader | writer => cases hrole
      | _ =>
        intro hrole
        cases hrole
  rw [hrole]
  revert hagrees
  cases (s.pc u).role with
  | writerWaits => exact False.elim
  | asleep =>
    intro hagrees
    exact ⟨fun _ => rfl, fun _ => hagrees.2.1⟩
  | idle | counted =>
    intro hagrees
    simp [hagrees.2]
  | loading | waiting | clearing =>
    intro hagrees
    simp [hagrees.2.1]

omit hagrees

variable [Fintype T]

/-- Who holds the lock, how many readers hold it and how far the serial has
moved where a thread is about to take the lock or to sleep. -/
def RwWorld.CarefulAt (s : RwWorld T) : RwPc → Prop
  | .cas .writer _ old => s.state = old → ∀ u, (s.pc u).holds = none
  | .cas .reader _ old => s.state = old → countWhere RwPc.reads s.pc + 1 < 536870912
  | .futexWait side _ serial => s.pendingSerial side < serial + 4294967296
  | _ => True

def RwCareful (s : RwWorld T) : RwAction T → Prop
  | .go t => s.CarefulAt (s.pc t)
  | _ => True

theorem HoldInv.not_wrlocked (hinv : HoldInv s)
    (hpc : s.pc t = .cas .reader first s.state) : (rwFields s.state).wrlocked = false := by
  have hside := hinv.sides t
  rw [hpc] at hside
  exact hside

theorem HoldInv.wrlocked_iff (hinv : HoldInv s) (hholds : (s.pc t).holds = some side) :
    (rwFields s.state).wrlocked = true ↔ side = .writer := by
  have hwriters := hinv.writers
  constructor
  · intro hlocked
    rw [if_pos hlocked] at hwriters
    cases side with
    | writer => rfl
    | reader =>
      have hpos : 0 < countWhere RwPc.reads s.pc := by
        apply countWhere_pos (t := t)
        rw [RwPc.reads, hholds]
        rfl
      rw [hinv.readers, hwriters.1] at hpos
      exact absurd hpos (by decide)
  · rintro rfl
    by_contra hfree
    rw [if_neg hfree] at hwriters
    exact hwriters t hholds

theorem HoldInv.readers_pos (hinv : HoldInv s) (hholds : (s.pc t).holds = some .reader) :
    0 < (rwFields s.state).readers := by
  rw [← hinv.readers]
  apply countWhere_pos (t := t)
  rw [RwPc.reads, hholds]
  rfl

theorem PendInv.count_pos (hinv : PendInv s) (hpends : (s.pc t).pends = true) :
    0 < s.pendingCount .reader := by
  rw [← hinv.counted]
  exact countWhere_pos hpends

theorem PendInv.not_pends (hinv : PendInv s) (hcount : s.pendingCount .reader = 0) (u : T) :
    (s.pc u).pends = false := by
  apply eq_false_of_not_eq_true
  intro hpends
  exact absurd hcount (hinv.count_pos hpends).ne'

/-- No writer is at a place where only readers go. -/
theorem PendInv.reader (hinv : PendInv s) (places : RwSide → RwPc)
    (hrole : (places .writer).role = .writerWaits) (hpc : s.pc t = places side) :
    side = .reader := by
  cases side with
  | reader => rfl
  | writer =>
    have hagrees := hinv.agrees_at hpc
    rw [hrole] at hagrees
    exact hagrees.elim

theorem rwInv_init : RwInv (init : RwWorld T) where
  hold :=
    { writers := by
        change if (rwFields 0).wrlocked = true then _ else _
        exact fun _ => nofun
      readers := by
        change _ = (rwFields 0).readers
        exact countWhere_eq_zero fun _ => rfl
      sides := fun _ => rfl }
  pend :=
    { agrees := fun _ => ⟨nofun, nofun⟩
      counted := countWhere_eq_zero fun _ => rfl
      noWriters := rfl
      nodup := nodup_nil }
  wait := fun _ => trivial

variable [DecidableEq T]

theorem HoldInv.releaseWriter (hinv : HoldInv s) (hholds : (s.pc t).holds = some .writer) :
    HoldInv (s.unlockWriter t) := by
  have hlocked := (hinv.wrlocked_iff hholds).mpr rfl
  have hfields := rwFields_clearWrlocked s.state
  obtain ⟨-, hholds', hside⟩ := afterWriter_places s.state
  have hwriters := hinv.writers
  rw [if_pos hlocked] at hwriters
  obtain ⟨hreaders, holder, hholder⟩ := hwriters
  constructor
  case writers =>
    change if (rwFields (s.state &&& ~~~rwsWrlocked)).wrlocked = true
      then _ else _
    rw [hfields, if_neg Bool.false_ne_true, unlockWriter]
    intro u
    by_cases hu : u = t
    · rw [hu, goto_pc_self, hholds']
      exact nofun
    · rw [goto_pc_of_ne hu]
      intro hother
      exact hu (((hholder u).mp hother).trans ((hholder t).mp hholds).symm)
  case readers =>
    change countWhere RwPc.reads (update s.pc t _) = (rwFields (s.state &&& ~~~rwsWrlocked)).readers
    rw [countWhere_update_same, hinv.readers, hfields]
    rw [RwPc.reads, RwPc.reads, hholds, hholds']
    rfl
  case sides => exact hinv.sides_goto rfl hside

theorem HoldInv.releaseReader (hinv : HoldInv s) (hholds : (s.pc t).holds = some .reader) :
    HoldInv (s.unlockReader t) := by
  have hfields := rwFields_subReader (hinv.readers_pos hholds)
  obtain ⟨-, hholds', hside⟩ := afterReader_places s.state
  have hfree : (rwFields s.state).wrlocked ≠ true := by
    intro hlocked
    exact nomatch (hinv.wrlocked_iff hholds).mp hlocked
  have hwriters := hinv.writers
  rw [if_neg hfree] at hwriters
  constructor
  case writers =>
    change if (rwFields (s.state - rcntIncStep)).wrlocked = true then _
      else _
    rw [hfields]
    rw [if_neg hfree, unlockReader]
    intro u
    by_cases hu : u = t
    · rw [hu, goto_pc_self, hholds']
      exact nofun
    · rw [goto_pc_of_ne hu]
      exact hwriters u
  case readers =>
    change countWhere RwPc.reads (update s.pc t _) = (rwFields (s.state - rcntIncStep)).readers
    rw [countWhere_update_leave, hinv.readers, hfields]
    · rw [RwPc.reads, hholds]
      rfl
    · rw [RwPc.reads, hholds']
      rfl
  case sides => exact hinv.sides_goto rfl hside

/-- A sleeper goes on behind its wait, and the other threads stay. -/
theorem PendInv.wake_pc (hinv : PendInv s)
    (hcount : Fintype.card T ≤ 4294967295) {u : T} (hne : u ≠ t) :
    (s.wake t .reader).pc u = if u ∈ s.pendingWq .reader then .notPending .reader else s.pc u := by
  have htake : (s.pendingWq .reader).take (wakeCount .reader) = s.pendingWq .reader :=
    take_of_length_le (hinv.nodup.length_le_card.trans hcount)
  rw [wake, goto_pc_of_ne hne, htake]

omit [Fintype T] in
/-- Where no thread holds the pending mutex, every reader that waits has read
its serial, so it sees the next one or is about to be woken. -/
theorem RwWorld.Covered.advance (hcovered : s.Covered (s.pc u))
    (hagrees : s.RoleAgrees u (s.pc u).role) (hmutex : s.pendingMutex = none) :
    (s.advanceSerial t .reader).Covered (s.pc u) := by
  have hserial : (s.advanceSerial t .reader).pendingSerial .reader =
      s.pendingSerial .reader + 1 := by
    simp [advanceSerial, goto]
  revert hcovered hagrees
  cases s.pc u with
  | loadSerial side old =>
    intro _ hagrees
    cases side with
    | reader =>
      have hholds : s.pendingMutex = some u := hagrees.1
      rw [hmutex] at hholds
      cases hholds
    | writer => exact hagrees.elim
  | futexWait side old serial =>
    intro hcovered hagrees
    cases side with
    | reader =>
      have hle : serial ≤ s.pendingSerial .reader := hcovered.1
      refine ⟨?_, fun _ => .inl ?_⟩
      · exact Nat.le_succ_of_le hle
      · exact Nat.lt_succ_of_le hle
    | writer => exact hagrees.elim
  | asleep side =>
    intro _ hagrees
    cases side with
    | reader => exact .inr ⟨t, goto_pc_self t _ _⟩
    | writer => exact hagrees.elim
  | _ => exact fun _ _ => trivial

variable (hinv : RwInv s)
include hinv

/-- A thread that starts to try, or tries again. -/
theorem RwInv.tries (hplace : s.pc t = place) (hrole : place.role = .idle)
    (hwakes : place.wakes = false) (hholds : place.holds = none) (side : RwSide) (first : Bool)
    (old : BitVec 32) : RwInv (s.goto t (tryLock side first old)) := by
  obtain ⟨hrole', hholds', hside⟩ := tryLock_places side first old
  exact hinv.quiet hplace hrole hrole' hwakes (hholds'.trans hholds.symm) hside

theorem RwInv.takeReader (hpc : s.pc t = .cas .reader first s.state)
    (hfew : countWhere RwPc.reads s.pc + 1 < 536870912) :
    RwInv ({ s with state := s.state + rcntIncStep }.goto t (.holding .reader)) := by
  have hfree := hinv.hold.not_wrlocked hpc
  have hfields : rwFields (s.state + rcntIncStep) =
      { rwFields s.state with readers := (rwFields s.state).readers + 1 } := by
    apply rwFields_addReader
    rw [← hinv.hold.readers]
    exact hfew
  have hwriters := hinv.hold.writers
  rw [hfree, if_neg Bool.false_ne_true] at hwriters
  constructor
  case hold =>
    constructor
    case writers =>
      change if (rwFields (s.state + rcntIncStep)).wrlocked = true then _
        else _
      rw [hfields]
      rw [hfree, if_neg Bool.false_ne_true]
      intro u
      by_cases hu : u = t
      · rw [hu, goto_pc_self]
        exact nofun
      · rw [goto_pc_of_ne hu]
        exact hwriters u
    case readers =>
      change countWhere RwPc.reads (update s.pc t _) = (rwFields (s.state + rcntIncStep)).readers
      rw [countWhere_update_enter, hinv.hold.readers, hfields]
      · rw [hpc]
        rfl
      · rfl
    case sides => exact hinv.hold.sides_goto rfl rfl
  case pend =>
    refine hinv.pend.goto hpc rfl rfl rfl rfl ?_ rfl
    rw [hfields]
  case wait =>
    refine hinv.wait.goto hpc rfl ?_ rfl rfl trivial
    rw [hfields]
    exact id

theorem RwInv.takeWriter (hpc : s.pc t = .cas .writer first s.state)
    (hnone : ∀ u, (s.pc u).holds = none) :
    RwInv ({ s with state := s.state ||| rwsWrlocked }.goto t (.holding .writer)) := by
  have hfields := rwFields_setWrlocked s.state
  have hreaders : (rwFields s.state).readers = 0 := by
    rw [← hinv.hold.readers]
    apply countWhere_eq_zero
    intro u
    rw [RwPc.reads, hnone u]
    rfl
  constructor
  case hold =>
    constructor
    case writers =>
      change if (rwFields (s.state ||| rwsWrlocked)).wrlocked = true then
        (rwFields (s.state ||| rwsWrlocked)).readers = 0 ∧ _ else _
      rw [hfields, if_pos rfl]
      refine ⟨hreaders, t, fun u => ?_⟩
      by_cases hu : u = t
      · simp [hu, RwPc.holds]
      · simp [goto_pc_of_ne hu, hnone u, hu]
    case readers =>
      change countWhere RwPc.reads (update s.pc t _) = (rwFields (s.state ||| rwsWrlocked)).readers
      rw [countWhere_update_same, hinv.hold.readers, hfields]
      rw [hpc]
      rfl
    case sides => exact hinv.hold.sides_goto rfl rfl
  case pend =>
    refine hinv.pend.goto hpc rfl rfl rfl rfl ?_ rfl
    rw [hfields]
  case wait =>
    refine hinv.wait.goto hpc rfl (fun _ => ?_) rfl rfl trivial
    rw [hfields]

/-! ## The waiting of a reader -/

/-- A thread enters the section that counts it. -/
theorem RwInv.pending (hpc : s.pc t = .pending .reader) (hmutex : s.pendingMutex = none) :
    RwInv ({ s with
      pendingMutex := some t
      pendingCount := update s.pendingCount .reader
        (s.pendingCount .reader + 1) }.goto t (.fetchOr .reader)) := by
  have hself := hinv.pend.agrees_at hpc
  constructor
  case hold => exact hinv.hold.goto hpc rfl rfl rfl rfl rfl
  case pend =>
    refine .change rfl ⟨rfl, hself.2⟩ (fun u hu => ?_) ?_ hinv.pend.noWriters hinv.pend.nodup
    · refine (hinv.pend.agrees u).outside ?_ ?_ rfl rfl
      · rw [hmutex]
        exact nofun
      · intro heq
        exact hu (some.inj heq).symm
    · rw [countWhere_update_enter, hinv.pend.counted]
      · rfl
      · rw [hpc]
        rfl
      · rfl
  case wait =>
    exact hinv.wait.goto hpc rfl id rfl rfl trivial

/-- The flag of the readers is set before the serial is read. -/
theorem RwInv.fetchOr (hpc : s.pc t = .fetchOr .reader) : RwInv (s.fetchOr t .reader) := by
  have hself := hinv.pend.agrees_at hpc
  have hfields := rwFields_setPdReaders s.state
  have hflag : (rwFields (s.state ||| rwsPd .reader)).pdReaders = true := by
    rw [hfields]
  have hwrlocked : (rwFields (s.state ||| rwsPd .reader)).wrlocked =
      (rwFields s.state).wrlocked := by
    rw [hfields]
  constructor
  case hold =>
    refine hinv.hold.goto hpc rfl hwrlocked ?_ rfl rfl
    rw [hfields]
  case pend =>
    refine .change rfl ⟨hself.1, hself.2, hflag⟩ (fun u _ => ?_)
      (hinv.pend.counted_same hpc rfl) hinv.pend.noWriters hinv.pend.nodup
    exact .flagged (hinv.pend.agrees u) hflag
  case wait =>
    refine hinv.wait.goto hpc rfl ?_ rfl rfl ?_
    · rw [hwrlocked]
      exact id
    · intro hlocked
      exact .inl (hwrlocked.trans hlocked)

theorem RwInv.loadSerial
    (hpc : s.pc t = .loadSerial .reader old) : RwInv (s.loadSerial t .reader old) := by
  have hself := hinv.pend.agrees_at hpc
  have hcovered := hinv.wait t
  rw [hpc] at hcovered
  have hmutex : s.pendingMutex = some t := hself.1
  constructor
  case hold => exact hinv.hold.goto hpc rfl rfl rfl rfl rfl
  case pend =>
    refine .change rfl ⟨nofun, hself.2⟩ (fun u hu => ?_)
      (hinv.pend.counted_same hpc rfl) hinv.pend.noWriters hinv.pend.nodup
    refine (hinv.pend.agrees u).outside ?_ nofun rfl rfl
    rw [hmutex]
    intro heq
    exact hu (some.inj heq).symm
  case wait =>
    refine hinv.wait.goto hpc rfl id rfl rfl ⟨le_refl _, fun hlocked => ?_⟩
    exact .inr (armed_goto hpc rfl id rfl (hcovered hlocked))

/-- A reader goes to sleep under a writer, or while an `unlock` is on its way
to wake it. -/
theorem RwInv.sleeps
    (hpc : s.pc t = .futexWait .reader old serial) (hlocked : (rwFields old).wrlocked = true)
    (hserial : s.pendingSerial .reader = serial) :
    RwInv ({ s with
      pendingWq := update s.pendingWq .reader
        (s.pendingWq .reader ++ [t]) }.goto t (.asleep .reader)) := by
  have hself := hinv.pend.agrees_at hpc
  have hcovered := hinv.wait t
  rw [hpc] at hcovered
  constructor
  case hold => exact hinv.hold.goto hpc rfl rfl rfl rfl rfl
  case pend =>
    refine .change rfl ⟨hself.1, ?_, hself.2.2⟩ (fun u hu => ?_)
      (hinv.pend.counted_same hpc rfl) hinv.pend.noWriters ?_
    · simp
    · have hagrees := hinv.pend.agrees u
      rw [RwWorld.RoleAgrees] at hagrees ⊢
      simpa [hu] using hagrees
    · simpa using List.Nodup.append hinv.pend.nodup (nodup_singleton t)
        (disjoint_singleton.mpr hself.2.1)
  case wait =>
    have harmed : s.Armed := by
      refine (hcovered.2 hlocked).resolve_left ?_
      omega
    exact hinv.wait.goto hpc rfl id rfl rfl (.inl (armed_goto hpc rfl id rfl harmed))

theorem RwInv.futexWait (hpc : s.pc t = .futexWait .reader old serial)
    (hshort : s.pendingSerial .reader < serial + 4294967296) :
    RwInv (s.futexWait t .reader old serial) := by
  rw [RwWorld.futexWait]
  split
  case isTrue hsleep =>
    rw [and_eq_true, decide_eq_true_eq, not_eq_true'] at hsleep
    obtain ⟨htest, hequal⟩ := hsleep
    have hcovered := hinv.wait t
    rw [hpc] at hcovered
    apply hinv.sleeps hpc
    · rw [← rwWrlocked_eq]
      exact (not_eq_false' _).mp htest
    · have hle := hcovered.1
      omega
  case isFalse =>
    constructor
    case hold => exact hinv.hold.goto hpc rfl rfl rfl rfl rfl
    case pend => exact hinv.pend.goto hpc rfl rfl rfl rfl rfl rfl
    case wait =>
      exact hinv.wait.goto hpc rfl id rfl rfl trivial

theorem RwInv.notPending (hpc : s.pc t = .notPending .reader)
    (hstep : s.notPending t .reader = some next) : RwInv next := by
  obtain ⟨hmutex, hnext⟩ := ite_none_right_eq_some.mp hstep
  have hself := hinv.pend.agrees_at hpc
  have hleave : ∀ pc : RwPc, pc.pends = false → countWhere RwPc.pends (update s.pc t pc) =
        s.pendingCount .reader - 1 := by
    intro pc hpends
    rw [countWhere_update_leave, hinv.pend.counted]
    · rw [hpc]
      rfl
    · exact hpends
  have hfree : ∀ u, s.pendingMutex ≠ some u := by
    intro u
    rw [hmutex]
    exact nofun
  split at hnext
  case isTrue hlast =>
    cases hnext
    constructor
    case hold => exact hinv.hold.goto hpc rfl rfl rfl rfl rfl
    case pend =>
      refine .change rfl ⟨rfl, hself.2.1, hlast⟩ (fun u hu => ?_)
        (hleave _ rfl) hinv.pend.noWriters hinv.pend.nodup
      refine (hinv.pend.agrees u).outside (hfree u) ?_ rfl rfl
      intro heq
      exact hu (some.inj heq).symm
    case wait =>
      exact hinv.wait.goto hpc rfl id rfl rfl trivial
  case isFalse hmore =>
    cases hnext
    constructor
    case hold => exact hinv.hold.goto hpc rfl rfl rfl rfl rfl
    case pend =>
      refine .change rfl ⟨hfree t, hself.2.1⟩ (fun u hu => ?_)
        (hleave _ rfl) hinv.pend.noWriters hinv.pend.nodup
      exact (hinv.pend.agrees u).outside (hfree u) (hfree u) rfl rfl
    case wait =>
      exact hinv.wait.goto hpc rfl id rfl rfl trivial

/-- The flag is cleared where no reader waits. -/
theorem RwInv.fetchAnd (hpc : s.pc t = .fetchAnd .reader) : RwInv (s.fetchAnd t .reader) := by
  have hself := hinv.pend.agrees_at hpc
  have hmutex : s.pendingMutex = some t := hself.1
  have hcount : s.pendingCount .reader = 0 := hself.2.2
  have hfields := rwFields_clearPdReaders s.state
  constructor
  case hold =>
    refine hinv.hold.goto hpc rfl ?_ ?_ rfl rfl
    · rw [hfields]
    · rw [hfields]
  case pend =>
    refine .change rfl ⟨nofun, hself.2.1⟩ (fun u hu => ?_)
      (hinv.pend.counted_same hpc rfl) hinv.pend.noWriters hinv.pend.nodup
    have hother : s.pendingMutex ≠ some u := by
      rw [hmutex]
      intro heq
      exact hu (some.inj heq).symm
    have hidle := (hinv.pend.agrees u).idle hother (hinv.pend.not_pends hcount u)
    rw [hidle.1]
    exact ⟨nofun, hidle.2⟩
  case wait =>
    refine hinv.wait.goto hpc rfl ?_ rfl rfl trivial
    rw [hfields]
    exact id

/-! ## Unlocking -/

theorem RwInv.unlockLoad (hpc : s.pc t = .unlock side) : RwInv (s.unlockLoad t side) := by
  have hholds : (s.pc t).holds = some side := by
    rw [hpc]
    rfl
  have hiff := hinv.hold.wrlocked_iff hholds
  rw [← rwWrlocked_eq] at hiff
  rw [RwWorld.unlockLoad]
  cases side with
  | writer =>
    rw [if_pos (hiff.mpr rfl)]
    exact hinv.quiet hpc rfl rfl rfl rfl rfl
  | reader =>
    have hrdlocked : rwRdlocked s.state = true := by
      have hpos := hinv.hold.readers_pos hholds
      rw [rwRdlocked_eq, decide_eq_true_eq]
      rw [rwFields] at hpos
      dsimp only at hpos
      omega
    have hfree : ¬rwWrlocked s.state = true := by
      intro hlocked
      cases hiff.mp hlocked
    rw [if_neg hfree, if_pos hrdlocked]
    exact hinv.quiet hpc rfl rfl rfl rfl rfl

/-- A reader that waits has set the flag, so the writer goes on to wake it. -/
theorem RwInv.unlockWriter (hpc : s.pc t = .unlockWriter side) : RwInv (s.unlockWriter t) := by
  have hside := hinv.hold.sides t
  rw [hpc] at hside
  cases side with
  | reader => cases hside
  | writer =>
    have hfields := rwFields_clearWrlocked s.state
    have hrole := (afterWriter_places s.state).1
    constructor
    case hold => exact hinv.hold.releaseWriter (by rw [hpc]; rfl)
    case pend =>
      refine hinv.pend.goto hpc rfl rfl rfl rfl ?_ hrole
      rw [hfields]
    case wait =>
      intro u
      rw [unlockWriter]
      by_cases hu : u = t
      · rw [hu, goto_pc_self]
        exact covered_of_idle _ hrole
      · rw [goto_pc_of_ne hu]
        cases hflagged : (s.pc u).flagged with
        | false => exact covered_of_not_flagged _ hflagged
        | true =>
          have hflag := (hinv.pend.agrees u).flag hflagged
          rw [afterWriter_of_flag hflag]
          have harmed : ({ s with
              state := s.state &&& ~~~rwsWrlocked }.goto t
              .unlockPending).Armed :=
            .inr ⟨t, goto_pc_self t _ _⟩
          exact (hinv.wait u).mono le_rfl (fun _ => harmed) fun _ _ => .inl harmed

theorem RwInv.unlockReader (hpc : s.pc t = .unlockReader side) : RwInv (s.unlockReader t) := by
  have hside := hinv.hold.sides t
  rw [hpc] at hside
  cases side with
  | writer => cases hside
  | reader =>
    have hholds : (s.pc t).holds = some .reader := by
      rw [hpc]
      rfl
    have hfields := rwFields_subReader (hinv.hold.readers_pos hholds)
    have hrole := (afterReader_places s.state).1
    constructor
    case hold => exact hinv.hold.releaseReader hholds
    case pend =>
      refine hinv.pend.goto hpc rfl rfl rfl rfl ?_ hrole
      rw [hfields]
    case wait =>
      refine hinv.wait.goto hpc rfl ?_ rfl rfl (covered_of_idle _ hrole)
      rw [hfields]
      exact id

/-- The section of `unlock` under the pending mutex: no reader is between the
setting of the flag and the load of the serial. -/
theorem RwInv.unlockPending (hpc : s.pc t = .unlockPending)
    (hstep : s.unlockPending t = some next) : RwInv next := by
  obtain ⟨hmutex, hnext⟩ := ite_none_right_eq_some.mp hstep
  rw [if_neg (not_not.mpr hinv.pend.noWriters)] at hnext
  split at hnext
  case isTrue hcount =>
    cases hnext
    constructor
    case hold => exact hinv.hold.goto hpc rfl rfl rfl rfl rfl
    case pend => exact hinv.pend.goto hpc rfl rfl rfl rfl rfl rfl
    case wait =>
      intro u
      by_cases hu : u = t
      · rw [advanceSerial, hu, goto_pc_self]
        exact trivial
      · rw [advanceSerial, goto_pc_of_ne hu]
        exact (hinv.wait u).advance (hinv.pend.agrees u) hmutex
  case isFalse hcount =>
    cases hnext
    constructor
    case hold => exact hinv.hold.goto hpc rfl rfl rfl rfl rfl
    case pend => exact hinv.pend.goto hpc rfl rfl rfl rfl rfl rfl
    case wait =>
      intro u
      by_cases hu : u = t
      · rw [hu, goto_pc_self]
        exact trivial
      · rw [goto_pc_of_ne hu]
        apply covered_of_not_flagged
        exact RwPc.not_flagged_of_not_pends (hinv.pend.not_pends (not_not.mp hcount) u)

/-- Every sleeping reader is woken. -/
theorem RwInv.wake (hcount : Fintype.card T ≤ 4294967295)
    (hpc : s.pc t = .wake .reader) : RwInv (s.wake t .reader) := by
  have hself := hinv.pend.agrees_at hpc
  have hlength := hinv.pend.nodup.length_le_card.trans hcount
  have hdrop : (s.pendingWq .reader).drop (wakeCount .reader) = [] := drop_eq_nil_of_le hlength
  have hplace : ∀ u, u ≠ t → _ := fun u => hinv.pend.wake_pc hcount
  constructor
  case hold =>
    refine HoldInv.keep hinv.hold rfl rfl (fun u => ?_) fun u => ?_
    · by_cases hu : u = t
      · rw [hu, hpc, RwWorld.wake, RwWorld.goto_pc_self]
        rfl
      · rw [hplace u hu]
        split
        case isTrue hmem =>
          rw [((hinv.pend.agrees u).asleep_iff).mp hmem]
          rfl
        case isFalse => rfl
    · by_cases hu : u = t
      · rw [hu, RwWorld.wake, RwWorld.goto_pc_self]
        rfl
      · rw [hplace u hu]
        split
        · rfl
        · exact hinv.hold.sides u
  case pend =>
    have hwq : (s.wake t .reader).pendingWq .reader = [] := by
      simp [RwWorld.wake, RwWorld.goto, hdrop]
    constructor
    case agrees =>
      intro u
      rw [RwWorld.RoleAgrees, hwq]
      by_cases hu : u = t
      · rw [hu, RwWorld.wake, RwWorld.goto_pc_self]
        exact ⟨hself.1, not_mem_nil⟩
      · have hagrees := hinv.pend.agrees u
        rw [hplace u hu]
        split
        case isTrue hmem =>
          rw [hagrees.asleep_iff.mp hmem] at hagrees
          exact ⟨hagrees.1, not_mem_nil, hagrees.2.2⟩
        case isFalse hmem =>
          rw [propext (iff_of_false not_mem_nil hmem)]
          exact hagrees
    case counted =>
      change _ = s.pendingCount .reader
      rw [← hinv.pend.counted]
      apply countWhere_congr
      intro u
      by_cases hu : u = t
      · rw [hu, hpc, RwWorld.wake, RwWorld.goto_pc_self]
        rfl
      · rw [hplace u hu]
        split
        case isTrue hmem =>
          rw [(hinv.pend.agrees u).asleep_iff.mp hmem]
          rfl
        case isFalse => rfl
    case noWriters => exact hinv.pend.noWriters
    case nodup =>
      rw [hwq]
      exact nodup_nil
  case wait =>
    intro u
    by_cases hu : u = t
    · rw [hu, RwWorld.wake, RwWorld.goto_pc_self]
      exact trivial
    · rw [hplace u hu]
      split
      case isTrue => exact trivial
      case isFalse hmem =>
        refine (hinv.wait u).mono le_rfl ?_ ?_
        · rintro (hlocked | ⟨v, hv⟩)
          · exact .inl hlocked
          · have hne : v ≠ t := by
              rintro rfl
              rw [hpc] at hv
              cases hv
            refine .inr ⟨v, ?_⟩
            rw [hplace v hne, if_neg, hv]
            rw [(hinv.pend.agrees v).asleep_iff, hv]
            simp
        · intro hpc'
          exact absurd ((hinv.pend.agrees u).asleep_iff.mpr hpc') hmem

/-! ## Every step -/

theorem RwInv.cas (hpc : s.pc t = .cas side first old)
    (hcareful : RwCareful s (.go t)) : RwInv (s.cas t side first old) := by
  rw [RwCareful, hpc] at hcareful
  rw [RwWorld.cas]
  split
  case isTrue hequal =>
    subst hequal
    cases side with
    | reader => exact hinv.takeReader hpc (hcareful rfl)
    | writer => exact hinv.takeWriter hpc (hcareful rfl)
  case isFalse => exact hinv.tries hpc rfl rfl rfl side first s.state

theorem RwInv.check (hpc : s.pc t = .check .reader) : RwInv (s.check t .reader) := by
  rw [RwWorld.check]
  split
  · exact hinv.quiet hpc rfl rfl rfl rfl rfl
  · exact hinv.quiet hpc rfl rfl rfl rfl rfl

theorem RwInv.advance (hcount : Fintype.card T ≤ 4294967295)
    (hcareful : RwCareful s (.go t)) (hstep : s.advance t = some next) : RwInv next := by
  rw [RwWorld.advance] at hstep
  split at hstep
  case h_1 | h_9 | h_12 => cases hstep
  case h_2 side first hpc =>
    cases hstep
    exact hinv.tries hpc rfl rfl rfl side first s.state
  case h_3 side first old hpc =>
    cases hstep
    exact hinv.cas hpc hcareful
  case h_4 side hpc =>
    cases hstep
    obtain rfl := hinv.pend.reader .check rfl hpc
    exact hinv.check hpc
  case h_5 side hpc =>
    obtain rfl := hinv.pend.reader .pending rfl hpc
    obtain ⟨hmutex, rfl⟩ := guard_some hstep
    exact hinv.pending hpc hmutex
  case h_6 side hpc =>
    cases hstep
    obtain rfl := hinv.pend.reader .fetchOr rfl hpc
    exact hinv.fetchOr hpc
  case h_7 side old hpc =>
    cases hstep
    obtain rfl := hinv.pend.reader (.loadSerial · old) rfl hpc
    exact hinv.loadSerial hpc
  case h_8 side old serial hpc =>
    cases hstep
    obtain rfl := hinv.pend.reader (.futexWait · old serial) rfl hpc
    rw [RwCareful, hpc] at hcareful
    exact hinv.futexWait hpc hcareful
  case h_10 side hpc =>
    obtain rfl := hinv.pend.reader .notPending rfl hpc
    exact hinv.notPending hpc hstep
  case h_11 side hpc =>
    cases hstep
    obtain rfl := hinv.pend.reader .fetchAnd rfl hpc
    exact hinv.fetchAnd hpc
  case h_13 side hpc =>
    cases hstep
    exact hinv.unlockLoad hpc
  case h_14 side hpc =>
    cases hstep
    exact hinv.unlockWriter hpc
  case h_15 side hpc =>
    cases hstep
    exact hinv.unlockReader hpc
  case h_16 hpc => exact hinv.unlockPending hpc hstep
  case h_17 side hpc =>
    cases hstep
    obtain rfl := hinv.pend.reader .wake rfl hpc
    exact hinv.wake hcount hpc

theorem RwInv.step {action : RwAction T} (hcount : Fintype.card T ≤ 4294967295)
    (hcareful : RwCareful s action) (hstep : rwStep s action = some next) : RwInv next := by
  cases action with
  | lock t side =>
    obtain ⟨hpc, rfl⟩ := guard_some hstep
    exact hinv.quiet hpc rfl rfl rfl rfl rfl
  | unlock t =>
    rw [rwStep] at hstep
    split at hstep
    case h_1 side hpc =>
      cases hstep
      exact hinv.quiet hpc rfl rfl rfl rfl rfl
    case h_2 => cases hstep
  | go t => exact hinv.advance hcount hcareful hstep

end Soda.Storpu
