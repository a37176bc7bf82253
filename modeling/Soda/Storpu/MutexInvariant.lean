import Soda.Core.Lists
import Soda.Storpu.MutexSteps

/-!
# The invariant of the mutex

Who holds the mutex, who is on which queue, and who will take the mutex or wake
a sleeper where a thread sleeps on a mutex that is not marked contended.
-/

namespace Soda.Storpu

open Function LockWorld LockPc List Bool

variable {T : Type}

/-- What the place of a thread says about its state and the two queues. -/
def LockPc.Queued (pc : LockPc) (blocked : Bool) (inMutex inCond : Prop) : Prop :=
  match pc with
  | .sched => (inMutex ↔ blocked = true) ∧ ¬inCond
  | .asleep => inMutex ∧ blocked = true ∧ ¬inCond
  | .condSched => ¬inMutex ∧ (inCond ↔ blocked = true)
  | .condAsleep => ¬inMutex ∧ inCond ∧ blocked = true
  | _ => ¬inMutex ∧ ¬inCond ∧ blocked = false

variable (s : LockWorld T)

/-- The thread is about to try the exchange of `mutex_lock` again. -/
def LockWorld.Retries (t : T) : Prop := s.pc t = .exchange ∨ s.pc t = .sched ∧ s.blocked t = false

/-- The next steps of the thread take the mutex, or wake a thread that sleeps in
`mutex_lock`. -/
def LockWorld.OnItsWay (t : T) : Prop := s.Retries t ∨ ∃ old, s.pc t = .wakeOne old

namespace LockPc

/-- Not between the queue section of `futex_wait` and its return. -/
def runs : LockPc → Bool
  | .sched => false
  | .asleep => false
  | .condSched => false
  | .condAsleep => false
  | _ => true

variable {pc : LockPc}

theorem queued_of_runs {blocked : Bool} {inMutex inCond : Prop} (hruns : pc.runs = true) :
    pc.Queued blocked inMutex inCond ↔ ¬inMutex ∧ ¬inCond ∧ blocked = false := by
  cases pc with
  | sched | asleep | condSched | condAsleep => cases hruns
  | _ => exact Iff.rfl

theorem runs_of_holds (hholds : pc.holds = true) : pc.runs = true := by
  cases pc with
  | holding | waitUnlock old | pulse kind => rfl
  | _ => cases hholds

theorem unlocked_runs (old : Option ℕ) : (unlocked old).runs = true := by
  cases old with
  | none | some old => rfl

theorem unlocked_holds (old : Option ℕ) : (unlocked old).holds = false := by
  cases old with
  | none | some old => rfl

theorem resume_of_runs (hruns : pc.runs = true) : pc.resume = pc := by
  cases pc with
  | sched | asleep | condSched | condAsleep => cases hruns
  | _ => rfl

theorem resume_holds (pc : LockPc) : pc.resume.holds = pc.holds := by
  cases pc with
  | _ => rfl

end LockPc

structure QueuesInv (s : LockWorld T) : Prop where
  queued : ∀ t, (s.pc t).Queued (s.blocked t) (t ∈ s.mutexQueue) (t ∈ s.condQueue)
  mutexNodup : s.mutexQueue.Nodup
  condNodup : s.condQueue.Nodup

def HeldInv : Prop :=
  if s.mutex = .unlocked then ∀ t, (s.pc t).holds = false
  else ∃ t, ∀ u, (s.pc u).holds = true ↔ u = t

def WakeInv : Prop := s.mutexQueue ≠ [] → s.mutex ≠ .lockedContended → ∃ t, s.OnItsWay t

variable {s base next : LockWorld T} {t : T} {pc : LockPc}

structure MutexInv (s : LockWorld T) : Prop where
  queues : QueuesInv s
  held : HeldInv s
  wake : WakeInv s

theorem mutexInv_init : MutexInv (init : LockWorld T) where
  queues :=
    { queued := fun _ => ⟨not_mem_nil, not_mem_nil, rfl⟩
      mutexNodup := nodup_nil
      condNodup := nodup_nil }
  held := fun _ => rfl
  wake := fun hsleeper => absurd rfl hsleeper

/-- A thread sleeps in `mutex_lock` exactly when it is on the queue of the
mutex. -/
theorem MutexInv.sleepsInLock_iff (hinv : MutexInv s) (t : T) :
    s.SleepsInLock t ↔ t ∈ s.mutexQueue := by
  have hqueued := hinv.queues.queued t
  rw [LockWorld.SleepsInLock]
  cases hpc : s.pc t <;> simp_all [LockPc.Queued]

theorem MutexInv.sleepsInWait_iff (hinv : MutexInv s) (t : T) :
    s.SleepsInWait t ↔ t ∈ s.condQueue := by
  have hqueued := hinv.queues.queued t
  rw [LockWorld.SleepsInWait]
  cases hpc : s.pc t <;> simp_all [LockPc.Queued]

theorem MutexInv.exclusive (hinv : MutexInv s) {u : T}
    (ht : (s.pc t).holds = true) (hu : (s.pc u).holds = true) : t = u := by
  have hheld := hinv.held
  rw [HeldInv] at hheld
  split at hheld
  · exact absurd ((hheld t).symm.trans ht) false_ne_true
  · obtain ⟨holder, hholder⟩ := hheld
    exact ((hholder t).mp ht).trans ((hholder u).mp hu).symm

/-- A move that neither takes nor releases the mutex. -/
theorem HeldInv.keep (hheld : HeldInv s) (hmutex : next.mutex = .unlocked ↔ s.mutex = .unlocked)
    (hholds : ∀ t, (next.pc t).holds = (s.pc t).holds) : HeldInv next := by
  rw [HeldInv]
  simp only [hmutex, hholds]
  exact hheld

theorem WakeInv.keep (hwake : WakeInv s) (hqueue : next.mutexQueue = s.mutexQueue)
    (hmutex : next.mutex ≠ .lockedContended → s.mutex ≠ .lockedContended)
    (hways : ∀ t, s.OnItsWay t → next.OnItsWay t) : WakeInv next := by
  intro hsleeper hcontended
  rw [hqueue] at hsleeper
  obtain ⟨t, hway⟩ := hwake hsleeper (hmutex hcontended)
  exact ⟨t, hways t hway⟩

/-- The places from which a thread neither takes the mutex nor wakes a sleeper
next. -/
theorem LockWorld.not_onItsWay
    (hpc : s.pc t = .outside ∨ s.pc t = .trylock ∨ (s.pc t).holds = true ∨
      (∃ old, s.pc t = .condFutexWait old) ∨ s.pc t = .condSched ∨
      s.pc t = .sched ∧ s.blocked t = true) : ¬s.OnItsWay t := by
  rintro ((hway | ⟨hway, hblocked⟩) | ⟨old, hway⟩) <;>
    simp_all [holds]

theorem wakeInv_of_onItsWay (hway : s.OnItsWay t) : WakeInv s :=
  fun _ _ => ⟨t, hway⟩

theorem wakeInv_of_contended (hmutex : s.mutex = .lockedContended) : WakeInv s :=
  fun _ hcontended => absurd hmutex hcontended

/-! ## The queues -/

variable [DecidableEq T]

variable (hinv : QueuesInv s)
include hinv

theorem QueuesInv.goto (hpc : base.pc = s.pc)
    (hblocked : base.blocked = s.blocked) (hmutex : base.mutexQueue = s.mutexQueue)
    (hcond : base.condQueue = s.condQueue)
    (hqueued : pc.Queued (s.blocked t) (t ∈ s.mutexQueue) (t ∈ s.condQueue)) :
    QueuesInv (base.goto t pc) where
  queued := by
    intro u
    change ((base.goto t pc).pc u).Queued (base.blocked u)
      (u ∈ base.mutexQueue) (u ∈ base.condQueue)
    rw [hblocked, hmutex, hcond]
    by_cases hu : u = t
    · rw [hu, goto_pc_self]
      exact hqueued
    · rw [goto_pc_of_ne hu, hpc]
      exact hinv.queued u
  mutexNodup := by
    change base.mutexQueue.Nodup
    rw [hmutex]
    exact hinv.mutexNodup
  condNodup := by
    change base.condQueue.Nodup
    rw [hcond]
    exact hinv.condNodup

theorem QueuesInv.sleep_mutex (hpc : s.pc t = .futexWait) :
    QueuesInv ({ s with
      blocked := update s.blocked t true
      mutexQueue := s.mutexQueue ++ [t] }.goto t .sched) := by
  have hself := hinv.queued t
  simp only [hpc, LockPc.Queued] at hself
  obtain ⟨hmutex, hcond, -⟩ := hself
  constructor
  case queued =>
    intro u
    by_cases hu : u = t
    · simp [LockWorld.goto, LockPc.Queued, hu, hcond]
    · simpa [LockWorld.goto, hu] using hinv.queued u
  case mutexNodup =>
    exact List.Nodup.append hinv.mutexNodup (nodup_singleton t) (disjoint_singleton.mpr hmutex)
  case condNodup => exact hinv.condNodup

theorem QueuesInv.sleep_cond {old : ℕ} {place : T → ℕ} (hpc : s.pc t = .condFutexWait old) :
    QueuesInv ({ s with
      blocked := update s.blocked t true
      condQueue := s.condQueue ++ [t]
      place := place }.goto t .condSched) := by
  have hself := hinv.queued t
  simp only [hpc, LockPc.Queued] at hself
  obtain ⟨hmutex, hcond, -⟩ := hself
  constructor
  case queued =>
    intro u
    by_cases hu : u = t
    · simp [LockWorld.goto, LockPc.Queued, hu, hmutex]
    · simpa [LockWorld.goto, hu] using hinv.queued u
  case mutexNodup => exact hinv.mutexNodup
  case condNodup =>
    exact List.Nodup.append hinv.condNodup (nodup_singleton t) (disjoint_singleton.mpr hcond)

theorem QueuesInv.mutexWake (count : ℕ) : QueuesInv (s.mutexWake count) := by
  rw [mutexWake_eq]
  constructor
  case queued =>
    intro t
    have hqueued := hinv.queued t
    simp only [mem_drop_iff_notMem_take hinv.mutexNodup]
    by_cases htake : t ∈ s.mutexQueue.take count
    · have hmem := mem_of_mem_take htake
      cases hpc : s.pc t <;>
        simp_all [LockPc.Queued, LockPc.resume]
    · simpa [htake] using hqueued
  case mutexNodup => exact hinv.mutexNodup.sublist (drop_sublist _ _)
  case condNodup => exact hinv.condNodup

theorem QueuesInv.condWake (count : ℕ) : QueuesInv (s.condWake count) := by
  rw [condWake_eq]
  constructor
  case queued =>
    intro t
    have hqueued := hinv.queued t
    simp only [mem_drop_iff_notMem_take hinv.condNodup]
    by_cases htake : t ∈ s.condQueue.take count
    · have hmem := mem_of_mem_take htake
      cases hpc : s.pc t <;>
        simp_all [LockPc.Queued, LockPc.resume]
    · simpa [htake] using hqueued
  case mutexNodup => exact hinv.mutexNodup
  case condNodup => exact hinv.condNodup.sublist (drop_sublist _ _)

omit hinv

theorem LockWorld.mutexWake_pc_of_runs (hruns : (s.pc t).runs = true)
    (count : ℕ) : (s.mutexWake count).pc t = s.pc t := by
  rw [mutexWake_eq]
  simp only [resume_of_runs hruns, ite_self]

theorem LockWorld.condWake_pc_of_runs (hruns : (s.pc t).runs = true) (count : ℕ) :
    (s.condWake count).pc t = s.pc t := by
  rw [condWake_eq]
  simp only [resume_of_runs hruns, ite_self]

theorem QueuesInv.goto_runs (hinv : QueuesInv s) (hpc : base.pc = s.pc)
    (hblocked : base.blocked = s.blocked) (hmutex : base.mutexQueue = s.mutexQueue)
    (hcond : base.condQueue = s.condQueue) (hleft : (s.pc t).runs = true)
    (hright : pc.runs = true) : QueuesInv (base.goto t pc) := by
  have hqueued := (queued_of_runs hleft).mp (hinv.queued t)
  exact hinv.goto hpc hblocked hmutex hcond ((queued_of_runs hright).mpr hqueued)

theorem LockMove.queues (hmove : LockMove s t next) (hinv : QueuesInv s) : QueuesInv next := by
  cases hmove with
  | lock hpc | tryTaken hpc | tryFailed hpc | taken hpc | contended hpc | retried hpc
  | waited hpc | condMissed old hpc | pulsed kind hpc =>
    exact hinv.goto_runs rfl rfl rfl rfl (by rw [hpc]; rfl) rfl
  | queued hpc => exact hinv.sleep_mutex hpc
  | descheduled hpc hblocked =>
    have hqueued := hinv.queued t
    rw [hpc] at hqueued
    refine hinv.goto rfl rfl rfl rfl ?_
    exact ⟨hqueued.1.mpr hblocked, hblocked, hqueued.2⟩
  | stayed hpc hblocked =>
    have hqueued := hinv.queued t
    rw [hpc] at hqueued
    refine hinv.goto rfl rfl rfl rfl ⟨?_, hqueued.2, hblocked⟩
    rw [hqueued.1, hblocked]
    exact false_ne_true
  | unlocked old hholds =>
    exact hinv.goto_runs rfl rfl rfl rfl (runs_of_holds hholds) (unlocked_runs old)
  | unlockedContended old hholds => exact hinv.goto_runs rfl rfl rfl rfl (runs_of_holds hholds) rfl
  | woke old hpc =>
    refine (hinv.mutexWake 1).goto_runs rfl rfl rfl rfl ?_ (unlocked_runs old)
    rw [mutexWake_pc_of_runs (by rw [hpc]; rfl), hpc]
    rfl
  | condQueued hpc => exact hinv.sleep_cond hpc
  | condDescheduled hpc hblocked =>
    have hqueued := hinv.queued t
    rw [hpc] at hqueued
    refine hinv.goto rfl rfl rfl rfl ?_
    exact ⟨hqueued.1, hqueued.2.mpr hblocked, hblocked⟩
  | condStayed hpc hblocked =>
    have hqueued := hinv.queued t
    rw [hpc] at hqueued
    refine hinv.goto rfl rfl rfl rfl ⟨hqueued.1, ?_, hblocked⟩
    rw [hqueued.2, hblocked]
    exact false_ne_true
  | pulseWoke kind hpc =>
    refine (hinv.condWake kind.count).goto_runs rfl rfl rfl rfl ?_ rfl
    rw [condWake_pc_of_runs (by rw [hpc]; rfl), hpc]
    rfl

/-! ## Who holds the mutex -/

theorem HeldInv.goto (hheld : HeldInv s) (hmutex : base.mutex = .unlocked ↔ s.mutex = .unlocked)
    (hbase : ∀ t, (base.pc t).holds = (s.pc t).holds)
    (hholds : pc.holds = (s.pc t).holds) : HeldInv (base.goto t pc) := by
  refine HeldInv.keep hheld hmutex fun u => ?_
  by_cases hu : u = t
  · rw [hu, goto_pc_self, hholds]
  · rw [goto_pc_of_ne hu, hbase u]

theorem HeldInv.take (hheld : HeldInv s) (hpc : base.pc = s.pc)
    (hfree : s.mutex = .unlocked) (hmutex : base.mutex ≠ .unlocked) :
    HeldInv (base.goto t .holding) := by
  rw [HeldInv, if_pos hfree] at hheld
  rw [HeldInv, goto_mutex, if_neg hmutex]
  refine ⟨t, fun u => ?_⟩
  by_cases hu : u = t
  · simp [hu, holds]
  · simp [goto_pc_of_ne hu, hpc, hheld u, hu]

theorem HeldInv.release (hheld : HeldInv s) (hpc : base.pc = s.pc) (hfrom : (s.pc t).holds = true)
    (hto : pc.holds = false) (hmutex : base.mutex = .unlocked) : HeldInv (base.goto t pc) := by
  have hlocked : s.mutex ≠ .unlocked := by
    intro hfree
    rw [HeldInv, if_pos hfree] at hheld
    exact false_ne_true ((hheld t).symm.trans hfrom)
  rw [HeldInv, if_neg hlocked] at hheld
  obtain ⟨holder, hholder⟩ := hheld
  rw [HeldInv, goto_mutex, if_pos hmutex]
  intro u
  by_cases hu : u = t
  · rw [hu, goto_pc_self, hto]
  · rw [goto_pc_of_ne hu, hpc]
    apply eq_false_of_not_eq_true
    intro hholds
    exact hu (((hholder u).mp hholds).trans ((hholder t).mp hfrom).symm)

theorem LockWorld.mutexWake_holds (s : LockWorld T) (count : ℕ) (t : T) :
    ((s.mutexWake count).pc t).holds = (s.pc t).holds := by
  rw [mutexWake_eq]
  dsimp only
  split
  · exact resume_holds (s.pc t)
  · rfl

theorem LockWorld.condWake_holds (s : LockWorld T) (count : ℕ) (t : T) :
    ((s.condWake count).pc t).holds = (s.pc t).holds := by
  rw [condWake_eq]
  dsimp only
  split
  · exact resume_holds (s.pc t)
  · rfl

theorem LockMove.held (hmove : LockMove s t next) (hheld : HeldInv s) : HeldInv next := by
  cases hmove with
  | lock hpc | tryFailed hpc | queued hpc | retried hpc | descheduled hpc | stayed hpc
  | waited hpc | condQueued hpc | condMissed old hpc | condDescheduled hpc | condStayed hpc
  | pulsed kind hpc => exact hheld.goto Iff.rfl (fun _ => rfl) (by rw [hpc]; rfl)
  | tryTaken hpc hmutex | taken hpc hmutex => exact hheld.take rfl hmutex nofun
  | contended hpc hmutex =>
    refine hheld.goto ?_ (fun _ => rfl) (by rw [hpc]; rfl)
    simp [hmutex]
  | unlocked old hholds => exact hheld.release rfl hholds (unlocked_holds old) rfl
  | unlockedContended old hholds => exact hheld.release rfl hholds rfl rfl
  | woke old hpc =>
    refine hheld.goto ?_ (s.mutexWake_holds 1) ?_
    · rw [mutexWake_eq]
    · rw [unlocked_holds, hpc]
      rfl
  | pulseWoke kind hpc =>
    refine hheld.goto ?_ (s.condWake_holds kind.count) (by rw [hpc]; rfl)
    change (s.condWake kind.count).mutex = .unlocked ↔ _
    rw [condWake_eq]

/-! ## Who wakes a sleeper -/

theorem LockWorld.OnItsWay.goto {u : T} (hway : s.OnItsWay u) (hne : u ≠ t)
    (hpc : base.pc u = s.pc u) (hblocked : base.blocked u = s.blocked u) :
    (base.goto t pc).OnItsWay u := by
  have hpc' : (base.goto t pc).pc u = s.pc u := by
    rw [goto_pc_of_ne hne, hpc]
  have hblocked' : (base.goto t pc).blocked u = s.blocked u := hblocked
  rw [OnItsWay, Retries, hpc', hblocked']
  exact hway

theorem WakeInv.goto (hwake : WakeInv s) (hpc : base.pc = s.pc)
    (hblocked : ∀ u, u ≠ t → base.blocked u = s.blocked u) (hqueue : base.mutexQueue = s.mutexQueue)
    (hmutex : base.mutex ≠ .lockedContended → s.mutex ≠ .lockedContended)
    (hnot : ¬s.OnItsWay t) : WakeInv (base.goto t pc) := by
  apply hwake.keep
  · exact hqueue
  · exact hmutex
  · intro u hway
    have hne : u ≠ t := by
      intro heq
      exact hnot (heq ▸ hway)
    exact hway.goto hne (congrFun hpc u) (hblocked u hne)

/-- A thread that is woken from the queue of the mutex tries again. -/
theorem LockWorld.retries_of_woken (hinv : QueuesInv s) {count : ℕ}
    (htake : t ∈ s.mutexQueue.take count) : (s.mutexWake count).Retries t := by
  have hqueued := hinv.queued t
  have hmem := mem_of_mem_take htake
  rw [mutexWake_eq, Retries]
  cases hpc : s.pc t <;>
    simp_all [LockPc.Queued, LockPc.resume]

theorem LockWorld.OnItsWay.condWake (hway : s.OnItsWay t) (count : ℕ) :
    (s.condWake count).OnItsWay t := by
  rcases hway with (hpc | ⟨hpc, hblocked⟩) | ⟨old, hpc⟩
  · left
    left
    rw [condWake_pc_of_runs (by rw [hpc]; rfl), hpc]
  · left
    right
    rw [condWake_eq]
    simp [hpc, hblocked]
  · right
    exact ⟨old, by rw [condWake_pc_of_runs (by rw [hpc]; rfl), hpc]⟩

/-- `mutex_unlock` makes the first sleeper try again. -/
theorem QueuesInv.retries_of_wakeOne (hinv : QueuesInv s) {old : Option ℕ}
    (hpc : s.pc t = .wakeOne old) (pc : LockPc) (hsleeper : s.mutexQueue ≠ []) :
    ∃ u, ((s.mutexWake 1).goto t pc).Retries u := by
  obtain ⟨u, hu⟩ : ∃ u, u ∈ s.mutexQueue.take 1 := by
    cases hqueue : s.mutexQueue with
    | nil => exact absurd hqueue hsleeper
    | cons u rest => exact ⟨u, mem_cons_self⟩
  have hne : u ≠ t := by
    rintro rfl
    have hrunning := hinv.queued u
    rw [hpc] at hrunning
    exact hrunning.1 (mem_of_mem_take hu)
  refine ⟨u, ?_⟩
  rw [LockWorld.Retries, goto_pc_of_ne hne]
  exact retries_of_woken hinv hu

theorem LockMove.wake (hmove : LockMove s t next) (hinv : QueuesInv s)
    (hwake : WakeInv s) : WakeInv next := by
  have hsame : ∀ t : T, ∀ u, u ≠ t → s.blocked u = s.blocked u :=
    fun _ _ _ => rfl
  cases hmove with
  | lock hpc => exact hwake.goto rfl (hsame t) rfl id (s.not_onItsWay (.inl hpc))
  | tryTaken hpc hmutex =>
    refine hwake.goto rfl (hsame t) rfl (fun _ => ?_) (s.not_onItsWay (.inr (.inl hpc)))
    rw [hmutex]
    exact nofun
  | tryFailed hpc | retried hpc | stayed hpc =>
    exact wakeInv_of_onItsWay (.inl (.inl (s.goto_pc_self t _)))
  | taken hpc | contended hpc => exact wakeInv_of_contended rfl
  | queued hpc hmutex => exact wakeInv_of_contended hmutex
  | descheduled hpc hblocked =>
    refine hwake.goto rfl (hsame t) rfl id (s.not_onItsWay ?_)
    simp [hpc, hblocked]
  | unlocked old hholds _ hmutex =>
    refine hwake.goto rfl (hsame t) rfl (fun _ => hmutex) (s.not_onItsWay ?_)
    simp [hholds]
  | unlockedContended old =>
    refine wakeInv_of_onItsWay (t := t) (.inr ⟨old, ?_⟩)
    exact goto_pc_self t _ _
  | woke old hpc =>
    intro hsleeper _
    have hbefore : s.mutexQueue ≠ [] := by
      intro hnil
      apply hsleeper
      change (s.mutexWake 1).mutexQueue = []
      rw [mutexWake_eq, hnil]
      rfl
    obtain ⟨u, hretries⟩ := hinv.retries_of_wakeOne hpc _ hbefore
    exact ⟨u, .inl hretries⟩
  | waited hpc | pulsed kind hpc =>
    refine hwake.goto rfl (hsame t) rfl id (s.not_onItsWay ?_)
    simp [hpc, holds]
  | condQueued hpc =>
    refine hwake.goto rfl (fun u hu => ?_) rfl id (s.not_onItsWay ?_)
    · exact update_of_ne hu true s.blocked
    · simp [hpc]
  | condMissed old hpc | condDescheduled hpc | condStayed hpc =>
    refine hwake.goto rfl (hsame t) rfl id (s.not_onItsWay ?_)
    simp [hpc]
  | pulseWoke kind hpc =>
    have hnot : ¬s.OnItsWay t := s.not_onItsWay (by simp [hpc, holds])
    refine hwake.keep ?_ ?_ fun u hway => ?_
    · change (s.condWake kind.count).mutexQueue = _
      rw [condWake_eq]
    · change (s.condWake kind.count).mutex ≠ _ → _
      rw [condWake_eq]
      exact id
    · have hne : u ≠ t := by
        intro heq
        exact hnot (heq ▸ hway)
      exact (hway.condWake kind.count).goto hne rfl rfl

/-! ## The invariant of every run -/

theorem MutexInv.step {action : LockAction T} (hinv : MutexInv s)
    (hstep : lockStep s action = some next) : MutexInv next := by
  have hmove := lockStep_move hstep
  exact ⟨hmove.queues hinv.queues, hmove.held hinv.held, hmove.wake hinv.queues hinv.wake⟩

end Soda.Storpu
