import Soda.Storpu.Mutex

/-!
# What a step of a lock changes

The moves of the mutex and the condition variable, each with what has to hold
before it, and the effect of a wake-up on every thread at once.
-/

namespace Soda.Storpu

open Function Option

variable {T : Type} [DecidableEq T]

namespace LockWorld

@[simp]
theorem goto_pc_self (t : T) (pc : LockPc) (s : LockWorld T) : (s.goto t pc).pc t = pc := by
  simp [goto]

theorem goto_pc_of_ne {t u : T} (hne : u ≠ t) (pc : LockPc)
    (s : LockWorld T) : (s.goto t pc).pc u = s.pc u := by
  simp [goto, hne]

theorem goto_mutex (t : T) (pc : LockPc) (s : LockWorld T) : (s.goto t pc).mutex = s.mutex := rfl

/-- Each thread of the list is runnable afterwards, and the others are as they
were. -/
theorem wakeUpThreads_eq (ts : List T) (s : LockWorld T) :
    s.wakeUpThreads ts =
      { s with
        blocked := fun t => if t ∈ ts then false else s.blocked t
        pc := fun t => if t ∈ ts ∧ s.blocked t then (s.pc t).resume
          else s.pc t } := by
  induction ts generalizing s with
  | nil => simp [wakeUpThreads]
  | cons head ts ih =>
    have hcons : s.wakeUpThreads (head :: ts) = (s.wakeUpThread head).wakeUpThreads ts := rfl
    rw [hcons, ih, wakeUpThread]
    by_cases hblocked : s.blocked head
    · rw [if_pos hblocked]
      congr 1
      · funext t
        by_cases hhead : t = head
        · simp [hhead]
        · simp [hhead, update_of_ne]
      · funext t
        by_cases hhead : t = head
        · simp [hhead, hblocked]
        · simp [hhead, update_of_ne]
    · rw [if_neg hblocked]
      congr 1
      · funext t
        by_cases hhead : t = head
        · simp [hhead, hblocked]
        · simp [hhead]
      · funext t
        by_cases hhead : t = head
        · simp [hhead, hblocked]
        · simp [hhead]

theorem mutexWake_eq (count : ℕ) (s : LockWorld T) :
    s.mutexWake count =
      { s with
        mutexQueue := s.mutexQueue.drop count
        blocked := fun t => if t ∈ s.mutexQueue.take count then false
          else s.blocked t
        pc := fun t =>
          if t ∈ s.mutexQueue.take count ∧ s.blocked t = true then
            (s.pc t).resume
          else s.pc t } :=
  wakeUpThreads_eq _ _

theorem condWake_eq (count : ℕ) (s : LockWorld T) :
    s.condWake count =
      { s with
        condQueue := s.condQueue.drop count
        blocked := fun t => if t ∈ s.condQueue.take count then false
          else s.blocked t
        pc := fun t =>
          if t ∈ s.condQueue.take count ∧ s.blocked t = true then
            (s.pc t).resume
          else s.pc t } :=
  wakeUpThreads_eq _ _

end LockWorld

inductive LockMove (s : LockWorld T) (t : T) : LockWorld T → Prop
  | lock (hpc : s.pc t = .outside) : LockMove s t (s.goto t .trylock)
  | tryTaken (hpc : s.pc t = .trylock) (hmutex : s.mutex = .unlocked) :
      LockMove s t ({ s with mutex := .lockedUncontended }.goto t .holding)
  | tryFailed (hpc : s.pc t = .trylock) (hmutex : s.mutex ≠ .unlocked) :
      LockMove s t (s.goto t .exchange)
  | taken (hpc : s.pc t = .exchange) (hmutex : s.mutex = .unlocked) :
      LockMove s t ({ s with mutex := .lockedContended }.goto t .holding)
  | contended (hpc : s.pc t = .exchange) (hmutex : s.mutex ≠ .unlocked) :
      LockMove s t ({ s with mutex := .lockedContended }.goto t .futexWait)
  | queued (hpc : s.pc t = .futexWait) (hmutex : s.mutex = .lockedContended) :
      LockMove s t
        ({ s with
          blocked := update s.blocked t true
          mutexQueue := s.mutexQueue ++ [t] }.goto t .sched)
  | retried (hpc : s.pc t = .futexWait)
      (hmutex : s.mutex ≠ .lockedContended) : LockMove s t (s.goto t .exchange)
  | descheduled (hpc : s.pc t = .sched) (hblocked : s.blocked t = true) :
      LockMove s t (s.goto t .asleep)
  | stayed (hpc : s.pc t = .sched) (hblocked : s.blocked t = false) :
      LockMove s t (s.goto t .exchange)
  | unlocked (old : Option ℕ) (hholds : (s.pc t).holds = true)
      (hold : s.pc t = .holding ∧ old = none ∨
        ∃ value, s.pc t = .waitUnlock value ∧ old = some value)
      (hmutex : s.mutex ≠ .lockedContended) :
      LockMove s t ({ s with mutex := .unlocked }.goto t (.unlocked old))
  | unlockedContended (old : Option ℕ) (hholds : (s.pc t).holds = true)
      (hold : s.pc t = .holding ∧ old = none ∨
        ∃ value, s.pc t = .waitUnlock value ∧ old = some value)
      (hmutex : s.mutex = .lockedContended) :
      LockMove s t ({ s with mutex := .unlocked }.goto t (.wakeOne old))
  | woke (old : Option ℕ) (hpc : s.pc t = .wakeOne old) :
      LockMove s t ((s.mutexWake 1).goto t (.unlocked old))
  | waited (hpc : s.pc t = .holding) :
      LockMove s t ({ s with entered := update s.entered t s.pulses }.goto t
          (.waitUnlock s.condState))
  | condQueued (hpc : s.pc t = .condFutexWait s.condState) :
      LockMove s t
        ({ s with
          blocked := update s.blocked t true
          condQueue := s.condQueue ++ [t]
          place := update s.place t (s.finished + s.condQueue.length) }.goto t .condSched)
  | condMissed (old : ℕ) (hpc : s.pc t = .condFutexWait old)
      (hstate : s.condState ≠ old) : LockMove s t (s.goto t .trylock)
  | condDescheduled (hpc : s.pc t = .condSched)
      (hblocked : s.blocked t = true) : LockMove s t (s.goto t .condAsleep)
  | condStayed (hpc : s.pc t = .condSched)
      (hblocked : s.blocked t = false) : LockMove s t (s.goto t .trylock)
  | pulsed (kind : CondPulse) (hpc : s.pc t = .holding) :
      LockMove s t (s.condPulse t kind)
  | pulseWoke (kind : CondPulse) (hpc : s.pc t = .pulse kind) :
      LockMove s t (s.condPulseWake t kind)

variable {s : LockWorld T}

theorem LockWorld.mutexUnlock_move {t : T} {old : Option ℕ}
    (hold : s.pc t = .holding ∧ old = none ∨
      ∃ value, s.pc t = .waitUnlock value ∧ old = some value) :
    LockMove s t (s.mutexUnlock t old) := by
  have hholds : (s.pc t).holds = true := by
    rcases hold with ⟨hpc, -⟩ | ⟨value, hpc, -⟩ <;> rw [hpc] <;> rfl
  rw [mutexUnlock]
  split
  case isTrue hmutex => exact .unlockedContended old hholds hold hmutex
  case isFalse hmutex => exact .unlocked old hholds hold hmutex

theorem LockWorld.advance_move {next : LockWorld T} {t : T}
    (hstep : s.advance t = some next) : LockMove s t next := by
  rw [advance] at hstep
  split at hstep
  case h_1 | h_6 | h_7 | h_12 => cases hstep
  case h_2 hpc =>
    rw [← some.inj hstep, mutexTrylock]
    split
    case isTrue hmutex => exact .tryTaken hpc hmutex
    case isFalse hmutex => exact .tryFailed hpc hmutex
  case h_3 hpc =>
    rw [← some.inj hstep, mutexExchange]
    split
    case isTrue hmutex => exact .taken hpc hmutex
    case isFalse hmutex => exact .contended hpc hmutex
  case h_4 hpc =>
    rw [← some.inj hstep, mutexFutexWait]
    split
    case isTrue hmutex => exact .queued hpc hmutex
    case isFalse hmutex => exact .retried hpc hmutex
  case h_5 hpc =>
    cases hstep
    split
    case isTrue hblocked => exact .descheduled hpc hblocked
    case isFalse hblocked =>
      exact .stayed hpc (Bool.eq_false_of_not_eq_true hblocked)
  case h_8 old hpc =>
    cases hstep
    exact mutexUnlock_move (.inr ⟨old, hpc, rfl⟩)
  case h_9 old hpc =>
    cases hstep
    exact .woke old hpc
  case h_10 old hpc =>
    rw [← some.inj hstep, condFutexWait]
    split
    case isTrue hstate => exact .condQueued (hstate ▸ hpc)
    case isFalse hstate => exact .condMissed old hpc hstate
  case h_11 hpc =>
    cases hstep
    split
    case isTrue hblocked => exact .condDescheduled hpc hblocked
    case isFalse hblocked =>
      exact .condStayed hpc (Bool.eq_false_of_not_eq_true hblocked)
  case h_13 kind hpc =>
    cases hstep
    exact .pulseWoke kind hpc

theorem lockStep_move {next : LockWorld T} {action : LockAction T}
    (hstep : lockStep s action = some next) : LockMove s action.thread next := by
  cases action with
  | lock t =>
    obtain ⟨hpc, rfl⟩ := guard_some hstep
    exact .lock hpc
  | unlock t =>
    obtain ⟨hpc, rfl⟩ := guard_some hstep
    exact LockWorld.mutexUnlock_move (.inl ⟨hpc, rfl⟩)
  | wait t =>
    obtain ⟨hpc, rfl⟩ := guard_some hstep
    exact .waited hpc
  | signal t =>
    obtain ⟨hpc, rfl⟩ := guard_some hstep
    exact .pulsed .signal hpc
  | broadcast t =>
    obtain ⟨hpc, rfl⟩ := guard_some hstep
    exact .pulsed .broadcast hpc
  | go t => exact LockWorld.advance_move hstep

end Soda.Storpu
