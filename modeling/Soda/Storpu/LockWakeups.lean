import Soda.Core.Fair
import Soda.Storpu.MutexInvariant

/-!
# Wake-ups of the mutex and the condition variable

In a fair run a mutex that stays unlocked has no sleepers.  A thread that waits
on the condition variable goes to sleep only if nothing was signalled since it
entered, it is awake once a broadcast made after that is finished, and it is
awake once as many signals are finished as there were sleepers before it, and
one more.
-/

namespace Soda.Storpu

open Function LockWorld List Option

variable {T : Type} [DecidableEq T]

/-! ## Fair runs of the mutex -/

def LockPc.inside : LockPc → Bool
  | .outside => false
  | .asleep => false
  | .holding => false
  | .condAsleep => false
  | _ => true

variable {s next : LockWorld T} {t : T}

theorem LockWorld.advance_isSome (hinside : (s.pc t).inside = true) : (s.advance t).isSome := by
  rw [advance]
  cases hpc : s.pc t with
  | outside | asleep | holding | condAsleep =>
    rw [hpc] at hinside
    cases hinside
  | _ => rfl

/-- A move changes no other thread that is not blocked. -/
theorem LockMove.frame {u : T} (hmove : LockMove s t next) (hne : u ≠ t)
    (hblocked : s.blocked u = false) : next.pc u = s.pc u ∧ next.blocked u = false := by
  cases hmove with
  | queued hpc | condQueued hpc =>
    refine ⟨goto_pc_of_ne hne _ _, ?_⟩
    exact (update_of_ne hne true s.blocked).trans hblocked
  | woke old hpc =>
    rw [goto_pc_of_ne hne, mutexWake_eq]
    simp [goto, hblocked]
  | pulseWoke kind hpc =>
    rw [condPulseWake, goto_pc_of_ne hne, condWake_eq]
    simp [goto, hblocked]
  | _ => exact ⟨goto_pc_of_ne hne _ _, hblocked⟩

theorem lockStep_eq_go {action : LockAction T} (hstep : lockStep s action = some next)
    (hinside : (s.pc action.thread).inside = true) : action = .go action.thread := by
  cases action with
  | go t => rfl
  | lock t | unlock t | wait t | signal t | broadcast t =>
    obtain ⟨hpc, -⟩ := ite_none_right_eq_some.mp hstep
    change (s.pc t).inside = true at hinside
    rw [hpc] at hinside
    cases hinside

section Fair

variable {states : ℕ → LockWorld T} {actions : ℕ → Option (LockAction T)}

variable (hrun : FairRun lockStep LockAction.go states actions)
include hrun

variable {n : ℕ}

/-- A thread that is inside an operation takes its next step. -/
theorem lock_moves {pc : LockPc} (hpc : (states n).pc t = pc)
    (hblocked : (states n).blocked t = false) (hinside : pc.inside = true) :
    ∃ m, n ≤ m ∧ (states m).pc t = pc ∧ (states m).blocked t = false ∧
      (states m).advance t = some (states (m + 1)) := by
  obtain ⟨m, hle, ⟨hpc', hblocked'⟩, haction⟩ :=
    hrun.moves t (fun s => s.pc t = pc ∧ s.blocked t = false)
      (fun m _ hwaiting => advance_isSome (hwaiting.1 ▸ hinside))
      (fun m action _ hwaiting haction hother => by
        have hstep := hrun.acts m action haction
        have hne : t ≠ action.thread := by
          intro heq
          apply hother
          rw [heq]
          refine lockStep_eq_go hstep ?_
          rw [← heq, hwaiting.1]
          exact hinside
        have hframe := (lockStep_move hstep).frame hne hwaiting.2
        exact ⟨hframe.1.trans hwaiting.1, hframe.2⟩)
      ⟨hpc, hblocked⟩
  exact ⟨m, hle, hpc', hblocked', hrun.acts m _ haction⟩

theorem mutexInv_of_fair (hinit : states 0 = init) (n : ℕ) : MutexInv (states n) := by
  refine hrun.invariant MutexInv (fun m action _ hinv haction => ?_) ?_ (Nat.zero_le n)
  · exact hinv.step (hrun.acts m action haction)
  · rw [hinit]
    exact mutexInv_init

/-- Where the mutex stays unlocked, no thread is about to try again: it would
take it. -/
theorem not_retries (hinit : states 0 = init)
    (hunlocked : ∀ m, n ≤ m → (states m).mutex = .unlocked) (t : T) : ¬(states n).Retries t := by
  have hexchange : ∀ m, n ≤ m → (states m).pc t ≠ .exchange := by
    intro m hle hpc
    have hqueued := (mutexInv_of_fair hrun hinit m).queues.queued t
    rw [hpc] at hqueued
    obtain ⟨k, hk, hpc', -, hstep⟩ := lock_moves hrun hpc hqueued.2.2 rfl
    rw [advance, hpc'] at hstep
    have hlocked := hunlocked (k + 1) (by omega)
    rw [← some.inj hstep] at hlocked
    cases hlocked
  rintro (hpc | ⟨hpc, hblocked⟩)
  · exact hexchange n le_rfl hpc
  · obtain ⟨k, hk, hpc', hblocked', hstep⟩ := lock_moves hrun hpc hblocked rfl
    apply hexchange (k + 1) (by omega)
    rw [advance, hpc'] at hstep
    rw [← some.inj hstep, hblocked']
    exact goto_pc_self t _ _

omit hrun in
/-- The queue of the mutex is not emptied without a thread that tries again. -/
theorem LockMove.sleeper_or_retries
    (hmove : LockMove s t next) (hinv : QueuesInv s) (hsleeper : s.mutexQueue ≠ []) :
    next.mutexQueue ≠ [] ∨ ∃ u, next.Retries u := by
  cases hmove with
  | queued hpc =>
    left
    exact append_ne_nil_of_right_ne_nil _ (cons_ne_nil t [])
  | woke old hpc =>
    right
    exact hinv.retries_of_wakeOne hpc _ hsleeper
  | pulseWoke kind hpc =>
    left
    change (s.condWake kind.count).mutexQueue ≠ []
    rw [condWake_eq]
    exact hsleeper
  | _ => exact .inl hsleeper

theorem not_sleepsInLock_of_unlocked (hinit : states 0 = init)
    (hunlocked : ∀ m, n ≤ m → (states m).mutex = .unlocked) (t : T) :
    ¬(states n).SleepsInLock t := by
  intro hsleeps
  have hinv := mutexInv_of_fair hrun hinit
  have hretries : ∀ m, n ≤ m → ∀ u, ¬(states m).Retries u := by
    intro m hle u
    exact not_retries hrun hinit (fun k hk => hunlocked k (hle.trans hk)) u
  have hqueue : ∀ m, n ≤ m → (states m).mutexQueue ≠ [] := by
    intro m hle
    refine hrun.invariant (fun s => s.mutexQueue ≠ [])
      (fun k action hk hsleeper haction => ?_) ?_ hle
    · have hstep := hrun.acts k action haction
      refine ((lockStep_move hstep).sleeper_or_retries (hinv k).queues hsleeper).resolve_right ?_
      rintro ⟨u, hretry⟩
      exact hretries (k + 1) (by omega) u hretry
    · exact ne_nil_of_mem (((hinv n).sleepsInLock_iff t).mp hsleeps)
  -- Someone is on its way to wake a sleeper, and the sleeper then tries again.
  have hmutex : (states n).mutex ≠ .lockedContended := by
    rw [hunlocked n le_rfl]
    exact nofun
  obtain ⟨u, hway⟩ := (hinv n).wake (hqueue n le_rfl) hmutex
  obtain ⟨old, hpc⟩ := hway.resolve_left (hretries n le_rfl u)
  have hqueued := (hinv n).queues.queued u
  rw [hpc] at hqueued
  obtain ⟨k, hk, hpc', -, hstep⟩ := lock_moves hrun hpc hqueued.2.2 rfl
  rw [advance, hpc'] at hstep
  obtain ⟨v, hretry⟩ := (hinv k).queues.retries_of_wakeOne hpc' (.unlocked old) (hqueue k hk)
  apply hretries (k + 1) (by omega) v
  rw [← some.inj hstep]
  exact hretry

end Fair

/-! ## The condition variable -/

/-- The value of the condition variable that `cond_wait` has read. -/
def LockPc.seen : LockPc → Option ℕ
  | .waitUnlock old => some old
  | .wakeOne old => old
  | .condFutexWait old => some old
  | _ => none

theorem LockPc.seen_unlocked (old : Option ℕ) : (unlocked old).seen = old := by
  cases old with
  | none | some old => rfl

theorem LockPc.seen_resume (pc : LockPc) : pc.resume.seen = pc.seen := by
  cases pc with
  | _ => rfl

/-- Fewer than 2^30 signals and broadcasts during one wait. -/
def ShortWaits (s : LockWorld T) : Prop :=
  ∀ t, (s.pc t).waits = true → s.pulses < s.entered t + 1073741824

instance [Fintype T] (s : LockWorld T) : Decidable (ShortWaits s) :=
  inferInstanceAs (Decidable (∀ _, _ → _))

structure CondInv (s : LockWorld T) : Prop where
  counter : s.condState = 4 * s.pulses % 4294967296
  seen : ∀ t old, (s.pc t).seen = some old →
    old = 4 * s.entered t % 4294967296 ∧ s.entered t ≤ s.pulses
  broadcastMade : s.lastBroadcast ≤ s.pulses
  sleeping : ∀ t ∈ s.condQueue, s.lastBroadcast ≤ s.entered t
  places : ∀ i t, s.condQueue[i]? = some t → s.finished + i ≤ s.place t

theorem CondPulse.count_pos (kind : CondPulse) : 0 < kind.count := by
  cases kind with
  | signal | broadcast => decide

theorem CondInv.pulseWake [Fintype T]
    (hcount : Fintype.card T ≤ CondPulse.broadcast.count) (hinv : CondInv s)
    (hqueues : QueuesInv s) (kind : CondPulse) : CondInv (s.condPulseWake t kind) := by
  rw [condPulseWake, condWake_eq]
  constructor
  case counter => exact hinv.counter
  case seen =>
    intro u old hseen
    apply hinv.seen u old
    by_cases hu : u = t
    · rw [hu, goto_pc_self] at hseen
      cases hseen
    · rw [goto_pc_of_ne hu] at hseen
      dsimp only at hseen
      split at hseen
      · rwa [LockPc.seen_resume] at hseen
      · exact hseen
  case broadcastMade =>
    change (if kind = .broadcast then s.pulses else s.lastBroadcast) ≤ s.pulses
    split
    · exact le_refl s.pulses
    · exact hinv.broadcastMade
  case sleeping =>
    change ∀ u ∈ s.condQueue.drop kind.count,
      (if kind = .broadcast then s.pulses else s.lastBroadcast) ≤ s.entered u
    intro u hmem
    cases kind with
    | signal => exact hinv.sleeping u (mem_of_mem_drop hmem)
    | broadcast =>
      -- A broadcast wakes every sleeper.
      have hlength := hqueues.condNodup.length_le_card
      rw [drop_eq_nil_of_le (hlength.trans hcount)] at hmem
      cases hmem
  case places =>
    intro i u hget
    change (s.condQueue.drop kind.count)[i]? = some u at hget
    change s.finished + 1 + i ≤ s.place u
    rw [getElem?_drop] at hget
    have hplace := hinv.places _ u hget
    have hpos := kind.count_pos
    omega

omit [DecidableEq T] in
theorem condInv_init : CondInv (init : LockWorld T) where
  counter := rfl
  seen := nofun
  broadcastMade := le_refl 0
  sleeping := nofun
  places := nofun

variable (hinv : CondInv s)
include hinv

omit [DecidableEq T] in
/-- A thread about to sleep finds its value unchanged only if nothing was
signalled since it entered. -/
theorem CondInv.entered_eq (hshort : ShortWaits s)
    (hpc : s.pc t = .condFutexWait s.condState) : s.entered t = s.pulses := by
  have hwaits := hshort t (by rw [hpc]; rfl)
  obtain ⟨hseen, hle⟩ := hinv.seen t s.condState (by rw [hpc]; rfl)
  have hcounter := hinv.counter
  omega

/-- A move that leaves the condition variable and its queue alone. -/
theorem CondInv.goto {base : LockWorld T} {pc : LockPc} (hcounter : base.condState = s.condState)
    (hqueue : base.condQueue = s.condQueue) (hpulses : base.pulses = s.pulses)
    (hfinished : base.finished = s.finished) (hbroadcast : base.lastBroadcast = s.lastBroadcast)
    (hentered : base.entered = s.entered) (hplace : base.place = s.place)
    (hbase : ∀ u, (base.pc u).seen = (s.pc u).seen)
    (hpc : ∀ old, pc.seen = some old → (s.pc t).seen = some old) : CondInv (base.goto t pc) where
  counter := by
    change base.condState = 4 * base.pulses % 4294967296
    rw [hcounter, hpulses]
    exact hinv.counter
  seen := by
    intro u old hseen
    change old = 4 * base.entered u % 4294967296 ∧ base.entered u ≤ base.pulses
    rw [hentered, hpulses]
    apply hinv.seen u old
    by_cases hu : u = t
    · rw [hu, goto_pc_self] at hseen
      rw [hu]
      exact hpc old hseen
    · rwa [goto_pc_of_ne hu, hbase] at hseen
  broadcastMade := by
    change base.lastBroadcast ≤ base.pulses
    rw [hbroadcast, hpulses]
    exact hinv.broadcastMade
  sleeping := by
    change ∀ u ∈ base.condQueue, base.lastBroadcast ≤ base.entered u
    rw [hqueue, hbroadcast, hentered]
    exact hinv.sleeping
  places := by
    change ∀ i u, base.condQueue[i]? = some u → base.finished + i ≤ base.place u
    rw [hqueue, hfinished, hplace]
    exact hinv.places

theorem CondInv.enter (hqueues : QueuesInv s) (hpc : s.pc t = .holding) :
    CondInv ({ s with entered := update s.entered t s.pulses }.goto t
      (.waitUnlock s.condState)) where
  counter := hinv.counter
  seen := by
    intro u old hseen
    by_cases hu : u = t
    · rw [hu, LockWorld.goto_pc_self] at hseen
      have hold : s.condState = old := some.inj hseen
      simp [LockWorld.goto, hu, ← hold, hinv.counter]
    · rw [LockWorld.goto_pc_of_ne hu] at hseen
      simpa [LockWorld.goto, hu] using hinv.seen u old hseen
  broadcastMade := hinv.broadcastMade
  sleeping := by
    intro u hmem
    have hne : u ≠ t := by
      rintro rfl
      have hqueued := hqueues.queued u
      rw [hpc] at hqueued
      exact hqueued.2.1 hmem
    simpa [LockWorld.goto, hne] using hinv.sleeping u hmem
  places := hinv.places

theorem CondInv.sleep (hqueues : QueuesInv s)
    (hshort : ShortWaits s) (hpc : s.pc t = .condFutexWait s.condState) :
    CondInv ({ s with
      blocked := update s.blocked t true
      condQueue := s.condQueue ++ [t]
      place := update s.place t (s.finished + s.condQueue.length) }.goto t .condSched) where
  counter := hinv.counter
  seen := by
    intro u old hseen
    by_cases hu : u = t
    · rw [hu, goto_pc_self] at hseen
      cases hseen
    · rw [goto_pc_of_ne hu] at hseen
      exact hinv.seen u old hseen
  broadcastMade := hinv.broadcastMade
  sleeping := by
    intro u hmem
    rcases mem_append.mp hmem with hbefore | hlast
    · exact hinv.sleeping u hbefore
    · rw [mem_singleton.mp hlast]
      exact hinv.broadcastMade.trans_eq (hinv.entered_eq hshort hpc).symm
  places := by
    intro i u hget
    change (s.condQueue ++ [t])[i]? = some u at hget
    change s.finished + i ≤ update s.place t (s.finished + s.condQueue.length) u
    rw [getElem?_append] at hget
    split at hget
    case isTrue hlt =>
      have hne : u ≠ t := by
        rintro rfl
        have hqueued := hqueues.queued u
        rw [hpc] at hqueued
        exact hqueued.2.1 (mem_of_getElem? hget)
      rw [update_of_ne hne]
      exact hinv.places i u hget
    case isFalse hge =>
      rw [getElem?_singleton] at hget
      obtain ⟨hzero, rfl⟩ := guard_some hget
      rw [update_self]
      omega

theorem CondInv.pulse (kind : CondPulse) : CondInv (s.condPulse t kind) where
  counter := by
    have hcounter := hinv.counter
    change (s.condState + 4) % 4294967296 = 4 * (s.pulses + 1) % 4294967296
    omega
  seen := by
    intro u old hseen
    by_cases hu : u = t
    · rw [hu, condPulse, goto_pc_self] at hseen
      cases hseen
    · rw [condPulse, goto_pc_of_ne hu] at hseen
      obtain ⟨hold, hle⟩ := hinv.seen u old hseen
      exact ⟨hold, Nat.le_succ_of_le hle⟩
  broadcastMade := Nat.le_succ_of_le hinv.broadcastMade
  sleeping := hinv.sleeping
  places := hinv.places

omit hinv

theorem LockMove.cond [Fintype T] (hcount : Fintype.card T ≤ CondPulse.broadcast.count)
    (hmove : LockMove s t next) (hqueues : QueuesInv s) (hshort : ShortWaits s)
    (hinv : CondInv s) : CondInv next := by
  -- `mutex_unlock` keeps the value that `cond_wait` has read.
  have hkeep : ∀ {old : Option ℕ}, (s.pc t = .holding ∧ old = none ∨
        ∃ value, s.pc t = .waitUnlock value ∧ old = some value) →
      ∀ value, old = some value → (s.pc t).seen = some value := by
    rintro old (⟨-, rfl⟩ | ⟨value, hpc, rfl⟩) other hother
    · cases hother
    · rw [hpc]
      exact hother
  cases hmove with
  | unlocked old hholds hold =>
    refine hinv.goto rfl rfl rfl rfl rfl rfl rfl (fun _ => rfl) ?_
    rw [LockPc.seen_unlocked]
    exact hkeep hold
  | unlockedContended old hholds hold =>
    exact hinv.goto rfl rfl rfl rfl rfl rfl rfl (fun _ => rfl) (hkeep hold)
  | woke old hpc =>
    rw [mutexWake_eq]
    refine hinv.goto rfl rfl rfl rfl rfl rfl rfl (fun u => ?_) ?_
    · dsimp only
      split
      · exact LockPc.seen_resume (s.pc u)
      · rfl
    · rw [LockPc.seen_unlocked, hpc]
      exact fun _ hold => hold
  | waited hpc => exact hinv.enter hqueues hpc
  | condQueued hpc => exact hinv.sleep hqueues hshort hpc
  | pulsed kind hpc => exact hinv.pulse kind
  | pulseWoke kind hpc => exact hinv.pulseWake hcount hqueues kind
  | _ => exact hinv.goto rfl rfl rfl rfl rfl rfl rfl (fun _ => rfl) nofun

variable {actions : List (LockAction T)}

theorem mutexInv_of_run {cond : LockWorld T → LockAction T → Prop}
    (hrun : Run lockStep cond init actions s) : MutexInv s :=
  hrun.invariant (fun _ _ _ hinv _ hstep => hinv.step hstep) mutexInv_init

theorem condInv_of_run [Fintype T] (hcount : Fintype.card T ≤ CondPulse.broadcast.count)
    (hrun : Run lockStep (fun s _ => ShortWaits s) init actions s) : CondInv s := by
  have hstep : ∀ (s : LockWorld T) action next, MutexInv s ∧ CondInv s →
      ShortWaits s → lockStep s action = some next → MutexInv next ∧ CondInv next := by
    intro s action next hinv hshort hstep
    exact ⟨hinv.1.step hstep, (lockStep_move hstep).cond hcount hinv.1.queues hshort hinv.2⟩
  exact (hrun.invariant hstep ⟨mutexInv_init, condInv_init⟩).2

/-- Two threads go to sleep in `cond_wait`, and a third signals or
broadcasts. -/
def twoWaiters (pulse : LockAction (Fin 3)) : List (LockAction (Fin 3)) :=
  [.lock 0, .go 0, .wait 0, .go 0, .go 0, .go 0, .lock 1, .go 1, .wait 1, .go 1, .go 1, .go 1,
    .lock 2, .go 2, pulse, .go 2]

/-- A signal does not wake every thread that entered before it. -/
theorem not_signal_wakes_all :
    ¬∀ actions (s : LockWorld (Fin 3)), Run lockStep (fun s _ => ShortWaits s) init actions s →
      ShortWaits s → ∀ t, s.SleepsInWait t → s.finished ≤ s.entered t := by
  intro hwakes
  obtain ⟨s, hs, hshort, hpc, hfinished, hentered⟩ :
      ∃ s, runActionsIf lockStep (fun s _ => ShortWaits s) init
          (twoWaiters (.signal 2)) = some s ∧ ShortWaits s ∧ s.pc 1 = .condAsleep ∧ s.finished = 1 ∧
        s.entered 1 = 0 :=
    ⟨_, rfl, by decide, rfl, rfl, rfl⟩
  have hle := hwakes _ s (run_of_runActionsIf hs) hshort 1 (.inl hpc)
  rw [hfinished, hentered] at hle
  exact absurd hle (by decide)

/-- At most one thread holds the mutex; where a thread sleeps on an unlocked
mutex another one is about to take it or to wake a sleeper, and no fair run
leaves it unlocked with a sleeper.  With fewer than 2^30 signals during one
wait, a thread that entered `cond_wait` before a signal or broadcast does not go
to sleep after it; a thread that sleeps there entered after the last broadcast
that is finished, and fewer signals are finished since it fell asleep than
there were threads asleep before it, and one more.  A thread has a positive
`int` as its id, so there are fewer threads than a broadcast can wake. -/
theorem locks_exclude_and_wake [Fintype T] (hcount : Fintype.card T ≤ CondPulse.broadcast.count) :
    (∀ actions (s : LockWorld T), FreeRun lockStep init actions s →
      (∀ t u, (s.pc t).holds = true → (s.pc u).holds = true → t = u) ∧
      (s.mutex = .unlocked → ∀ t, s.SleepsInLock t → ∃ u, s.OnItsWay u)) ∧
    (∀ (states : ℕ → LockWorld T) actions, FairRun lockStep LockAction.go states actions →
      states 0 = init → ∀ n, (∀ m, n ≤ m → (states m).mutex = .unlocked) →
      ∀ t, ¬(states n).SleepsInLock t) ∧ (∀ actions (s : LockWorld T),
      Run lockStep (fun s _ => ShortWaits s) init actions s → ShortWaits s →
      (∀ t old, s.pc t = .condFutexWait old → s.entered t < s.pulses →
        s.advance t = some (s.goto t .trylock)) ∧ (∀ t, s.SleepsInWait t →
        s.lastBroadcast ≤ s.entered t ∧ s.finished ≤ s.place t)) := by
  refine ⟨fun actions s hrun => ⟨?exclusive, ?unlocked⟩, ?fair,
    fun actions s hrun hshort => ⟨?missed, ?asleep⟩⟩
  case exclusive =>
    intro t u ht hu
    exact (mutexInv_of_run hrun).exclusive ht hu
  case unlocked =>
    intro hunlocked t hsleeps
    have hinv := mutexInv_of_run hrun
    apply hinv.wake
    · exact ne_nil_of_mem ((hinv.sleepsInLock_iff t).mp hsleeps)
    · rw [hunlocked]
      exact nofun
  case fair =>
    intro states actions hrun hinit n hunlocked t
    exact not_sleepsInLock_of_unlocked hrun hinit hunlocked t
  case missed =>
    intro t old hpc hentered
    have hstate : s.condState ≠ old := by
      rintro rfl
      have heq := (condInv_of_run hcount hrun).entered_eq hshort hpc
      omega
    rw [advance, hpc]
    dsimp only
    rw [condFutexWait, if_neg hstate]
  case asleep =>
    intro t hsleeps
    have hinv := condInv_of_run hcount hrun
    have hmem := ((mutexInv_of_run hrun).sleepsInWait_iff t).mp hsleeps
    obtain ⟨i, hget⟩ := mem_iff_getElem?.mp hmem
    have hplace := hinv.places i t hget
    exact ⟨hinv.sleeping t hmem, by omega⟩

/-- Both threads are awake after a broadcast. -/
theorem locks_exclude_and_wake_broadcast :
    ∃ s : LockWorld (Fin 3), Run lockStep (fun s _ => ShortWaits s) init
        (twoWaiters (.broadcast 2)) s ∧ ¬s.SleepsInWait 0 ∧ ¬s.SleepsInWait 1 := by
  obtain ⟨s, hs, hshort, hlast, hfirst, hsecond⟩ :
      ∃ s, runActionsIf lockStep (fun s _ => ShortWaits s) init
          (twoWaiters (.broadcast 2)) = some s ∧
        ShortWaits s ∧ s.lastBroadcast = 1 ∧ s.entered 0 = 0 ∧ s.entered 1 = 0 :=
    ⟨_, rfl, by decide, rfl, rfl, rfl⟩
  have hrun := run_of_runActionsIf hs
  have hawake := (locks_exclude_and_wake (by decide)).2.2 _ s hrun hshort
  refine ⟨s, hrun, fun hsleeps => ?_, fun hsleeps => ?_⟩
  · have hle := (hawake.2 0 hsleeps).1
    rw [hlast, hfirst] at hle
    exact absurd hle (by decide)
  · have hle := (hawake.2 1 hsleeps).1
    rw [hlast, hsecond] at hle
    exact absurd hle (by decide)

end Soda.Storpu
