import Soda.Core.Fair
import Soda.Storpu.RwlockSteps

/-!
# Runs of the reader-writer lock

In a run whose steps are careful a writer is alone, and a sleeping reader is
woken unless another thread holds or acquires the lock.  The code itself does
not see to the care: a writer takes the lock over a reader.
-/

namespace Soda.Storpu

open RwWorld Option

variable {T : Type} [DecidableEq T] [Fintype T] {s : RwWorld T} {t : T}

omit [DecidableEq T] in
theorem HoldInv.alone (hinv : HoldInv s) {u : T}
    (hwriter : (s.pc t).holds = some .writer) (hholds : (s.pc u).holds ≠ none) : u = t := by
  have hlocked := (hinv.wrlocked_iff hwriter).mpr rfl
  obtain ⟨side, hside⟩ := ne_none_iff_exists'.mp hholds
  rw [(hinv.wrlocked_iff hside).mp hlocked] at hside
  have hwriters := hinv.writers
  rw [if_pos hlocked] at hwriters
  obtain ⟨-, holder, hholder⟩ := hwriters
  exact ((hholder u).mp hside).trans ((hholder t).mp hwriter).symm

theorem rwInv_of_run (hcount : Fintype.card T ≤ 4294967295) {actions : List (RwAction T)}
    (hrun : Run rwStep RwCareful init actions s) : RwInv s :=
  hrun.invariant (fun _ _ _ hinv hcareful hstep => hinv.step hcount hcareful hstep) rwInv_init

/-- Neither holds the lock nor is about to acquire it. -/
def RwPc.rests : RwPc → Bool
  | .outside => true
  | .asleep _ => true
  | .unlockPending => true
  | .wake _ => true
  | _ => false

theorem RwPc.holds_of_rests {pc : RwPc} (hrests : pc.rests = true) : pc.holds = none := by
  cases pc with
  | holding side | unlock side | unlockWriter side | unlockReader side => cases hrests
  | _ => rfl

variable {u : T}

omit [DecidableEq T] [Fintype T] in
theorem RwWorld.RoleAgrees.mutex_ne (hagrees : s.RoleAgrees u (s.pc u).role)
    (hrests : (s.pc u).rests = true) : s.pendingMutex ≠ some u := by
  revert hagrees hrests
  cases s.pc u with
  | outside | unlockPending => exact fun hagrees _ => hagrees.1
  | asleep side | wake side =>
    cases side with
    | reader => exact fun hagrees _ => hagrees.1
    | writer => exact fun hagrees _ => hagrees.elim
  | _ => exact nofun

/-- A step changes no other thread that is not asleep. -/
theorem RwInv.frame {next : RwWorld T} (hinv : RwInv s)
    (hstep : s.advance t = some next) (hne : u ≠ t)
    (hawake : s.pc u ≠ .asleep .reader) : next.pc u = s.pc u := by
  have hsame : ∀ {base : RwWorld T} {pc : RwPc},
      some (base.goto t pc) = some next → base.pc = s.pc → next.pc u = s.pc u := by
    intro base pc hnext hpc
    rw [← some.inj hnext, goto_pc_of_ne hne, hpc]
  rw [RwWorld.advance] at hstep
  split at hstep
  case h_1 | h_9 | h_12 => cases hstep
  case h_3 =>
    rw [RwWorld.cas] at hstep
    split at hstep
    · exact hsame hstep rfl
    · exact hsame hstep rfl
  case h_5 =>
    obtain ⟨-, hnext⟩ := ite_none_right_eq_some.mp hstep
    exact hsame hnext rfl
  case h_8 =>
    rw [RwWorld.futexWait] at hstep
    split at hstep
    · exact hsame hstep rfl
    · exact hsame hstep rfl
  case h_10 =>
    obtain ⟨-, hnext⟩ := ite_none_right_eq_some.mp hstep
    split at hnext
    · exact hsame hnext rfl
    · exact hsame hnext rfl
  case h_16 =>
    obtain ⟨-, hnext⟩ := ite_none_right_eq_some.mp hstep
    rw [if_neg (not_not.mpr hinv.pend.noWriters)] at hnext
    split at hnext
    · exact hsame hnext rfl
    · exact hsame hnext rfl
  case h_17 side hpc =>
    obtain rfl := hinv.pend.reader .wake rfl hpc
    have hmem : u ∉ s.pendingWq .reader := by
      rw [(hinv.pend.agrees u).asleep_iff]
      exact hawake
    rw [← some.inj hstep, RwWorld.wake, RwWorld.goto_pc_of_ne hne]
    exact if_neg fun hwoken => hmem (List.mem_of_mem_take hwoken)
  all_goals exact hsame hstep rfl

theorem RwInv.wakes_frame {next : RwWorld T} {action : RwAction T}
    (hinv : RwInv s) (hstep : rwStep s action = some next)
    (hother : action ≠ .go u) (hwakes : (s.pc u).wakes = true) : next.pc u = s.pc u := by
  cases action with
  | lock t side =>
    obtain ⟨hpc, hnext⟩ := ite_none_right_eq_some.mp hstep
    have hne : u ≠ t := by
      rintro rfl
      rw [hpc] at hwakes
      cases hwakes
    rw [← some.inj hnext, goto_pc_of_ne hne]
  | unlock t =>
    rw [rwStep] at hstep
    split at hstep
    case h_1 side hpc =>
      have hne : u ≠ t := by
        rintro rfl
        rw [hpc] at hwakes
        cases hwakes
      rw [← some.inj hstep, goto_pc_of_ne hne]
    case h_2 => cases hstep
  | go t =>
    apply hinv.frame hstep
    · rintro rfl
      exact hother rfl
    · intro hpc
      rw [hpc] at hwakes
      cases hwakes

section Fair

variable {states : ℕ → RwWorld T} {actions : ℕ → Option (RwAction T)}

theorem rwInv_of_fair (hcount : Fintype.card T ≤ 4294967295)
    (hrun : FairRun rwStep RwAction.go states actions) (hinit : states 0 = init)
    (hcareful : ∀ m action, actions m = some action →
      RwCareful (states m) action) (n : ℕ) : RwInv (states n) := by
  refine hrun.invariant RwInv (fun m action _ hinv haction => ?_) ?_ (Nat.zero_le n)
  · exact hinv.step hcount (hcareful m action haction) (hrun.acts m action haction)
  · rw [hinit]
    exact rwInv_init

/-- A thread on its way to wake the readers takes its next step, where nobody
holds the pending mutex. -/
theorem rw_moves (hrun : FairRun rwStep RwAction.go states actions)
    (hinv : ∀ m, RwInv (states m)) {n : ℕ}
    (hmutex : ∀ m, n ≤ m → (states m).pendingMutex = none) {u : T} {pc : RwPc}
    (hpc : (states n).pc u = pc) (hwakes : pc.wakes = true) :
    ∃ m, n ≤ m ∧ (states m).pc u = pc ∧ (states m).advance u = some (states (m + 1)) := by
  have hready : ∀ m, n ≤ m → (states m).pc u = pc → ((states m).advance u).isSome := by
    intro m hm hplace
    rw [advance, hplace]
    cases pc with
    | unlockPending =>
      dsimp only
      rw [unlockPending, if_pos (hmutex m hm)]
      rfl
    | wake side => rfl
    | _ => cases hwakes
  have hkeep : ∀ m action, n ≤ m → (states m).pc u = pc → actions m = some action → action ≠ .go u →
      (states (m + 1)).pc u = pc := by
    intro m action _ hplace haction hother
    have hsame := (hinv m).wakes_frame (hrun.acts m action haction) hother
      (by rw [hplace]; exact hwakes)
    exact hsame.trans hplace
  obtain ⟨m, hle, hpc', haction⟩ := hrun.moves u (fun s => s.pc u = pc) hready hkeep hpc
  exact ⟨m, hle, hpc', hrun.acts m _ haction⟩

/-- A thread does not stay asleep where no other thread holds or acquires the
lock. -/
theorem rw_wakes (hcount : Fintype.card T ≤ 4294967295)
    (hrun : FairRun rwStep RwAction.go states actions) (hinit : states 0 = init)
    (hcareful : ∀ m action, actions m = some action → RwCareful (states m) action) {n : ℕ}
    (hrests : ∀ m, n ≤ m → ∀ u, u ≠ t → ((states m).pc u).rests = true) :
    ∃ m, n ≤ m ∧ ∀ side, (states m).pc t ≠ .asleep side := by
  by_contra hnever
  push Not at hnever
  have hinv := rwInv_of_fair hcount hrun hinit hcareful
  have hasleep : ∀ m, n ≤ m → (states m).pc t = .asleep .reader := by
    intro m hle
    obtain ⟨side, hside⟩ := hnever m hle
    obtain rfl := (hinv m).pend.reader .asleep rfl hside
    exact hside
  have hresting : ∀ m, n ≤ m → ∀ u, ((states m).pc u).rests = true := by
    intro m hle u
    by_cases hu : u = t
    · rw [hu, hasleep m hle]
      rfl
    · exact hrests m hle u hu
  have hmutex : ∀ m, n ≤ m → (states m).pendingMutex = none := by
    intro m hle
    by_contra hheld
    obtain ⟨u, hu⟩ := ne_none_iff_exists'.mp hheld
    exact ((hinv m).pend.agrees u).mutex_ne (hresting m hle u) hu
  have hwake : ∀ m, n ≤ m → ∀ u, (states m).pc u ≠ .wake .reader := by
    intro m hle u hpc
    obtain ⟨k, hk, hpc', hstep⟩ := rw_moves hrun hinv (fun i hi => hmutex i (hle.trans hi)) hpc rfl
    have hbefore := hasleep k (hle.trans hk)
    have hafter := hasleep (k + 1) (by omega)
    have hne : t ≠ u := by
      rintro rfl
      rw [hbefore] at hpc'
      cases hpc'
    rw [advance, hpc'] at hstep
    rw [← some.inj hstep, (hinv k).pend.wake_pc hcount hne,
      if_pos (((hinv k).pend.agrees t).asleep_iff.mpr hbefore)] at hafter
    cases hafter
  have hpending : ∀ m, n ≤ m → ∀ u, (states m).pc u ≠ .unlockPending := by
    intro m hle u hpc
    obtain ⟨k, hk, hpc', hstep⟩ := rw_moves hrun hinv (fun i hi => hmutex i (hle.trans hi)) hpc rfl
    have hpends : ((states k).pc t).pends = true := by
      rw [hasleep k (hle.trans hk)]
      rfl
    rw [advance, hpc'] at hstep
    obtain ⟨-, hnext⟩ := ite_none_right_eq_some.mp hstep
    rw [if_neg (not_not.mpr (hinv k).pend.noWriters),
      if_pos ((hinv k).pend.count_pos hpends).ne'] at hnext
    apply hwake (k + 1) (by omega) u
    rw [← some.inj hnext]
    exact goto_pc_self u _ _
  have hcovered := (hinv n).wait t
  rw [hasleep n le_rfl] at hcovered
  rcases hcovered with (hlocked | ⟨u, hu⟩) | ⟨u, hu⟩
  · have hwriters := (hinv n).hold.writers
    rw [if_pos hlocked] at hwriters
    obtain ⟨-, holder, hholder⟩ := hwriters
    have hholds := (hholder holder).mpr rfl
    rw [RwPc.holds_of_rests (hresting n le_rfl holder)] at hholds
    cases hholds
  · exact hpending n le_rfl u hu
  · exact hwake n le_rfl u hu

end Fair

end Soda.Storpu
