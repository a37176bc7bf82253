import Soda.Core.Runs

/-!
# Fair runs

An infinite run of a transition function, in which nothing need happen at a
time.  Each thread has one move, and the run is fair if a thread whose move
stays possible makes it in the end.
-/

namespace Soda

variable {S A T : Type}

structure FairRun (step : S → A → Option S) (move : T → A) (states : ℕ → S)
    (actions : ℕ → Option A) : Prop where
  idle : ∀ n, actions n = none → states (n + 1) = states n
  acts : ∀ n action, actions n = some action → step (states n) action = some (states (n + 1))
  fair : ∀ t n, (∀ m, n ≤ m → (step (states m) (move t)).isSome) →
    ∃ m, n ≤ m ∧ actions m = some (move t)

namespace FairRun

variable {step : S → A → Option S} {move : T → A} {states : ℕ → S} {actions : ℕ → Option A}

/-- What every step from some time on keeps holds from that time on. -/
theorem invariant (hrun : FairRun step move states actions) (inv : S → Prop) {n : ℕ}
    (hstep : ∀ m action, n ≤ m → inv (states m) → actions m = some action → inv (states (m + 1)))
    (hinv : inv (states n)) {m : ℕ} (hle : n ≤ m) : inv (states m) := by
  induction m, hle using Nat.le_induction with
  | base => exact hinv
  | succ m hle ih =>
    cases haction : actions m with
    | none => rwa [hrun.idle m haction]
    | some action => exact hstep m action hle ih haction

/-- A thread that can move as long as `waiting` holds, which only its own move
ends, moves while it holds. -/
theorem moves (hrun : FairRun step move states actions) (t : T) (waiting : S → Prop) {n : ℕ}
    (hready : ∀ m, n ≤ m → waiting (states m) → (step (states m) (move t)).isSome)
    (hkeep : ∀ m action, n ≤ m → waiting (states m) →
      actions m = some action → action ≠ move t → waiting (states (m + 1)))
    (hwaiting : waiting (states n)) :
    ∃ m, n ≤ m ∧ waiting (states m) ∧ actions m = some (move t) := by
  by_contra hnone
  push Not at hnone
  have hstays : ∀ m, n ≤ m → waiting (states m) := by
    intro m hle
    refine hrun.invariant waiting (fun k action hk hholds haction => ?_) hwaiting hle
    refine hkeep k action hk hholds haction ?_
    intro hmove
    exact hnone k hk hholds (hmove ▸ haction)
  obtain ⟨m, hle, hmove⟩ := hrun.fair t n fun m hle => hready m hle (hstays m hle)
  exact hnone m hle (hstays m hle) hmove

end FairRun

end Soda
