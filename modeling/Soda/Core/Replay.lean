import Soda.Core.Prog

/-!
# Runs that draw the same outcomes

A program that takes the outcomes of fallible actions from an oracle, one
after the other, does the same with another oracle as long as both agree on
the outcomes it draws.  `clock` is the position in the oracle, and the two
readings of a program are two programs and two ways to answer their waits.
-/

namespace Soda

namespace Prog

variable {S W R F α β : Type}

/-- Two ways to answer waits, and the positions at which their oracles
agree. -/
structure Oracles (S W R : Type) where
  clock : S → ℕ
  first : W → S → Option (R × S)
  second : W → S → Option (R × S)
  agree : ℕ → Prop

namespace Oracles

variable (oracles : Oracles S W R)

/-- The oracles agree on everything that is drawn between two states. -/
def AgreeBetween (state state' : S) : Prop :=
  ∀ position, oracles.clock state ≤ position →
    position < oracles.clock state' → oracles.agree position

/-- What the first program does can be replayed by the second. -/
def Replays (prog prog' : Prog S W R F α) : Prop :=
  ∀ state value state', exec oracles.first prog state = .done (value, state') →
    oracles.clock state ≤ oracles.clock state' ∧ (oracles.AgreeBetween state state' →
        exec oracles.second prog' state = .done (value, state'))

variable {oracles}

theorem Replays.pure (value : α) :
    oracles.Replays (pure value : Prog S W R F α) (Pure.pure value) := by
  rintro state result state' hexec
  rw [exec_pure] at hexec ⊢
  cases hexec
  exact ⟨le_refl _, fun _ => rfl⟩

theorem Replays.get : oracles.Replays (get : Prog S W R F S) get := by
  rintro state result state' hexec
  rw [exec_get] at hexec ⊢
  cases hexec
  exact ⟨le_refl _, fun _ => rfl⟩

theorem Replays.modify {update : S → S}
    (hclock : ∀ state, oracles.clock (update state) = oracles.clock state) :
    oracles.Replays (modify update : Prog S W R F Unit) (modify update) := by
  rintro state result state' hexec
  rw [exec_modify] at hexec ⊢
  cases hexec
  exact ⟨(hclock state).ge, fun _ => rfl⟩

theorem Replays.fault (reason : F) {prog' : Prog S W R F α} :
    oracles.Replays (fault reason) prog' := by
  rintro state result state' hexec
  cases hexec

theorem Replays.assert (reason : F) (condition : Bool) :
    oracles.Replays (assert reason condition : Prog S W R F Unit) (assert reason condition) := by
  cases condition with
  | true => exact Replays.pure ()
  | false => exact Replays.fault reason

theorem Replays.ite {condition : Prop} [Decidable condition]
    {yes yes' no no' : Prog S W R F α} (hyes : oracles.Replays yes yes')
    (hno : oracles.Replays no no') :
    oracles.Replays (if condition then yes else no) (if condition then yes' else no') := by
  split
  · exact hyes
  · exact hno

theorem Replays.await {wait : W}
    (hanswer : ∀ state answer state', oracles.first wait state = some (answer, state') →
      oracles.clock state ≤ oracles.clock state' ∧ (oracles.AgreeBetween state state' →
          oracles.second wait state = some (answer, state'))) :
    oracles.Replays (await wait : Prog S W R F R) (await wait) := by
  rintro state value state' hexec
  simp only [Prog.await, exec] at hexec ⊢
  cases hfirst : oracles.first wait state with
  | none =>
    rw [hfirst] at hexec
    cases hexec
  | some answered =>
    rw [hfirst] at hexec
    cases hexec
    obtain ⟨hle, hsecond⟩ := hanswer state _ _ hfirst
    refine ⟨hle, fun hagree => ?_⟩
    rw [hsecond hagree]

theorem Replays.bind {prog prog' : Prog S W R F α}
    {next next' : α → Prog S W R F β} (hprog : oracles.Replays prog prog')
    (hnext : ∀ value, oracles.Replays (next value) (next' value)) :
    oracles.Replays (prog >>= next) (prog' >>= next') := by
  rintro state value state' hexec
  rw [exec_bind] at hexec
  cases hmiddle : exec oracles.first prog state with
  | fault reason | stuck =>
    rw [hmiddle] at hexec
    cases hexec
  | done ended =>
    rw [hmiddle] at hexec
    obtain ⟨hle, hreplay⟩ := hprog state _ _ hmiddle
    obtain ⟨hle', hreplay'⟩ := hnext ended.1 ended.2 value state' hexec
    refine ⟨hle.trans hle', fun hagree => ?_⟩
    rw [exec_bind, hreplay]
    · apply hreplay'
      intro position hlow hhigh
      exact hagree position (hle.trans hlow) hhigh
    · intro position hlow hhigh
      exact hagree position hlow (hhigh.trans_le hle')

theorem Replays.modifyThen {update : S → S} {next next' : Prog S W R F α}
    (hclock : ∀ state, oracles.clock (update state) = oracles.clock state)
    (hnext : oracles.Replays next next') :
    oracles.Replays (Prog.modify update >>= fun _ => next)
      (Prog.modify update >>= fun _ => next') :=
  (Replays.modify hclock).bind fun _ => hnext

end Oracles

end Prog

end Soda
