import Mathlib

/-!
# Runs of a transition function

A system is given by what an action does in a state, with `none` where the
action is not possible there.  `Run` is a finite run whose steps all meet a
condition on the state they start in, and an invariant that each such step
keeps holds at its end.  Since a prefix of a run is a run, a property of the
end of every run is a property of every reachable state.
-/

namespace Soda

open List Option

variable {S A : Type}

/-- A step with a guard. -/
theorem guard_some {p : Prop} [Decidable p] {s next : S}
    (hstep : (if p then some s else none) = some next) : p ∧ s = next := by
  obtain ⟨hguard, hnext⟩ := ite_none_right_eq_some.mp hstep
  exact ⟨hguard, some.inj hnext⟩

theorem unless_some {p : Prop} [Decidable p] {s next : S}
    (hstep : (if p then none else some s) = some next) : ¬p ∧ s = next := by
  obtain ⟨hguard, hnext⟩ := ite_none_left_eq_some.mp hstep
  exact ⟨hguard, some.inj hnext⟩

inductive Run (step : S → A → Option S) (cond : S → A → Prop) :
    S → List A → S → Prop
  | nil (s : S) : Run step cond s [] s
  | cons {s next last : S} {action : A} {actions : List A} :
      cond s action → step s action = some next → Run step cond next actions last →
      Run step cond s (action :: actions) last

def runActions (step : S → A → Option S) : S → List A → Option S
  | s, [] => some s
  | s, action :: actions => (step s action).bind fun next => runActions step next actions

variable {step : S → A → Option S} {s last : S} {actions : List A} {cond : S → A → Prop}
  {inv good : S → Prop}

theorem runActions_append {middle : S} {rest : List A}
    (hrun : runActions step s actions = some middle) :
    runActions step s (actions ++ rest) = runActions step middle rest := by
  induction actions generalizing s with
  | nil =>
    cases hrun
    rfl
  | cons action actions ih =>
    rw [runActions, bind_eq_some_iff] at hrun
    obtain ⟨next, hstep, hrest⟩ := hrun
    rw [cons_append, runActions, hstep]
    exact ih hrest

/-- Every run the step function accepts, with no condition on its steps. -/
abbrev FreeRun (step : S → A → Option S) : S → List A → S → Prop := Run step fun _ _ => True

theorem freeRun_of_runActions (hrun : runActions step s actions = some last) :
    FreeRun step s actions last := by
  induction actions generalizing s with
  | nil =>
    rw [← some.inj hrun]
    exact Run.nil s
  | cons action actions ih =>
    rw [runActions, bind_eq_some_iff] at hrun
    obtain ⟨next, hstep, hrest⟩ := hrun
    exact Run.cons trivial hstep (ih hrest)

/-- Runs the actions as long as their steps meet a condition. -/
def runActionsIf (step : S → A → Option S) (cond : S → A → Prop)
    [∀ s action, Decidable (cond s action)] : S → List A → Option S
  | s, [] => some s
  | s, action :: actions =>
    if cond s action then
      (step s action).bind fun next => runActionsIf step cond next actions
    else none

theorem run_of_runActionsIf [∀ s action, Decidable (cond s action)]
    (hrun : runActionsIf step cond s actions = some last) : Run step cond s actions last := by
  induction actions generalizing s with
  | nil =>
    rw [← some.inj hrun]
    exact Run.nil s
  | cons action actions ih =>
    rw [runActionsIf] at hrun
    obtain ⟨hcond, hbind⟩ := ite_none_right_eq_some.mp hrun
    obtain ⟨next, hstep, hrest⟩ := bind_eq_some_iff.mp hbind
    exact Run.cons hcond hstep (ih hrest)

theorem Run.invariant
    (hstep : ∀ s action next, inv s → cond s action →
      step s action = some next → inv next) {s last : S} {actions : List A}
    (hrun : Run step cond s actions last) (hinit : inv s) : inv last := by
  induction hrun with
  | nil s => exact hinit
  | cons hcond hnext _ ih => exact ih (hstep _ _ _ hinit hcond hnext)

theorem Run.weaken {cond' : S → A → Prop}
    (hweaken : ∀ s action, cond s action → cond' s action) {s last : S}
    {actions : List A} (hrun : Run step cond s actions last) : Run step cond' s actions last := by
  induction hrun with
  | nil s => exact Run.nil s
  | cons hcond hnext _ ih => exact Run.cons (hweaken _ _ hcond) hnext ih

/-- A condition on the actions alone can be read off the list of them. -/
theorem FreeRun.restrict {allowed : A → Prop} (hrun : FreeRun step s actions last)
    (hallowed : ∀ action ∈ actions, allowed action) :
    Run step (fun _ action => allowed action) s actions last := by
  induction hrun with
  | nil s => exact Run.nil s
  | cons _ hnext _ ih =>
    apply Run.cons
    · exact hallowed _ mem_cons_self
    · exact hnext
    · apply ih
      intro action haction
      exact hallowed action (.tail _ haction)

/-- Every state a sequence of actions passes through is good. -/
def Always (step : S → A → Option S) (good : S → Prop) (s : S) (actions : List A) : Prop :=
  ∀ done state, done <+: actions → runActions step s done = some state → good state

theorem always_cons {next : S} {action : A} (hstep : step s action = some next) (hgood : good s) :
    Always step good s (action :: actions) ↔ Always step good next actions := by
  constructor
  · intro halways done state hdone hrun
    apply halways (action :: done) state
    · exact (prefix_cons_inj action).mpr hdone
    · rw [runActions, hstep]
      exact hrun
  · intro halways done state hdone hrun
    cases done with
    | nil =>
      cases hrun
      exact hgood
    | cons first done =>
      obtain ⟨rfl, hrest⟩ := cons_prefix_cons.mp hdone
      rw [runActions, hstep] at hrun
      exact halways done state hrest hrun

theorem Always.head (halways : Always step good s actions) : good s := halways [] s nil_prefix rfl

/-- Where the condition of a step says whether it leads to a good state, the
runs that meet it are those that stay in good states.  The invariant need only
be kept by the steps that meet the condition. -/
theorem FreeRun.meets_iff_always_of_kept
    (hinv : ∀ s action next, inv s → cond s action → step s action = some next → inv next)
    (hgood : ∀ s action next, inv s → good s → step s action = some next →
      (cond s action ↔ good next)) {s last : S} {actions : List A}
    (hrun : FreeRun step s actions last) (hinit : inv s) (hstart : good s) :
    Run step cond s actions last ↔ Always step good s actions := by
  induction hrun with
  | nil s =>
    constructor
    · intro _ done state hdone hstate
      rw [prefix_nil.mp hdone] at hstate
      cases hstate
      exact hstart
    · intro _
      exact Run.nil s
  | @cons s next last action actions _ hstep hrest ih =>
    rw [always_cons hstep hstart]
    have hnext := hgood s action next hinit hstart hstep
    constructor
    · intro hmeets
      cases hmeets with
      | cons hcond hstep' htail =>
        obtain rfl := some.inj (hstep.symm.trans hstep')
        have hafter := hinv s action next hinit hcond hstep
        exact (ih hafter (hnext.mp hcond)).mp htail
    · intro halways
      have hgoodNext := halways.head
      have hcond := hnext.mpr hgoodNext
      have hafter := hinv s action next hinit hcond hstep
      exact Run.cons hcond hstep ((ih hafter hgoodNext).mpr halways)

theorem FreeRun.meets_iff_always
    (hinv : ∀ s action next, inv s → step s action = some next → inv next)
    (hgood : ∀ s action next, inv s → good s → step s action = some next →
      (cond s action ↔ good next)) {s last : S} {actions : List A}
    (hrun : FreeRun step s actions last) (hinit : inv s) (hstart : good s) :
    Run step cond s actions last ↔ Always step good s actions := by
  apply hrun.meets_iff_always_of_kept _ hgood hinit hstart
  intro s action next hs _ hstep
  exact hinv s action next hs hstep

end Soda
