import Mathlib

/-!
# Coroutine programs

A cooperative coroutine runs without interruption until it reaches a blocking
point.  `Prog` is such a program: atomic updates of a shared state, separated
by `block` nodes that name what the coroutine waits for.  One program text has
two readings.  `exec` runs it alone, with every wait answered at once by
`resume`; a scheduler can also pick any coroutine whose wait can be answered
and run it up to its next blocking point.

`wp` is the weakest precondition of a program.  What a wait and a fault ask
for is a parameter, the `Rules`, so that both readings share one calculus.

Nothing in this file is about a particular firmware.  `S` is the shared
state, `W` the type of waits, `R` the type of answers and `F` the type of
faults.
-/

namespace Soda

/-- `fault` is a failed assertion or an access that the processor never comes
back from. -/
inductive Prog (S W R F : Type) (α : Type) : Type
  | ret (value : α)
  | step (update : S → S) (next : S → Prog S W R F α)
  | block (wait : W) (next : R → Prog S W R F α)
  | fault (reason : F)

/-- How a run ends.  `stuck` is a wait that nobody is there to end. -/
inductive Outcome (F α : Type) : Type
  | done (value : α)
  | fault (reason : F)
  | stuck

namespace Outcome

variable {F α β : Type}

def bind : Outcome F α → (α → Outcome F β) → Outcome F β
  | done value, next => next value
  | fault reason, _ => fault reason
  | stuck, _ => stuck

/-- The run ends in a state with `post`, in a `tolerated` fault, or, if `stuck`
allows it, in a wait. -/
def Meets {S : Type} (tolerated : F → Prop) (stuck : Prop)
    (post : α → S → Prop) : Outcome F (α × S) → Prop
  | done (value, state) => post value state
  | fault reason => tolerated reason
  | Outcome.stuck => stuck

/-- What a run returns, without the state it ends in. -/
def result {S : Type} (outcome : Outcome F (α × S)) : Outcome F α :=
  outcome.bind fun ended => done ended.1

theorem Meets.of_result {S : Type} {tolerated : F → Prop} {stuck : Prop}
    {post : α → S → Prop} {outcome : Outcome F (α × S)} {value : α}
    (hmeets : outcome.Meets tolerated stuck post)
    (hresult : outcome.result = done value) : ∃ state, post value state := by
  cases outcome with
  | done ended =>
    obtain rfl : ended.1 = value := by simpa [result, bind] using hresult
    exact ⟨ended.2, hmeets⟩
  | fault reason | stuck => simp [result, bind] at hresult

end Outcome

namespace Prog

variable {S W R F α β : Type}

def bind : Prog S W R F α → (α → Prog S W R F β) → Prog S W R F β
  | ret value, next => next value
  | step update rest, next => step update fun state => (rest state).bind next
  | block wait rest, next => block wait fun answer => (rest answer).bind next
  | fault reason, _ => fault reason

instance : Monad (Prog S W R F) where
  pure := ret
  bind := bind

def get : Prog S W R F S := step id ret

def modify (update : S → S) : Prog S W R F Unit := step update fun _ => ret ()

def await (wait : W) : Prog S W R F R := block wait ret

/-- The processor hangs when the condition is false. -/
def assert (reason : F) (condition : Bool) : Prog S W R F Unit :=
  if condition then ret () else fault reason

/-- Run a program alone.  `resume` answers a wait, or refuses because nobody
else is there to make it come true. -/
def exec (resume : W → S → Option (R × S)) :
    Prog S W R F α → S → Outcome F (α × S)
  | ret value, state => .done (value, state)
  | step update next, state => (next (update state)).exec resume (update state)
  | block wait next, state =>
    match resume wait state with
    | none => .stuck
    | some (answer, resumed) => (next answer).exec resume resumed
  | fault reason, _ => .fault reason

section Exec

variable (resume : W → S → Option (R × S))

@[simp]
theorem exec_pure (value : α) (state : S) :
    exec resume (pure value : Prog S W R F α) state = .done (value, state) := rfl

@[simp]
theorem exec_get (state : S) :
    exec resume (get : Prog S W R F S) state = .done (state, state) := rfl

@[simp]
theorem exec_modify (update : S → S) (state : S) :
    exec resume (modify update : Prog S W R F Unit) state = .done ((), update state) := rfl

theorem exec_bind (first : Prog S W R F α) (next : α → Prog S W R F β) (state : S) :
    exec resume (first >>= next) state = (exec resume first state).bind fun result =>
        exec resume (next result.1) result.2 := by
  change exec resume (first.bind next) state = _
  induction first generalizing state with
  | ret value | fault reason => rfl
  | step update rest ih =>
    simp only [bind, exec]
    exact ih (update state) (update state)
  | block wait rest ih =>
    simp only [bind, exec]
    cases resume wait state with
    | none => rfl
    | some answered => exact ih answered.1 answered.2

end Exec

/-! ### Weakest preconditions -/

/-- What a proof about a program has to show at a fault and at a wait. -/
structure Rules (S W R F : Type) where
  onFault : F → Prop
  onBlock : W → (R → S → Prop) → S → Prop
  mono : ∀ {wait : W} {post weaker : R → S → Prop} {state : S},
    (∀ answer resumed, post answer resumed → weaker answer resumed) →
    onBlock wait post state → onBlock wait weaker state

variable (rules : Rules S W R F)

def wp : Prog S W R F α → (α → S → Prop) → S → Prop
  | ret value, post, state => post value state
  | step update next, post, state => (next (update state)).wp post (update state)
  | block wait next, post, state =>
    rules.onBlock wait (fun answer resumed => (next answer).wp post resumed) state
  | fault reason, _, _ => rules.onFault reason

variable {rules}

variable {prog : Prog S W R F α} {post : α → S → Prop} {state : S} {resume : W → S → Option (R × S)}
  {tolerated : F → Prop} {stuck : Prop}

theorem wp_mono {weaker : α → S → Prop} (hwp : wp rules prog post state)
    (hweaker : ∀ value state', post value state' → weaker value state') :
    wp rules prog weaker state := by
  induction prog generalizing state with
  | ret value => exact hweaker value state hwp
  | step update rest ih => exact ih (update state) hwp
  | block wait rest ih => exact rules.mono (fun answer resumed hrest => ih answer hrest) hwp
  | fault reason => exact hwp

@[simp]
theorem wp_pure {value : α} :
    wp rules (pure value : Prog S W R F α) post state ↔ post value state := Iff.rfl

@[simp]
theorem wp_get {post : S → S → Prop} :
    wp rules (get : Prog S W R F S) post state ↔ post state state := Iff.rfl

@[simp]
theorem wp_modify {update : S → S} {post : Unit → S → Prop} :
    wp rules (modify update : Prog S W R F Unit) post state ↔ post () (update state) := Iff.rfl

@[simp]
theorem wp_await {wait : W} {post : R → S → Prop} :
    wp rules (await wait : Prog S W R F R) post state ↔ rules.onBlock wait post state := Iff.rfl

@[simp]
theorem wp_assert {reason : F} {condition : Bool} {post : Unit → S → Prop} :
    wp rules (assert reason condition : Prog S W R F Unit) post state ↔
      if condition then post () state else rules.onFault reason := by
  cases condition <;> rfl

@[simp]
theorem wp_bind {first : Prog S W R F α} {next : α → Prog S W R F β} {post : β → S → Prop} :
    wp rules (first >>= next) post state ↔
      wp rules first (fun value middle => wp rules (next value) post middle) state := by
  change wp rules (first.bind next) post state ↔ _
  induction first generalizing state with
  | ret value | fault reason => exact Iff.rfl
  | step update rest ih => exact ih (update state)
  | block wait rest ih =>
    simp only [bind, wp]
    constructor
    · exact rules.mono fun answer resumed hrest => (ih answer).1 hrest
    · exact rules.mono fun answer resumed hrest => (ih answer).2 hrest

@[simp]
theorem wp_ite {condition : Prop} [Decidable condition] {first second : Prog S W R F α} :
    wp rules (if condition then first else second) post state ↔
      if condition then wp rules first post state
      else wp rules second post state := by
  split <;> exact Iff.rfl

/-! ### Running alone -/

/-- A coroutine that runs alone: a wait is answered by `resume`.  `tolerated`
faults, and a wait without an answer when `stuck` holds, are not looked at. -/
def alone (resume : W → S → Option (R × S)) (tolerated : F → Prop)
    (stuck : Prop) : Rules S W R F where
  onFault := tolerated
  onBlock := fun wait post state =>
    match resume wait state with
    | some (answer, resumed) => post answer resumed
    | none => stuck
  mono := by
    intro wait post weaker state hweaker hblock
    cases hresume : resume wait state with
    | none =>
      rw [hresume] at hblock
      exact hblock
    | some answered =>
      rw [hresume] at hblock
      exact hweaker _ _ hblock

theorem alone_onBlock {wait : W} {post : R → S → Prop} {resumed : S}
    {answer : R} (hresume : resume wait state = some (answer, resumed)) :
    (alone resume tolerated stuck).onBlock wait post state ↔ post answer resumed := by
  simp only [alone, hresume]

theorem wp_alone :
    wp (alone resume tolerated stuck) prog post state ↔
      (exec resume prog state).Meets tolerated stuck post := by
  induction prog generalizing state with
  | ret value | fault reason => exact Iff.rfl
  | step update rest ih => exact ih (update state)
  | block wait rest ih =>
    simp only [wp, alone, exec]
    cases resume wait state with
    | none => exact Iff.rfl
    | some answered => exact ih answered.1

/-- More faults can be tolerated. -/
theorem wp_alone_weaken {more : F → Prop} (hmore : ∀ reason, tolerated reason → more reason)
    (hwp : wp (alone resume tolerated stuck) prog post state) :
    wp (alone resume more stuck) prog post state := by
  rw [wp_alone] at hwp ⊢
  cases hexec : exec resume prog state with
  | done result | stuck =>
    rw [hexec] at hwp
    exact hwp
  | fault reason =>
    rw [hexec] at hwp
    exact hmore reason hwp

/-! ### What a run keeps -/

section Keeps

variable {resume : W → S → Option (R × S)}

/-- A run that returns consists of runs of its parts that return. -/
theorem exec_bind_eq_done {first : Prog S W R F α}
    {next : α → Prog S W R F β} {state : S} {result : β × S} :
    exec resume (first >>= next) state = .done result ↔
      ∃ middle, exec resume first state = .done middle ∧
        exec resume (next middle.1) middle.2 = .done result := by
  rw [exec_bind]
  constructor
  · intro hdone
    cases hfirst : exec resume first state with
    | done middle =>
      rw [hfirst] at hdone
      exact ⟨middle, rfl, hdone⟩
    | fault reason | stuck =>
      rw [hfirst] at hdone
      cases hdone
  · rintro ⟨middle, hfirst, hnext⟩
    rw [hfirst]
    exact hnext

/-- Every run of the program that returns keeps the invariant. -/
def Keeps (resume : W → S → Option (R × S)) (inv : S → Prop) (prog : Prog S W R F α) : Prop :=
  ∀ state result, inv state → exec resume prog state = .done result → inv result.2

namespace Keeps

variable {inv : S → Prop}

theorem pure (value : α) : Keeps resume inv (Pure.pure value : Prog S W R F α) := by
  intro state result hinv hdone
  rw [exec_pure, Outcome.done.injEq] at hdone
  rw [← hdone]
  exact hinv

theorem bind {first : Prog S W R F α} {next : α → Prog S W R F β} (hfirst : Keeps resume inv first)
    (hnext : ∀ value, Keeps resume inv (next value)) : Keeps resume inv (first >>= next) := by
  intro state result hinv hdone
  obtain ⟨middle, hmiddle, hrest⟩ := exec_bind_eq_done.mp hdone
  exact hnext _ _ _ (hfirst _ _ hinv hmiddle) hrest

theorem get : Keeps resume inv (Prog.get : Prog S W R F S) := by
  intro state result hinv hdone
  rw [exec_get, Outcome.done.injEq] at hdone
  rw [← hdone]
  exact hinv

theorem modify {update : S → S} (hupdate : ∀ state, inv state → inv (update state)) :
    Keeps resume inv (Prog.modify update : Prog S W R F Unit) := by
  intro state result hinv hdone
  rw [exec_modify, Outcome.done.injEq] at hdone
  rw [← hdone]
  exact hupdate state hinv

theorem await {wait : W}
    (hresume : ∀ state answered, inv state → resume wait state = some answered → inv answered.2) :
    Keeps resume inv (Prog.await wait : Prog S W R F R) := by
  intro state result hinv hdone
  simp only [Prog.await, exec] at hdone
  cases hanswer : resume wait state with
  | none =>
    rw [hanswer] at hdone
    cases hdone
  | some answered =>
    rw [hanswer] at hdone
    simp only [Outcome.done.injEq] at hdone
    rw [← hdone]
    exact hresume state answered hinv hanswer

theorem fault (reason : F) : Keeps resume inv (Prog.fault reason : Prog S W R F α) := by
  intro state result _ hdone
  cases hdone

theorem assert (reason : F) (condition : Bool) :
    Keeps resume inv (Prog.assert reason condition : Prog S W R F Unit) := by
  cases condition with
  | true => exact Keeps.pure ()
  | false => exact Keeps.fault reason

theorem ite {condition : Prop} [Decidable condition]
    {first second : Prog S W R F α} (hfirst : Keeps resume inv first)
    (hsecond : Keeps resume inv second) :
    Keeps resume inv (if condition then first else second) := by
  split
  · exact hfirst
  · exact hsecond

end Keeps

end Keeps

/-- The post-condition may also say that the run returned. -/
theorem wp_alone_done (hwp : wp (alone resume tolerated stuck) prog post state) :
    wp (alone resume tolerated stuck) prog (fun value ended =>
      post value ended ∧ exec resume prog state = .done (value, ended)) state := by
  rw [wp_alone] at hwp ⊢
  cases hexec : exec resume prog state with
  | done result =>
    rw [hexec] at hwp
    exact ⟨hwp, rfl⟩
  | fault reason | stuck =>
    rw [hexec] at hwp
    exact hwp

theorem Keeps.wp {inv : S → Prop} (hkeeps : Keeps resume inv prog) (hinv : inv state) :
    wp (alone resume (fun _ => True) True) prog (fun _ ended => inv ended) state := by
  rw [wp_alone]
  cases hexec : exec resume prog state with
  | done result => exact hkeeps state result hinv hexec
  | fault reason | stuck => trivial

/-! ### Anything can happen at a wait -/

/-- Nothing is known about the state in which a wait ends, so that a result
holds however other coroutines run in between. -/
def havoc (tolerated : F → Prop) : Rules S W R F where
  onFault := tolerated
  onBlock := fun _ post _ => ∀ answer resumed, post answer resumed
  mono := fun hweaker hblock answer resumed => hweaker answer resumed (hblock answer resumed)

theorem wp_havoc_trivial : wp (havoc fun _ => True) prog (fun _ _ => True) state := by
  induction prog generalizing state with
  | ret value | fault reason => trivial
  | step update rest ih => exact ih (update state)
  | block wait rest ih => exact fun answer resumed => ih answer

end Prog

end Soda
