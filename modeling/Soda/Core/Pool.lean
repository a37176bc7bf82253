import Soda.Core.Prog
import Soda.Core.Runs

/-!
# Pools of coroutines

A pool runs several coroutine programs on one processor over one shared state.
A move resumes a coroutine whose wait can be answered and runs it up to its
next wait, or lets the surroundings (a device, a timer) change the state.  A
fault stops the processor, so there is no move into one.

Programs in a pool are verified one at a time.  A `Contract` has an invariant
of the shared state, for each coroutine a relation `rely` that bounds what all
the others may do while it waits, an assertion `stay` for each wait and an
assertion `done` for its end.
A contract can also restrict which moves are made.  `rgWp` is the weakest
precondition of a program under a contract: at a wait the program has kept the
invariant and everyone else's `rely`, and it goes on from any state the others
can bring about.  `Pool.Safe` is what every state of the pool then satisfies.
-/

namespace Soda

open Function Prog

variable {T S W R C E F α β : Type}

namespace Prog

/-- Run up to the next wait. -/
def settle : Prog S W R F α → S → Prog S W R F α × S
  | ret value, s => (ret value, s)
  | step update next, s => settle (next (update s)) (update s)
  | block wait next, s => (block wait next, s)
  | fault reason, s => (fault reason, s)

def isFault : Prog S W R F α → Bool
  | fault _ => true
  | _ => false

end Prog

/-- How waits end and what happens by itself.  Where a wait can end in several
ways, `C` is the choice between them. -/
structure Machine (T S W R C E : Type) where
  answer : T → W → S → C → Option (R × S)
  event : S → E → Option S

inductive Move (T C E : Type)
  | resume (t : T) (choice : C)
  | event (event : E)
  deriving DecidableEq

structure Pool (T S W R F : Type) where
  shared : S
  thread : T → Prog S W R F Unit

/-- The pool after a thread ran up to its next wait. -/
def Pool.put [DecidableEq T] (pool : Pool T S W R F) (t : T)
    (settled : Prog S W R F Unit × S) : Option (Pool T S W R F) :=
  if settled.1.isFault then none
  else some
    { shared := settled.2
      thread := update pool.thread t settled.1 }

def Machine.move [DecidableEq T] (m : Machine T S W R C E)
    (pool : Pool T S W R F) : Move T C E → Option (Pool T S W R F)
  | .resume t choice =>
    match pool.thread t with
    | .block wait next =>
      (m.answer t wait pool.shared choice).bind fun answered =>
        pool.put t ((next answered.1).settle answered.2)
    | _ => none
  | .event event => (m.event pool.shared event).map fun s => { pool with shared := s }

variable {m : Machine T S W R C E}

structure Contract (m : Machine T S W R C E) where
  allows : T → W → S → C → Prop
  allowsEvent : S → E → Prop
  inv : S → Prop
  rely : T → S → S → Prop
  stay : T → W → S → Prop
  rely_refl : ∀ t s, rely t s s
  rely_trans : ∀ t s s' s'', rely t s s' → rely t s' s'' → rely t s s''
  event_inv : ∀ s event s', inv s → allowsEvent s event → m.event s event = some s' → inv s'
  event_rely : ∀ t s event s', inv s → allowsEvent s event → m.event s event = some s' → rely t s s'
  stay_rely : ∀ t wait s s', stay t wait s → inv s' → rely t s s' → stay t wait s'
  done : T → S → Prop := fun _ _ => True
  done_rely : ∀ t s s', done t s → rely t s s' → done t s' := by
    exact fun _ _ _ _ _ => trivial

namespace Contract

variable (c : Contract m)

/-- What a thread owes to the others from one wait to the next. -/
def Keeps (t : T) (start s : S) : Prop := c.inv s ∧ ∀ other, other ≠ t → c.rely other start s

/-- `start` is the state in which the thread was last resumed. -/
def rgWp (t : T) : Prog S W R F α → (S → α → S → Prop) → S → S → Prop
  | .ret value, post, start, s => post start value s
  | .step update next, post, start, s => rgWp t (next (update s)) post start (update s)
  | .block wait next, post, start, s =>
    c.Keeps t start s ∧ c.stay t wait s ∧
      ∀ middle choice answer resumed, c.rely t s middle → c.inv middle →
        c.allows t wait middle choice → m.answer t wait middle choice = some (answer, resumed) →
        rgWp t (next answer) post middle resumed
  | .fault _, _, _, _ => True

variable {c} {t : T}

variable {post : S → α → S → Prop} {start s : S}

theorem rgWp_mono {prog : Prog S W R F α} {weaker : S → α → S → Prop}
    (hwp : c.rgWp t prog post start s)
    (hweaker : ∀ start value s, post start value s → weaker start value s) :
    c.rgWp t prog weaker start s := by
  induction prog generalizing start s with
  | ret value => exact hweaker start value s hwp
  | step update rest ih => exact ih (update s) hwp
  | block wait rest ih =>
    obtain ⟨hkeeps, hstay, hrest⟩ := hwp
    refine ⟨hkeeps, hstay, ?_⟩
    intro middle choice answer resumed hrely hinv hallows hanswer
    exact ih answer (hrest middle choice answer resumed hrely hinv hallows hanswer)
  | fault reason => trivial

@[simp]
theorem rgWp_pure {value : α} :
    c.rgWp t (pure value : Prog S W R F α) post start s ↔ post start value s := Iff.rfl

@[simp]
theorem rgWp_get {post : S → S → S → Prop} :
    c.rgWp t (get : Prog S W R F S) post start s ↔ post start s s :=
  Iff.rfl

@[simp]
theorem rgWp_modify {update : S → S} {post : S → Unit → S → Prop} :
    c.rgWp t (modify update : Prog S W R F Unit) post start s ↔ post start () (update s) := Iff.rfl

theorem rgWp_await {wait : W} {post : S → R → S → Prop} :
    c.rgWp t (await wait : Prog S W R F R) post start s ↔ c.Keeps t start s ∧ c.stay t wait s ∧
        ∀ middle choice answer resumed, c.rely t s middle → c.inv middle →
          c.allows t wait middle choice → m.answer t wait middle choice = some (answer, resumed) →
          post middle answer resumed := Iff.rfl

variable {prog : Prog S W R F Unit} {reason : F}

@[simp]
theorem rgWp_fault : c.rgWp t (fault reason : Prog S W R F α) post start s ↔ True := Iff.rfl

@[simp]
theorem rgWp_assert {condition : Bool} {post : S → Unit → S → Prop} :
    c.rgWp t (assert reason condition : Prog S W R F Unit) post start s ↔
      (condition = true → post start () s) := by
  cases condition with
  | false => simp [assert]
  | true => simp [assert, rgWp]

@[simp]
theorem rgWp_bind {first : Prog S W R F α} {next : α → Prog S W R F β} {post : S → β → S → Prop} :
    c.rgWp t (first >>= next) post start s ↔ c.rgWp t first (fun start' value s' =>
        c.rgWp t (next value) post start' s') start s := by
  change c.rgWp t (first.bind next) post start s ↔ _
  induction first generalizing start s with
  | ret value | fault reason => exact Iff.rfl
  | step update rest ih => exact ih (update s)
  | block wait rest ih => simp only [Prog.bind, rgWp, ih]

@[simp]
theorem rgWp_ite {condition : Prop} [Decidable condition] {first second : Prog S W R F α} :
    c.rgWp t (if condition then first else second) post start s ↔
      if condition then c.rgWp t first post start s
      else c.rgWp t second post start s := by
  split <;> exact Iff.rfl

/-- What a thread that has kept its part may still do to the others. -/
theorem Keeps.trans {s' : S} (hkeeps : c.Keeps t start s)
    (hnext : c.Keeps t s s') : c.Keeps t start s' := by
  refine ⟨hnext.1, ?_⟩
  intro other hother
  exact c.rely_trans other start s s' (hkeeps.2 other hother) (hnext.2 other hother)

theorem Keeps.refl (hinv : c.inv s) : c.Keeps t s s := ⟨hinv, fun other _ => c.rely_refl other s⟩

def Ends (c : Contract m) (t : T) (start : S) (_ : Unit) (s : S) : Prop :=
  c.Keeps t start s ∧ c.done t s

/-- A thread between two moves of the pool.  Threads start in a wait. -/
def Resting (c : Contract m) (t : T) : Prog S W R F Unit → S → Prop
  | .ret _, s => c.done t s
  | .step _ _, _ => True
  | .block wait next, s => c.stay t wait s ∧
      ∀ middle choice answer resumed, c.rely t s middle → c.inv middle →
        c.allows t wait middle choice → m.answer t wait middle choice = some (answer, resumed) →
        c.rgWp t (next answer) (c.Ends t) middle resumed
  | .fault _, _ => True

theorem Resting.rely {s' : S}
    (hresting : c.Resting t prog s) (hrely : c.rely t s s') (hinv : c.inv s') :
    c.Resting t prog s' := by
  cases prog with
  | ret value => exact c.done_rely t s s' hresting hrely
  | step update next | fault reason => trivial
  | block wait next =>
    obtain ⟨hstay, hrest⟩ := hresting
    refine ⟨c.stay_rely t wait s s' hstay hinv hrely, ?_⟩
    intro middle choice answer resumed hmiddle
    exact hrest middle choice answer resumed (c.rely_trans t s s' middle hrely hmiddle)

/-- A program that meets its precondition comes to rest, having kept what it
owes to the others. -/
theorem rgWp.settle (hwp : c.rgWp t prog (c.Ends t) start s) (hfault : ¬(prog.settle s).1.isFault) :
    c.Keeps t start (prog.settle s).2 ∧ c.Resting t (prog.settle s).1 (prog.settle s).2 := by
  induction prog generalizing s with
  | ret value => exact hwp
  | step update rest ih => exact ih (update s) hwp hfault
  | block wait rest _ => exact ⟨hwp.1, hwp.2⟩
  | fault reason => exact absurd rfl hfault

def Allowed (c : Contract m) (pool : Pool T S W R F) : Move T C E → Prop
  | .resume t choice => ∀ wait next, pool.thread t = .block wait next →
      c.allows t wait pool.shared choice
  | .event event => c.allowsEvent pool.shared event

end Contract

namespace Pool

structure Safe (c : Contract m) (pool : Pool T S W R F) : Prop where
  inv : c.inv pool.shared
  resting : ∀ t, c.Resting t (pool.thread t) pool.shared

variable [DecidableEq T] {c : Contract m}

variable {pool : Pool T S W R F}

theorem Safe.put {pool' : Pool T S W R F} {t : T} {prog : Prog S W R F Unit}
    {s : S} (hsafe : pool.Safe c) (hwp : c.rgWp t prog (c.Ends t) pool.shared s)
    (hput : pool.put t (prog.settle s) = some pool') : pool'.Safe c := by
  rw [Pool.put] at hput
  split at hput
  · simp at hput
  next hfault =>
  cases hput
  obtain ⟨hkeeps, hresting⟩ := hwp.settle hfault
  refine ⟨hkeeps.1, ?_⟩
  intro other
  by_cases hother : other = t
  · subst hother
    simpa only [update_self] using hresting
  · simp only [update_of_ne hother]
    exact (hsafe.resting other).rely (hkeeps.2 other hother) hkeeps.1

theorem Safe.move {pool' : Pool T S W R F} {move : Move T C E}
    (hsafe : pool.Safe c) (hallowed : c.Allowed pool move)
    (hmove : m.move pool move = some pool') : pool'.Safe c := by
  cases move with
  | resume t choice =>
    rw [Machine.move] at hmove
    split at hmove
    · next wait next hthread =>
      rw [Option.bind_eq_some_iff] at hmove
      obtain ⟨⟨answer, resumed⟩, hanswer, hput⟩ := hmove
      have hresting := hsafe.resting t
      rw [hthread] at hresting
      exact hsafe.put (hresting.2 pool.shared choice answer resumed
        (c.rely_refl t pool.shared) hsafe.inv (hallowed wait next hthread) hanswer) hput
    · simp at hmove
  | event event =>
    rw [Machine.move, Option.map_eq_some_iff] at hmove
    obtain ⟨s, hevent, rfl⟩ := hmove
    have hinv := c.event_inv _ event s hsafe.inv hallowed hevent
    refine ⟨hinv, ?_⟩
    intro t
    exact (hsafe.resting t).rely (c.event_rely t _ event s hsafe.inv hallowed hevent) hinv

/-- Every state of a run is safe. -/
theorem Safe.run {last : Pool T S W R F} {moves : List (Move T C E)}
    (hsafe : pool.Safe c) (hrun : Run m.move c.Allowed pool moves last) : last.Safe c := by
  apply hrun.invariant
  · intro pool move pool' hpool hallowed hmove
    exact hpool.move hallowed hmove
  · exact hsafe

end Pool

end Soda
