import Soda.Core.Runs

/-!
# Tasks handed to a device through a pair of rings

A thread writes a task into memory it shares with a device, puts the task's
address on the available ring and goes to sleep, with a limit on how long.
The device takes addresses off that ring, writes its verdict into the task and
puts the address on the used ring.  A poller takes addresses off the used ring
and wakes the thread that the task names, whatever that thread is waiting for
by then.  The thread reads the verdict out of the task when it runs again.

`A` is the type of addresses, `T` of threads, `X` of requests and `V` of
verdicts.  Posts are numbered, and the numbers, the replies, the returns and
the overwrites are kept in the state only to say what happened.

The result is `TaskRing.Calm`: what holds for one thread as long as no wait of
that thread has run into its limit, whatever happens to the others.
-/

namespace Soda

open Function List Option Prod

structure RingTask (T X V : Type) where
  request : X
  poster : Option T
  completed : Bool
  verdict : V
  call : ℕ

/-- The thread's own view of its wait. -/
structure RingWait (A X : Type) where
  addr : A
  request : X
  call : ℕ
  woken : Bool
  timedOut : Bool

/-- A wait that ran into its limit returns no verdict. -/
structure RingReturn (A T X V : Type) where
  thread : T
  addr : A
  request : X
  call : ℕ
  verdict : Option V

structure TaskRing (A T X V : Type) where
  task : A → RingTask T X V
  avail : List A
  owned : List (A × ℕ)
  used : List A
  wait : T → Option (RingWait A X)
  calls : ℕ
  replies : List (ℕ × V)
  returns : List (RingReturn A T X V)
  overwrites : List (T × A)

namespace TaskRing

variable {A T X V : Type} [DecidableEq A]

/-- No task under way, and `request` and `verdict` in every task. -/
def empty (request : X) (verdict : V) : TaskRing A T X V where
  task := fun _ => ⟨request, none, false, verdict, 0⟩
  avail := []
  owned := []
  used := []
  wait := fun _ => none
  calls := 0
  replies := []
  returns := []
  overwrites := []

variable (ring : TaskRing A T X V)

/-- The device has the task from the moment it is on the available ring until
it has answered. -/
def DeviceHas (addr : A) : Prop := addr ∈ ring.avail ∨ addr ∈ ring.owned.map fst

instance (ring : TaskRing A T X V) (addr : A) :
    Decidable (ring.DeviceHas addr) :=
  inferInstanceAs (Decidable (_ ∨ _))

/-- `blank` is the verdict field of a task that was just written. -/
def post [DecidableEq T] (blank : V) (thread : T) (addr : A) (request : X)
    (ring : TaskRing A T X V) : Option (TaskRing A T X V) :=
  match ring.wait thread with
  | some _ => none
  | none =>
    some { ring with
      task := update ring.task addr ⟨request, some thread, false, blank, ring.calls⟩
      avail := ring.avail ++ [addr]
      wait := update ring.wait thread (some ⟨addr, request, ring.calls, false, false⟩)
      calls := ring.calls + 1
      overwrites := if ring.DeviceHas addr then
        (thread, addr) :: ring.overwrites else ring.overwrites }

def take : Option (TaskRing A T X V) :=
  match ring.avail with
  | [] => none
  | addr :: rest =>
    some { ring with
      avail := rest
      owned := ring.owned ++ [(addr, (ring.task addr).call)] }

def reply (addr : A) (call : ℕ) (verdict : V)
    (ring : TaskRing A T X V) : Option (TaskRing A T X V) :=
  if (addr, call) ∈ ring.owned then
    some { ring with
      task := update ring.task addr
        { ring.task addr with completed := true, verdict := verdict }
      owned := ring.owned.erase (addr, call)
      used := ring.used ++ [addr]
      replies := (call, verdict) :: ring.replies }
  else none

def wake [DecidableEq T] (thread : T) (ring : TaskRing A T X V) : TaskRing A T X V :=
  match ring.wait thread with
  | none => ring
  | some wait =>
    { ring with
      wait := update ring.wait thread (some { wait with woken := true }) }

def wakePoster [DecidableEq T] : Option T → TaskRing A T X V
  | none => ring
  | some thread => ring.wake thread

/-- A task on the used ring that is not completed is a failed assertion. -/
def poll [DecidableEq T] : Option (TaskRing A T X V) :=
  match ring.used with
  | [] => none
  | addr :: rest =>
    if (ring.task addr).completed then
      some (({ ring with used := rest } : TaskRing A T X V).wakePoster (ring.task addr).poster)
    else none

/-- The limit can also pass after the wake and before the thread runs. -/
def expire [DecidableEq T] (thread : T) (ring : TaskRing A T X V) : Option (TaskRing A T X V) :=
  match ring.wait thread with
  | none => none
  | some wait =>
    some { ring with
      wait := update ring.wait thread (some { wait with woken := true, timedOut := true }) }

def verdictOf (wait : RingWait A X) : Option V :=
  if wait.timedOut then none else some (ring.task wait.addr).verdict

def resume [DecidableEq T] (thread : T) (ring : TaskRing A T X V) : Option (TaskRing A T X V) :=
  match ring.wait thread with
  | none => none
  | some wait =>
    if wait.woken then
      some { ring with
        wait := update ring.wait thread none
        returns := ⟨thread, wait.addr, wait.request, wait.call,
          ring.verdictOf wait⟩ :: ring.returns }
    else none

/-- How often an address is on its way between the post and the poll. -/
def flights (addr : A) : ℕ :=
  ring.avail.count addr + (ring.owned.map fst).count addr + ring.used.count addr

theorem flights_pos_of_deviceHas {ring : TaskRing A T X V} {addr : A}
    (hhas : ring.DeviceHas addr) : 0 < ring.flights addr := by
  cases hhas with
  | inl havail =>
    have hcount := count_pos_iff.mpr havail
    rw [flights]
    omega
  | inr howned =>
    have hcount := count_pos_iff.mpr howned
    rw [flights]
    omega

theorem flights_pos_of_used {ring : TaskRing A T X V} {addr : A}
    (hused : addr ∈ ring.used) : 0 < ring.flights addr := by
  have hcount := count_pos_iff.mpr hused
  rw [flights]
  omega

section Calm

variable {home : A → Option T} {thread : T}

/-- The one task of a waiting thread, from the post to the return. -/
structure Awaits (home : A → Option T) (ring : TaskRing A T X V)
    (thread : T) (wait : RingWait A X) : Prop where
  home_eq : home wait.addr = some thread
  inTime : wait.timedOut = false
  call_eq : (ring.task wait.addr).call = wait.call
  poster_eq : (ring.task wait.addr).poster = some thread
  others : ∀ addr, home addr = some thread → addr ≠ wait.addr → ring.flights addr = 0
  flights_eq : ring.flights wait.addr = if wait.woken then 0 else 1
  owned_call : ∀ call, (wait.addr, call) ∈ ring.owned → call = wait.call
  answered : wait.woken ∨ wait.addr ∈ ring.used →
    (wait.call, (ring.task wait.addr).verdict) ∈ ring.replies

/-- `home` says which addresses only one thread posts at.  A thread none of
whose waits has run into its limit has at most one task under way, no other
task names it, what it returned are the device's replies to its own posts, and
it never wrote into a task the device had. -/
structure Calm (home : A → Option T) (ring : TaskRing A T X V)
    (thread : T) : Prop where
  foreign : ∀ addr, home addr ≠ some thread → (ring.task addr).poster ≠ some thread
  idle : ring.wait thread = none → ∀ addr, home addr = some thread → ring.flights addr = 0
  busy : ∀ wait, ring.wait thread = some wait → ring.Awaits home thread wait
  returned : ∀ ret ∈ ring.returns, ret.thread = thread →
    home ret.addr = some thread ∧ ∃ verdict, ret.verdict = some verdict ∧
      (ret.call, verdict) ∈ ring.replies
  intact : ∀ overwrite ∈ ring.overwrites, overwrite.1 ≠ thread

/-- A change that touches nothing of the thread. -/
structure Frame (home : A → Option T) (thread : T) (ring ring' : TaskRing A T X V) : Prop where
  foreign : ∀ addr, home addr ≠ some thread → (ring'.task addr).poster ≠ some thread
  wait : ring'.wait thread = ring.wait thread := by rfl
  task : ∀ addr, home addr = some thread → ring'.task addr = ring.task addr := by simp
  flights : ∀ addr, home addr = some thread → ring'.flights addr = ring.flights addr := by
    simp [flights]
  owned : ∀ addr call, home addr = some thread →
    (addr, call) ∈ ring'.owned → (addr, call) ∈ ring.owned := by simp
  used : ∀ addr, home addr = some thread → addr ∈ ring'.used → addr ∈ ring.used := by simp
  replies : ring.replies ⊆ ring'.replies := by simp
  returns : ∀ ret ∈ ring'.returns, ret.thread = thread → ret ∈ ring.returns := by simp +contextual
  overwrites : ∀ overwrite ∈ ring'.overwrites, overwrite.1 = thread →
    overwrite ∈ ring.overwrites := by simp +contextual

theorem calm_empty (request : X) (verdict : V) :
    (empty request verdict : TaskRing A T X V).Calm home thread := by
  constructor <;> simp [empty, flights]

variable {ring ring' : TaskRing A T X V} {addr : A} {other : T} (hcalm : ring.Calm home thread)
include hcalm

theorem Calm.frame (hframe : Frame home thread ring ring') : ring'.Calm home thread where
  foreign := hframe.foreign
  idle := by
    intro hidle addr haddr
    rw [hframe.flights addr haddr]
    exact hcalm.idle (hframe.wait ▸ hidle) addr haddr
  busy := by
    intro wait hbusy
    have hawaits := hcalm.busy wait (hframe.wait ▸ hbusy)
    have hhome := hawaits.home_eq
    exact
      { hawaits with
        call_eq := by rw [hframe.task _ hhome, hawaits.call_eq]
        poster_eq := by rw [hframe.task _ hhome, hawaits.poster_eq]
        others := by
          intro addr haddr hne
          rw [hframe.flights addr haddr, hawaits.others addr haddr hne]
        flights_eq := by rw [hframe.flights _ hhome, hawaits.flights_eq]
        owned_call := by
          intro call hcall
          exact hawaits.owned_call call (hframe.owned _ _ hhome hcall)
        answered := by
          intro hanswered
          rw [hframe.task _ hhome]
          apply hframe.replies
          exact hawaits.answered (hanswered.imp_right (hframe.used _ hhome)) }
  returned := by
    intro ret hret hthread
    obtain ⟨hhome, verdict, heq, hreply⟩ :=
      hcalm.returned ret (hframe.returns ret hret hthread) hthread
    exact ⟨hhome, verdict, heq, hframe.replies hreply⟩
  intact := by
    intro overwrite hmem heq
    exact hcalm.intact overwrite (hframe.overwrites overwrite hmem heq) heq

/-- Any address of the thread that is under way is the one it waits for. -/
theorem Calm.awaited (hhome : home addr = some thread) (hflights : 0 < ring.flights addr) :
    ∃ wait, ring.wait thread = some wait ∧ wait.addr = addr ∧ wait.woken = false := by
  cases hwait : ring.wait thread with
  | none =>
    have hzero := hcalm.idle hwait addr hhome
    omega
  | some wait =>
    have hawaits := hcalm.busy wait hwait
    have haddr : wait.addr = addr := by
      by_contra hne
      have hzero := hawaits.others addr hhome (Ne.symm hne)
      omega
    refine ⟨wait, rfl, haddr, ?_⟩
    by_contra hwoken
    have hzero := hawaits.flights_eq
    rw [if_pos (by simpa using hwoken), haddr] at hzero
    omega

theorem Calm.post_self [DecidableEq T] {blank : V} {request : X} (hhome : home addr = some thread)
    (hpost : ring.post blank thread addr request = some ring') : ring'.Calm home thread := by
  rw [post] at hpost
  split at hpost
  · simp at hpost
  next hidle =>
  cases hpost
  have hzero := hcalm.idle hidle
  have hhas : ¬ring.DeviceHas addr := by
    intro hhas
    have hpos := flights_pos_of_deviceHas hhas
    rw [hzero addr hhome] at hpos
    exact absurd hpos (lt_irrefl 0)
  have hflights : ∀ other, home other = some thread → count other (ring.avail ++ [addr]) +
        (ring.owned.map fst).count other + ring.used.count other =
      if other = addr then 1 else 0 := by
    intro other hother
    have hnone := hzero other hother
    rw [flights] at hnone
    rw [count_append, count_singleton]
    simp only [beq_iff_eq, eq_comm (a := addr)]
    split <;> omega
  constructor
  · intro other hother
    have hne : other ≠ addr := fun heq => hother (heq ▸ hhome)
    simpa [update_of_ne hne] using hcalm.foreign other hother
  · intro hwait
    simp at hwait
  · intro wait hwait
    simp only [update_self, some.injEq] at hwait
    subst hwait
    constructor
    · exact hhome
    · rfl
    · simp
    · simp
    · intro other hother hne
      rw [flights, hflights other hother, if_neg hne]
    · rw [flights, hflights addr hhome, if_pos rfl, if_neg (by simp)]
    · intro call hcall
      exact absurd (.inr (mem_map_of_mem hcall)) hhas
    · intro hanswered
      have hused : addr ∈ ring.used := by simpa using hanswered
      have hpos := flights_pos_of_used hused
      rw [hzero addr hhome] at hpos
      exact absurd hpos (lt_irrefl 0)
  · exact hcalm.returned
  · simpa only [if_neg hhas] using hcalm.intact

theorem Calm.post_other [DecidableEq T] {blank : V} {request : X}
    (hother : other ≠ thread) (hhome : home addr ≠ some thread)
    (hpost : ring.post blank other addr request = some ring') : ring'.Calm home thread := by
  rw [post] at hpost
  split at hpost
  · simp at hpost
  cases hpost
  have hne : ∀ mine, home mine = some thread → mine ≠ addr :=
    fun mine hmine heq => hhome (heq ▸ hmine)
  refine hcalm.frame { foreign := ?_, wait := update_of_ne (Ne.symm hother) _ _, task := fun mine
    hmine => update_of_ne (hne mine hmine) _ _, flights := ?_, overwrites := ?_ }
  · intro place hplace
    dsimp only
    rw [update_apply]
    split
    · simpa using hother
    · exact hcalm.foreign place hplace
  · intro mine hmine
    simp only [flights, count_append, count_singleton, beq_iff_eq,
      if_neg (Ne.symm (hne mine hmine)), add_zero]
  · intro overwrite hmem heq
    split at hmem
    · cases mem_cons.mp hmem with
      | inl hnew =>
        rw [hnew] at heq
        exact absurd heq hother
      | inr hold => exact hold
    · exact hmem

theorem Calm.take (htake : ring.take = some ring') : ring'.Calm home thread := by
  rw [TaskRing.take] at htake
  split at htake
  · simp at htake
  next addr rest havail =>
  cases htake
  have hflights : ∀ other, rest.count other + ((ring.owned ++ [(addr, (ring.task addr).call)]).map
        fst).count other + ring.used.count other = ring.flights other := by
    intro other
    rw [flights, havail, map_append, count_append, count_cons, map_singleton, count_singleton]
    dsimp only
    omega
  refine { hcalm with idle := ?_, busy := ?_ }
  · intro hidle other hother
    rw [flights, hflights]
    exact hcalm.idle hidle other hother
  · intro wait hwait
    have hawaits := hcalm.busy wait hwait
    refine { hawaits with others := ?_, flights_eq := ?_, owned_call := ?_ }
    · intro other hother hne
      rw [flights, hflights]
      exact hawaits.others other hother hne
    · rw [flights, hflights]
      exact hawaits.flights_eq
    · intro call hcall
      cases mem_append.mp hcall with
      | inl hold => exact hawaits.owned_call call hold
      | inr hnew =>
        obtain ⟨haddr, rfl⟩ : wait.addr = addr ∧ call = (ring.task addr).call := by simpa using hnew
        rw [← haddr]
        exact hawaits.call_eq

omit hcalm

theorem count_fst_erase (owned : List (A × ℕ)) {addr : A} {call : ℕ}
    (hmem : (addr, call) ∈ owned) (other : A) :
    (owned.map fst).count other = ((owned.erase (addr, call)).map fst).count other +
        if addr = other then 1 else 0 := by
  have hperm := (perm_cons_erase hmem).map fst
  rw [hperm.count_eq, map_cons, count_cons]
  simp only [beq_iff_eq]

theorem Calm.reply {call : ℕ} {verdict : V} (hcalm : ring.Calm home thread)
    (hreply : ring.reply addr call verdict = some ring') : ring'.Calm home thread := by
  obtain ⟨hmem, rfl⟩ := guard_some hreply
  have hflights : ∀ other, ring.avail.count other +
        ((ring.owned.erase (addr, call)).map fst).count other +
        (ring.used ++ [addr]).count other = ring.flights other := by
    intro other
    rw [flights, count_fst_erase ring.owned hmem, count_append, count_singleton]
    simp only [beq_iff_eq]
    omega
  by_cases hhome : home addr = some thread
  · -- The answer to the thread's own task.
    have hpos : 0 < ring.flights addr := flights_pos_of_deviceHas (.inr (mem_map_of_mem hmem))
    obtain ⟨wait, hwait, rfl, hasleep⟩ := hcalm.awaited hhome hpos
    have hawaits := hcalm.busy wait hwait
    obtain rfl := hawaits.owned_call call hmem
    refine { hcalm with foreign := ?_, idle := ?_, busy := ?_, returned := ?_ }
    · intro other hother
      have hne : other ≠ wait.addr := fun heq => hother (heq ▸ hhome)
      simpa [update_of_ne hne] using hcalm.foreign other hother
    · intro hidle
      simp [hwait] at hidle
    · intro wait' hwait'
      obtain rfl : wait = wait' := some.inj (hwait.symm.trans hwait')
      refine { hawaits with call_eq := ?_, poster_eq := ?_, others := ?_, flights_eq := ?_,
                            owned_call := ?_, answered := ?_ }
      · simpa using hawaits.call_eq
      · simpa using hawaits.poster_eq
      · intro other hother hne
        rw [flights, hflights]
        exact hawaits.others other hother hne
      · rw [flights, hflights]
        exact hawaits.flights_eq
      · intro call' hcall'
        exact hawaits.owned_call call' (mem_of_mem_erase hcall')
      · intro _
        simp
    · intro ret hret hthread
      obtain ⟨hret, old, heq, hold⟩ := hcalm.returned ret hret hthread
      exact ⟨hret, old, heq, mem_cons_of_mem _ hold⟩
  · have hne : ∀ mine, home mine = some thread → mine ≠ addr :=
      fun mine hmine heq => hhome (heq ▸ hmine)
    refine hcalm.frame { foreign := ?_, task := fun mine hmine => update_of_ne (hne mine hmine) _ _,
                         flights := ?_, owned := ?_, used := ?_ }
    · intro place hplace
      dsimp only
      rw [update_apply]
      split
      · next heq =>
          rw [← heq]
          exact hcalm.foreign place hplace
      · exact hcalm.foreign place hplace
    · intro mine _
      rw [flights, hflights]
    · intro mine call' _ hcall'
      exact mem_of_mem_erase hcall'
    · intro mine hmine hused
      simpa [hne mine hmine] using hused

omit [DecidableEq A] in
theorem wake_of_wait [DecidableEq T] {wait : RingWait A X} (hwait : ring.wait thread = some wait) :
    ring.wake thread = { ring with
      wait := update ring.wait thread (some { wait with woken := true }) } := by
  rw [wake, hwait]

omit [DecidableEq A] in
/-- A wake changes nothing but the wait of the thread it names. -/
theorem wakePoster_eq [DecidableEq T] (ring : TaskRing A T X V) (poster : Option T) (thread : T) :
    ∃ waits, ring.wakePoster poster = { ring with wait := waits } ∧
      (poster ≠ some thread → waits thread = ring.wait thread) := by
  cases poster with
  | none => exact ⟨ring.wait, rfl, fun _ => rfl⟩
  | some other =>
    cases hwait : ring.wait other with
    | none =>
      refine ⟨ring.wait, ?_, fun _ => rfl⟩
      rw [wakePoster, wake, hwait]
    | some wait =>
      refine ⟨_, wake_of_wait hwait, ?_⟩
      intro hne
      apply update_of_ne
      intro heq
      exact hne (congrArg some heq.symm)

variable (hcalm : ring.Calm home thread)
include hcalm

theorem Calm.poll [DecidableEq T] (hpoll : ring.poll = some ring') : ring'.Calm home thread := by
  rw [TaskRing.poll] at hpoll
  split at hpoll
  · simp at hpoll
  next addr rest hused =>
  split at hpoll
  · have hflights : ∀ other, ring.flights other =
        ring.avail.count other + (ring.owned.map fst).count other +
          rest.count other + if addr = other then 1 else 0 := by
      intro other
      rw [flights, hused, count_cons]
      simp only [beq_iff_eq]
      omega
    have hrest : rest ⊆ ring.used := by
      rw [hused]
      exact subset_cons_self _ _
    by_cases hhome : home addr = some thread
    · have hmem : addr ∈ ring.used := by
        rw [hused]
        exact mem_cons_self
      obtain ⟨wait, hwait, rfl, hasleep⟩ := hcalm.awaited hhome (flights_pos_of_used hmem)
      have hawaits := hcalm.busy wait hwait
      have hone := hawaits.flights_eq
      rw [hasleep] at hone
      have hwait' : ({ ring with used := rest } : TaskRing A T X V).wait thread = some wait := hwait
      rw [hawaits.poster_eq, wakePoster, wake_of_wait hwait'] at hpoll
      cases hpoll
      refine { hcalm with idle := ?_, busy := ?_ }
      · intro hidle
        simp at hidle
      · intro wait' hwait'
        simp only [update_self, some.injEq] at hwait'
        subst hwait'
        refine { hawaits with others := ?_, flights_eq := ?_, answered := ?_ }
        · intro other hother hne
          have hzero := hawaits.others other hother hne
          rw [hflights] at hzero
          rw [flights]
          dsimp only
          omega
        · rw [hflights, if_pos rfl] at hone
          rw [flights, if_pos rfl]
          dsimp only
          simp only [Bool.false_eq_true, if_false] at hone
          omega
        · intro _
          exact hawaits.answered (.inr hmem)
    · have hposter := hcalm.foreign addr hhome
      obtain ⟨waits, hwake, hsame⟩ := wakePoster_eq
        { ring with used := rest } (ring.task addr).poster thread
      rw [hwake] at hpoll
      cases hpoll
      refine hcalm.frame { foreign := hcalm.foreign, wait := hsame hposter, flights := ?_,
                           used := fun _ _ hmine => hrest hmine }
      intro mine hmine
      have hne : addr ≠ mine := fun heq => hhome (heq ▸ hmine)
      rw [hflights, if_neg hne]
      rfl
  · simp at hpoll

theorem Calm.expire_other [DecidableEq T]
    (hother : other ≠ thread) (hexpire : ring.expire other = some ring') :
    ring'.Calm home thread := by
  rw [expire] at hexpire
  split at hexpire
  · simp at hexpire
  cases hexpire
  exact hcalm.frame { foreign := hcalm.foreign, wait := update_of_ne (Ne.symm hother) _ _ }

theorem Calm.resume [DecidableEq T]
    (hresume : ring.resume other = some ring') : ring'.Calm home thread := by
  rw [TaskRing.resume] at hresume
  split at hresume
  · simp at hresume
  next wait hwait =>
  obtain ⟨hwoken, rfl⟩ := guard_some hresume
  by_cases hother : other = thread
  · subst hother
    have hawaits := hcalm.busy wait hwait
    have hzero := hawaits.flights_eq
    rw [if_pos hwoken] at hzero
    refine { hcalm with idle := ?_, busy := ?_, returned := ?_ }
    · intro _ addr haddr
      by_cases heq : addr = wait.addr
      · rw [heq]
        exact hzero
      · exact hawaits.others addr haddr heq
    · intro wait' hwait'
      simp at hwait'
    · intro ret hret hthread
      cases mem_cons.mp hret with
      | inl hnew =>
        subst hnew
        refine ⟨hawaits.home_eq, (ring.task wait.addr).verdict, ?_, ?_⟩
        · simp [verdictOf, hawaits.inTime]
        · exact hawaits.answered (.inl hwoken)
      | inr hold => exact hcalm.returned ret hold hthread
  · refine hcalm.frame { foreign := hcalm.foreign, wait := update_of_ne (Ne.symm hother) _ _,
                         returns := ?_ }
    intro ret hret hthread
    cases mem_cons.mp hret with
    | inl hnew =>
      rw [hnew] at hthread
      exact absurd hthread hother
    | inr hold => exact hold

end Calm

section Verdicts

variable {ok : A → V → Prop}

/-- What holds of every verdict that is written into a task holds of every
verdict that is read out of it. -/
structure Verdicts (ok : A → V → Prop) (ring : TaskRing A T X V) : Prop where
  task : ∀ addr, ok addr (ring.task addr).verdict
  returned : ∀ ret ∈ ring.returns, ∀ verdict, ret.verdict = some verdict → ok ret.addr verdict

variable {ring ring' : TaskRing A T X V} {thread : T}

variable (hverdicts : ring.Verdicts ok)
include hverdicts

theorem Verdicts.post [DecidableEq T] {blank : V} {addr : A} {request : X} (hblank : ok addr blank)
    (hpost : ring.post blank thread addr request = some ring') : ring'.Verdicts ok := by
  rw [TaskRing.post] at hpost
  split at hpost
  · simp at hpost
  cases hpost
  constructor
  · intro other
    by_cases heq : other = addr
    · simpa [heq] using hblank
    · simpa [heq] using hverdicts.task other
  · exact hverdicts.returned

omit [DecidableEq A] in
theorem Verdicts.take (htake : ring.take = some ring') : ring'.Verdicts ok := by
  rw [TaskRing.take] at htake
  split at htake
  · simp at htake
  cases htake
  exact ⟨hverdicts.task, hverdicts.returned⟩

theorem Verdicts.reply {addr : A} {call : ℕ} {verdict : V} (hok : ok addr verdict)
    (hreply : ring.reply addr call verdict = some ring') : ring'.Verdicts ok := by
  obtain ⟨-, rfl⟩ := guard_some hreply
  constructor
  · intro other
    by_cases heq : other = addr
    · simpa [heq] using hok
    · simpa [heq] using hverdicts.task other
  · exact hverdicts.returned

omit [DecidableEq A] in
theorem Verdicts.poll [DecidableEq T] (hpoll : ring.poll = some ring') : ring'.Verdicts ok := by
  rw [TaskRing.poll] at hpoll
  split at hpoll
  · simp at hpoll
  next addr rest _ =>
  obtain ⟨-, rfl⟩ := guard_some hpoll
  cases (ring.task addr).poster with
  | none => exact ⟨hverdicts.task, hverdicts.returned⟩
  | some thread =>
    obtain ⟨waits, hwake, _⟩ := wakePoster_eq
      ({ ring with used := rest } : TaskRing A T X V) (some thread) thread
    rw [hwake]
    exact ⟨hverdicts.task, hverdicts.returned⟩

omit [DecidableEq A] in
theorem Verdicts.expire [DecidableEq T]
    (hexpire : ring.expire thread = some ring') : ring'.Verdicts ok := by
  rw [TaskRing.expire] at hexpire
  split at hexpire
  · simp at hexpire
  cases hexpire
  exact ⟨hverdicts.task, hverdicts.returned⟩

omit [DecidableEq A] in
theorem Verdicts.resume [DecidableEq T]
    (hresume : ring.resume thread = some ring') : ring'.Verdicts ok := by
  rw [TaskRing.resume] at hresume
  split at hresume
  · simp at hresume
  next wait _ =>
  obtain ⟨-, rfl⟩ := guard_some hresume
  refine ⟨hverdicts.task, ?_⟩
  intro ret hret verdict hverdict
  cases mem_cons.mp hret with
  | inl hnew =>
    subst hnew
    obtain ⟨-, rfl⟩ := unless_some hverdict
    exact hverdicts.task wait.addr
  | inr hold => exact hverdicts.returned ret hold verdict hverdict

end Verdicts

end TaskRing

end Soda
