import Soda.Storpu.ThreadJoin

/-!
# The invariant of exit and join

The exiting thread publishes its state before it leaves its CPU, and a CPU that
has switched away from a thread still looks at it.  Three parts: which CPU a
thread is on, how far the exit has got, and that a joiner past its test joins a
thread that is gone.
-/

namespace Soda.Storpu

open Function JoinWorld Option

variable {C T : Type}

/-- The thread is off its run queue, no CPU runs it, and no CPU is still to
finish a switch away from it. -/
structure JoinWorld.Gone (e : T) (s : JoinWorld C T) : Prop where
  exited : s.pc e = .exited
  offQueue : s.onRq e = false
  notCurrent : ∀ c, s.cur c ≠ some e
  finished : ∀ c stage, s.finishing c ≠ some (e, stage)
  notBlocked : s.state e ≠ .blocked

/-- A CPU that runs a thread, or has not yet cleared its `on_cpu`, is the CPU of
the thread. -/
structure CpuInv (s : JoinWorld C T) : Prop where
  current : ∀ c t, s.cur c = some t → s.cpu t = c ∧ s.onCpu t = true
  clearing : ∀ c t, s.finishing c = some (t, .clearOnCpu) →
    s.cpu t = c ∧ s.onCpu t = true ∧ s.cur c ≠ some t
  onCpu : ∀ t, s.onCpu t = true → ∃ c, s.cur c = some t ∨ s.finishing c = some (t, .clearOnCpu)

/-- How far the exit of a thread at a place has got. -/
inductive ExitStage
  | before
  | published
  | left
  | never

def JoinPc.stage : JoinPc → ExitStage
  | .user => .before
  | .exitLock => .before
  | .exitPublish => .before
  | .exitSignal => .published
  | .exitSignalWake => .published
  | .exitUnlock => .published
  | .exitUnlockWake => .published
  | .exitSchedule => .published
  | .exited => .left
  | _ => .never

/-- What the stage of the exiting thread says about its state and its CPU. -/
def JoinWorld.StageOk (e : T) (s : JoinWorld C T) : ExitStage → Prop
  | .before => s.state e ≠ .exiting ∧ s.state e ≠ .dead
  | .published => s.state e = .exiting ∧ ∃ c, s.running c = some e
  | .left => (s.state e = .exiting ∨ s.state e = .dead) ∧ s.onRq e = false ∧ ∀ c, s.cur c ≠ some e
  | .never => False

def JoinPc.passed : JoinPc → Bool
  | .joinUnlock => true
  | .joinStop => true
  | .joined => true
  | _ => false

structure JoinInv (e : T) (s : JoinWorld C T) : Prop where
  cpus : CpuInv s
  stage : s.StageOk e (s.pc e).stage
  passed : ∀ t, (s.pc t).passed = true → s.Gone e

variable {e t : T} {c : C} {s base : JoinWorld C T}

namespace JoinWorld

theorem running_eq_some : s.running c = some t ↔ s.finishing c = none ∧ s.cur c = some t := by
  rw [running]
  split
  case isTrue hfinished => simp [hfinished]
  case isFalse hfinishing => simp [hfinishing]

theorem running_of_executing (hexecutes : s.executing c = some t) : s.running c = some t :=
  (Option.filter_eq_some_iff.mp hexecutes).1

end JoinWorld

/-! ## Steps of the code -/

variable {next : JoinWorld C T}

structure JoinWorld.SameCpus (next s : JoinWorld C T) : Prop where
  cur : next.cur = s.cur
  finishing : next.finishing = s.finishing
  cpu : next.cpu = s.cpu
  onCpu : next.onCpu = s.onCpu

theorem CpuInv.same (hinv : CpuInv s) (hsame : next.SameCpus s) : CpuInv next where
  current := by
    rw [hsame.cur, hsame.cpu, hsame.onCpu]
    exact hinv.current
  clearing := by
    rw [hsame.finishing, hsame.cpu, hsame.onCpu, hsame.cur]
    exact hinv.clearing
  onCpu := by
    rw [hsame.onCpu, hsame.cur, hsame.finishing]
    exact hinv.onCpu

theorem JoinWorld.StageOk.same {stage : ExitStage} (hstage : s.StageOk e stage)
    (hcur : next.cur = s.cur) (hfinishing : next.finishing = s.finishing)
    (honRq : next.onRq e = s.onRq e) (hstate : next.state e = s.state e) :
    next.StageOk e stage := by
  have hrunning : ∀ c, next.running c = s.running c := by
    intro c
    rw [running, running, hcur, hfinishing]
  cases stage with
  | before =>
    rw [StageOk, hstate]
    exact hstage
  | published =>
    rw [StageOk, hstate]
    simp only [hrunning]
    exact hstage
  | left =>
    rw [StageOk, hstate, honRq, hcur]
    exact hstage
  | never => exact hstage

theorem JoinWorld.Gone.same (hgone : s.Gone e) (hpc : next.pc e = s.pc e)
    (hcur : next.cur = s.cur) (hfinishing : next.finishing = s.finishing)
    (honRq : next.onRq e = s.onRq e) (hstate : next.state e ≠ .blocked) : next.Gone e where
  exited := hpc.trans hgone.exited
  offQueue := honRq.trans hgone.offQueue
  notCurrent := by
    rw [hcur]
    exact hgone.notCurrent
  finished := by
    rw [hfinishing]
    exact hgone.finished
  notBlocked := hstate

variable {pc : JoinPc}

theorem JoinPc.eq_exited (hstage : pc.stage = .left) : pc = .exited := by
  cases pc with
  | exited => rfl
  | _ => cases hstage

/-- A CPU that is not done with a switch does not run the exiting thread. -/
theorem JoinWorld.StageOk.finish {stage : ExitStage}
    (hstage : s.StageOk e stage) (hbusy : s.finishing c ≠ none)
    (hothers : ∀ c', c' ≠ c → next.finishing c' = s.finishing c')
    (hcur : next.cur = s.cur) (honRq : next.onRq = s.onRq)
    (hstate : next.state = s.state) : next.StageOk e stage := by
  cases stage with
  | before =>
    rw [StageOk, hstate]
    exact hstage
  | never => exact hstage
  | left =>
    rw [StageOk, hstate, honRq, hcur]
    exact hstage
  | published =>
    obtain ⟨hexiting, c', hruns⟩ := hstage
    obtain ⟨hfinished, hcurrent⟩ := running_eq_some.mp hruns
    have hc : c' ≠ c := by
      rintro rfl
      exact hbusy hfinished
    rw [StageOk, hstate]
    refine ⟨hexiting, c', running_eq_some.mpr ⟨?_, ?_⟩⟩
    · rw [hothers c' hc, hfinished]
    · rw [hcur, hcurrent]

/-- The joiner sees the state only where no other CPU runs the thread or is
still to finish a switch away from it. -/
def JoinCareful (e : T) (s : JoinWorld C T) : JoinAction C T → Prop
  | .run c =>
    ∀ t, s.executing c = some t → s.pc t = .joinTest → s.state e = .exiting → ∀ other, other ≠ c →
        s.cur other ≠ some e ∧ ∀ stage, s.finishing other ≠ some (e, stage)
  | _ => True

variable (hinv : JoinInv e s)
include hinv

/-- A step of a CPU that leaves every place. -/
theorem JoinInv.cpuStep (hcpus : CpuInv next) (hpc : next.pc = s.pc)
    (hstage : next.StageOk e (s.pc e).stage) (hgone : s.Gone e → next.Gone e) : JoinInv e next where
  cpus := hcpus
  stage := by
    rw [hpc]
    exact hstage
  passed := by
    rw [hpc]
    intro u hu
    exact hgone (hinv.passed u hu)

theorem JoinInv.ne_of_joins (hstage : (s.pc t).stage = .never) : t ≠ e := by
  rintro rfl
  have hnever := hinv.stage
  rw [hstage] at hnever
  exact hnever

/-- A joiner that sees the state under care sees a thread that is gone. -/
theorem JoinInv.gone_of_test
    (hexecutes : s.executing c = some t) (hcareful : JoinCareful e s (.run c))
    (hpc : s.pc t = .joinTest) (hexiting : s.state e = .exiting) : s.Gone e := by
  have hothers := hcareful t hexecutes hpc hexiting
  have hne : t ≠ e := hinv.ne_of_joins (by rw [hpc]; rfl)
  obtain ⟨hfinishing, hcur⟩ := running_eq_some.mp (running_of_executing hexecutes)
  have hcurrent : ∀ other, s.cur other ≠ some e := by
    intro other
    by_cases hother : other = c
    · rw [hother, hcur]
      exact fun heq => hne (some.inj heq)
    · exact (hothers other hother).1
  have hstage := hinv.stage
  cases hplace : (s.pc e).stage with
  | before =>
    rw [hplace] at hstage
    exact absurd hexiting hstage.1
  | published =>
    rw [hplace] at hstage
    obtain ⟨-, other, hruns⟩ := hstage
    exact absurd (running_eq_some.mp hruns).2 (hcurrent other)
  | never =>
    rw [hplace] at hstage
    exact hstage.elim
  | left =>
    rw [hplace] at hstage
    refine ⟨JoinPc.eq_exited hplace, hstage.2.1, hcurrent, ?_, ?_⟩
    · intro other stage
      by_cases hother : other = c
      · rw [hother, hfinishing]
        exact nofun
      · exact (hothers other hother).2 stage
    · rw [hexiting]
      exact nofun

theorem JoinInv.before_of_blocked (hblocked : s.state e = .blocked) : (s.pc e).stage = .before := by
  have hstage := hinv.stage
  cases hplace : (s.pc e).stage with
  | before => rfl
  | published =>
    rw [hplace] at hstage
    cases hblocked.symm.trans hstage.1
  | left =>
    rw [hplace] at hstage
    rcases hstage.1 with hstate | hstate <;>
      cases hblocked.symm.trans hstate
  | never =>
    rw [hplace] at hstage
    exact hstage.elim

theorem JoinInv.before_of_blocks (hblocks : (s.pc e).blocks = true) : (s.pc e).stage = .before := by
  have hstage := hinv.stage
  revert hstage hblocks
  cases s.pc e with
  | user | exitLock => exact fun _ _ => rfl
  | joinLock | joinWait | joined => exact fun _ hstage => hstage.elim
  | _ => exact nofun

omit hinv

variable [DecidableEq T]

namespace JoinWorld

@[simp]
theorem goto_pc_self (t : T) (pc : JoinPc) (s : JoinWorld C T) : (s.goto t pc).pc t = pc := by
  simp [goto]

theorem SameCpus.goto (hsame : base.SameCpus s) : (base.goto t pc).SameCpus s :=
  ⟨hsame.cur, hsame.finishing, hsame.cpu, hsame.onCpu⟩

theorem goto_pc_of_ne {t u : T} (hne : u ≠ t) (pc : JoinPc)
    (s : JoinWorld C T) : (s.goto t pc).pc u = s.pc u := by
  simp [goto, hne]

end JoinWorld

theorem JoinWorld.onCpu_update {picked : T} (t : T) :
    update s.onCpu picked true t = true ↔ s.onCpu t = true ∨ some picked = some t := by
  by_cases hpicked : t = picked
  · simp [hpicked]
  · simp [hpicked, Ne.symm hpicked]

include hinv

/-- A step of another thread in its code, which leaves the state of `e`. -/
theorem JoinInv.other (hne : t ≠ e) (hpc : base.pc = s.pc) (hsame : base.SameCpus s)
    (honRq : base.onRq = s.onRq) (hstate : base.state e = s.state e)
    (hpassed : pc.passed = true → s.Gone e) : JoinInv e (base.goto t pc) := by
  have hplace : (base.goto t pc).pc e = s.pc e := by
    rw [goto_pc_of_ne hne.symm, hpc]
  have hgone : s.Gone e → (base.goto t pc).Gone e := by
    intro hgone
    apply hgone.same hplace hsame.cur hsame.finishing (congrFun honRq e)
    change base.state e ≠ .blocked
    rw [hstate]
    exact hgone.notBlocked
  constructor
  case cpus => exact hinv.cpus.same hsame.goto
  case stage =>
    rw [hplace]
    exact hinv.stage.same hsame.cur hsame.finishing (congrFun honRq e) hstate
  case passed =>
    intro u hu
    apply hgone
    by_cases hut : u = t
    · rw [hut, goto_pc_self] at hu
      exact hpassed hu
    · rw [goto_pc_of_ne hut, hpc] at hu
      exact hinv.passed u hu

/-- A step of the exiting thread in its code. -/
theorem JoinInv.self (hruns : s.running c = some e) (hpc : base.pc = s.pc) (hsame : base.SameCpus s)
    (hstage : (base.goto e pc).StageOk e pc.stage) (hpassed : pc.passed = false) :
    JoinInv e (base.goto e pc) where
  cpus := hinv.cpus.same hsame.goto
  stage := by
    rw [goto_pc_self]
    exact hstage
  passed := by
    intro u hu
    by_cases hue : u = e
    · rw [hue, goto_pc_self, hpassed] at hu
      cases hu
    · rw [goto_pc_of_ne hue, hpc] at hu
      have hgone := hinv.passed u hu
      exact absurd (running_eq_some.mp hruns).2 (hgone.notCurrent c)

theorem JoinInv.lockExitm (hruns : s.running c = some t)
    (hstage : pc.stage = (s.pc t).stage ∨ t ≠ e) (hpassed : pc.passed = false) :
    JoinInv e (s.lockExitm t pc) := by
  rw [JoinWorld.lockExitm]
  split
  case isTrue =>
    by_cases hte : t = e
    · subst hte
      refine hinv.self hruns rfl ⟨rfl, rfl, rfl, rfl⟩ ?_ hpassed
      rw [hstage.resolve_right (not_not.mpr rfl)]
      exact hinv.stage.same rfl rfl rfl rfl
    · refine hinv.other hte rfl ⟨rfl, rfl, rfl, rfl⟩ rfl rfl ?_
      rw [hpassed]
      exact nofun
  case isFalse =>
    exact ⟨hinv.cpus.same ⟨rfl, rfl, rfl, rfl⟩, hinv.stage.same rfl rfl rfl rfl,
      fun u hu => (hinv.passed u hu).same rfl rfl rfl rfl (hinv.passed u hu).notBlocked⟩

/-- The steps of `thread_exit` after the state is published. -/
theorem JoinInv.published (hruns : s.running c = some e) (hpc : base.pc = s.pc)
    (hsame : base.SameCpus s) (hstate : base.state e = .exiting)
    (hstage : pc.stage = .published) (hpassed : pc.passed = false) :
    JoinInv e (base.goto e pc) := by
  refine hinv.self hruns hpc hsame ?_ hpassed
  rw [hstage]
  refine ⟨hstate, c, ?_⟩
  rw [← hruns, running, running]
  change (if base.finishing c = none then base.cur c else none) = _
  rw [hsame.finishing, hsame.cur]

theorem JoinInv.exitStep (hruns : s.running c = some t)
    (hleft : (s.pc t).stage = .published) (hpc : base.pc = s.pc) (hsame : base.SameCpus s)
    (honRq : base.onRq = s.onRq) (hstate : base.state = s.state)
    (hstage : pc.stage = .published) (hpassed : pc.passed = false) :
    JoinInv e (base.goto t pc) := by
  by_cases hte : t = e
  · subst hte
    have hexiting := hinv.stage
    rw [hleft] at hexiting
    exact hinv.published hruns hpc hsame (hstate ▸ hexiting.1) hstage hpassed
  · refine hinv.other hte hpc hsame honRq (congrFun hstate e) ?_
    rw [hpassed]
    exact nofun

theorem JoinInv.advance (hexecutes : s.executing c = some t)
    (hcareful : JoinCareful e s (.run c)) (hstep : s.advance e t = some next) : JoinInv e next := by
  have hruns := running_of_executing hexecutes
  rw [JoinWorld.advance] at hstep
  split at hstep
  case h_1 | h_8 | h_9 | h_15 => cases hstep
  case h_2 hpc =>
    cases hstep
    exact hinv.lockExitm hruns (.inl (by rw [hpc]; rfl)) rfl
  case h_3 hpc =>
    cases hstep
    by_cases hte : t = e
    · subst hte
      exact hinv.published hruns rfl ⟨rfl, rfl, rfl, rfl⟩ (update_self t _ s.state) rfl rfl
    · exact hinv.other hte rfl ⟨rfl, rfl, rfl, rfl⟩ rfl (update_of_ne (Ne.symm hte) _ s.state) nofun
  case h_4 hpc | h_5 hpc | h_7 hpc =>
    cases hstep
    exact hinv.exitStep hruns (by rw [hpc]; rfl) rfl ⟨rfl, rfl, rfl, rfl⟩ rfl rfl rfl rfl
  case h_6 hpc =>
    cases hstep
    split
    · exact hinv.exitStep hruns (by rw [hpc]; rfl) rfl ⟨rfl, rfl, rfl, rfl⟩ rfl rfl rfl rfl
    · exact hinv.exitStep hruns (by rw [hpc]; rfl) rfl ⟨rfl, rfl, rfl, rfl⟩ rfl rfl rfl rfl
  case h_10 hpc =>
    cases hstep
    exact hinv.lockExitm hruns (.inr (hinv.ne_of_joins (by rw [hpc]; rfl))) rfl
  case h_11 hpc =>
    have hne : t ≠ e := hinv.ne_of_joins (by rw [hpc]; rfl)
    split at hstep
    case isTrue hexiting =>
      cases hstep
      exact hinv.other hne rfl ⟨rfl, rfl, rfl, rfl⟩ rfl rfl fun _ =>
        hinv.gone_of_test hexecutes hcareful hpc hexiting
    case isFalse =>
      cases hstep
      exact hinv.other hne rfl ⟨rfl, rfl, rfl, rfl⟩ rfl rfl nofun
  case h_12 hpc =>
    cases hstep
    exact hinv.other (hinv.ne_of_joins (by rw [hpc]; rfl)) rfl ⟨rfl, rfl, rfl, rfl⟩ rfl rfl nofun
  case h_13 hpc =>
    cases hstep
    exact hinv.other (hinv.ne_of_joins (by rw [hpc]; rfl)) rfl
      ⟨rfl, rfl, rfl, rfl⟩ rfl rfl fun _ => hinv.passed t (by rw [hpc]; rfl)
  case h_14 hpc =>
    cases hstep
    have hgone := hinv.passed t (by rw [hpc]; rfl)
    have hne : t ≠ e := hinv.ne_of_joins (by rw [hpc]; rfl)
    have hdead : update s.state e .dead e = .dead := update_self e _ s.state
    have hplace := goto_pc_of_ne hne.symm .joined { s with state := update s.state e .dead }
    constructor
    case cpus => exact hinv.cpus.same ⟨rfl, rfl, rfl, rfl⟩
    case stage =>
      rw [hplace, hgone.exited]
      exact ⟨.inr hdead, hgone.offQueue, hgone.notCurrent⟩
    case passed =>
      intro u _
      refine hgone.same hplace rfl rfl rfl ?_
      change update s.state e .dead e ≠ .blocked
      rw [hdead]
      exact nofun

/-- Blocking and waking change the state of a thread that does not exit. -/
theorem JoinInv.setState {state : RunState} {onRq : T → Bool}
    (hself : t = e → (s.pc e).stage = .before)
    (hstate : state ≠ .exiting ∧ state ≠ .dead) (honRq : ∀ u, u ≠ t → onRq u = s.onRq u) :
    JoinInv e { s with
      state := update s.state t state
      onRq := onRq } := by
  by_cases hte : t = e
  · subst hte
    have hbefore := hself rfl
    refine hinv.cpuStep (hinv.cpus.same ⟨rfl, rfl, rfl, rfl⟩) rfl ?_ ?_
    · rw [hbefore]
      change update s.state t state t ≠ _ ∧ update s.state t state t ≠ _
      rw [update_self]
      exact hstate
    · intro hgone
      rw [hgone.exited] at hbefore
      cases hbefore
  · have hsame : update s.state t state e = s.state e := update_of_ne (Ne.symm hte) _ s.state
    have hqueue := honRq e (Ne.symm hte)
    refine hinv.cpuStep (hinv.cpus.same ⟨rfl, rfl, rfl, rfl⟩) rfl ?_ ?_
    · exact hinv.stage.same rfl rfl hqueue hsame
    · intro hgone
      refine hgone.same rfl rfl rfl hqueue ?_
      change update s.state t state e ≠ _
      rw [hsame]
      exact hgone.notBlocked

theorem JoinInv.migrate {cpu : C} (honCpu : s.onCpu t = false) :
    JoinInv e { s with cpu := update s.cpu t cpu } := by
  have hother : ∀ u, s.onCpu u = true → update s.cpu t cpu u = s.cpu u := by
    intro u hu
    rw [update_of_ne]
    rintro rfl
    exact Bool.false_ne_true (honCpu.symm.trans hu)
  refine hinv.cpuStep ?_ rfl (hinv.stage.same rfl rfl rfl rfl)
    fun hgone => hgone.same rfl rfl rfl rfl hgone.notBlocked
  constructor
  case current =>
    intro c u hu
    obtain ⟨hcpu, hon⟩ := hinv.cpus.current c u hu
    exact ⟨(hother u hon).trans hcpu, hon⟩
  case clearing =>
    intro c u hu
    obtain ⟨hcpu, hon, hcur⟩ := hinv.cpus.clearing c u hu
    exact ⟨(hother u hon).trans hcpu, hon, hcur⟩
  case onCpu => exact hinv.cpus.onCpu

omit hinv

/-! ## Steps of the CPUs -/

variable [DecidableEq C] {prev : T}

/-- CPU `c` goes on with `picked`, which may be no thread, and has to finish the
switch `left`. -/
structure JoinWorld.Switched (c : C) (picked : Option T) (left : Option (T × FinishStage))
    (s next : JoinWorld C T) : Prop where
  cur : next.cur = update s.cur c picked
  finishing : next.finishing = update s.finishing c left
  cpu : next.cpu = s.cpu
  state : next.state = s.state
  onCpu : ∀ t, next.onCpu t = true ↔ s.onCpu t = true ∨ picked = some t

section Switches

omit [DecidableEq T]

variable {picked : Option T} {left : Option (T × FinishStage)}
  (hswitch : s.Switched c picked left next) (hqueued : ∀ t ∈ picked, s.onRq t = true ∧ s.cpu t = c)

include hswitch hqueued

/-- `left` is the switch away from the thread that was current. -/
theorem CpuInv.switch (hinv : CpuInv s) (hfinishing : s.finishing c = none)
    (hleft : ∀ t, left = some (t, .clearOnCpu) ↔ s.cur c = some t)
    (hpicked : ∀ t, s.cur c = some t → picked ≠ some t) : CpuInv next := by
  constructor
  case current =>
    intro c' t ht
    rw [hswitch.cur] at ht
    rw [hswitch.cpu, hswitch.onCpu]
    by_cases hc : c' = c
    · rw [hc, update_self] at ht
      rw [hc]
      exact ⟨(hqueued t ht).2, .inr ht⟩
    · rw [update_of_ne hc] at ht
      exact (hinv.current c' t ht).imp_right .inl
  case clearing =>
    intro c' t ht
    rw [hswitch.finishing] at ht
    rw [hswitch.cpu, hswitch.onCpu, hswitch.cur]
    by_cases hc : c' = c
    · rw [hc, update_self, hleft] at ht
      rw [hc, update_self]
      obtain ⟨hcpu, hon⟩ := hinv.current c t ht
      exact ⟨hcpu, .inl hon, hpicked t ht⟩
    · rw [update_of_ne hc] at ht ⊢
      obtain ⟨hcpu, hon, hother⟩ := hinv.clearing c' t ht
      exact ⟨hcpu, .inl hon, hother⟩
  case onCpu =>
    intro t ht
    rw [hswitch.cur, hswitch.finishing]
    rcases (hswitch.onCpu t).mp ht with hbefore | hnext
    · obtain ⟨c', hplace⟩ := hinv.onCpu t hbefore
      refine ⟨c', ?_⟩
      by_cases hc : c' = c
      · rw [hc, hfinishing] at hplace
        rw [hc, update_self, update_self, hleft]
        exact .inr (hplace.resolve_right nofun)
      · rwa [update_of_ne hc, update_of_ne hc]
    · exact ⟨c, .inl (by rw [update_self, hnext])⟩

/-- A thread off its queue is not picked. -/
theorem JoinWorld.Switched.notCurrent (hoff : s.onRq e = false)
    (hcurrent : ∀ c', s.cur c' ≠ some e) (c' : C) : next.cur c' ≠ some e := by
  rw [hswitch.cur]
  revert c'
  apply (forall_update_iff s.cur fun _ t => t ≠ some e).mpr
  refine ⟨?_, fun c' _ => hcurrent c'⟩
  intro hpicked
  rw [(hqueued e hpicked).1] at hoff
  cases hoff

/-- A thread that is gone is not picked again. -/
theorem JoinWorld.Gone.switch (hgone : s.Gone e) (hpc : next.pc e = s.pc e)
    (honRq : next.onRq e = s.onRq e) (hleft : ∀ stage, left ≠ some (e, stage)) : next.Gone e where
  exited := hpc.trans hgone.exited
  offQueue := honRq.trans hgone.offQueue
  notCurrent := hswitch.notCurrent hqueued hgone.offQueue hgone.notCurrent
  finished c' stage := by
    rw [hswitch.finishing]
    revert c'
    apply (forall_update_iff s.finishing fun _ switch => switch ≠ some (e, stage)).mpr
    exact ⟨hleft stage, fun c' _ => hgone.finished c' stage⟩
  notBlocked := by
    rw [hswitch.state]
    exact hgone.notBlocked

theorem JoinWorld.StageOk.switch {stage : ExitStage} (hstage : s.StageOk e stage)
    (hcur : s.cur c ≠ some e) (honRq : next.onRq e = s.onRq e) : next.StageOk e stage := by
  cases stage with
  | before =>
    rw [StageOk, hswitch.state]
    exact hstage
  | never => exact hstage
  | published =>
    obtain ⟨hstate, c', hruns⟩ := hstage
    obtain ⟨hfinished, hcurrent⟩ := running_eq_some.mp hruns
    have hc : c' ≠ c := by
      rintro rfl
      exact hcur hcurrent
    rw [StageOk, hswitch.state]
    refine ⟨hstate, c', running_eq_some.mpr ?_⟩
    rw [hswitch.finishing, hswitch.cur, update_of_ne hc, update_of_ne hc]
    exact ⟨hfinished, hcurrent⟩
  | left =>
    obtain ⟨hstate, hoff, hcurrent⟩ := hstage
    rw [StageOk, hswitch.state, honRq]
    exact ⟨hstate, hoff, hswitch.notCurrent hqueued hoff hcurrent⟩

end Switches

theorem JoinWorld.switched_schedule {picked : Option T} :
    s.Switched c picked (some (prev, .clearOnCpu)) (s.schedule c prev picked) := by
  refine ⟨rfl, rfl, rfl, rfl, fun t => ?_⟩
  cases picked with
  | none => simp [schedule]
  | some picked => exact onCpu_update t

theorem JoinWorld.schedule_pc_of_ne {u : T} {next : Option T} (hne : u ≠ prev) :
    (s.schedule c prev next).pc u = s.pc u := by
  change (if s.pc prev = .exitSchedule then update s.pc prev .exited
    else s.pc) u = s.pc u
  split
  · rw [update_of_ne hne]
  · rfl

theorem JoinWorld.schedule_onRq_of_ne {u : T} {next : Option T} (hne : u ≠ prev) :
    (s.schedule c prev next).onRq u = s.onRq u := by
  change (if s.state prev = .running then s.onRq
    else update s.onRq prev false) u = s.onRq u
  split
  · rfl
  · rw [update_of_ne hne]

theorem JoinWorld.StageOk.schedule {next : Option T} (hinv : CpuInv s)
    (hstage : s.StageOk e (s.pc e).stage) (hcur : s.cur c = some prev)
    (hschedules : (s.pc prev).schedules = true) (hnext : next ≠ some prev)
    (hqueued : ∀ t ∈ next, s.onRq t = true ∧ s.cpu t = c) :
    (s.schedule c prev next).StageOk e ((s.schedule c prev next).pc e).stage := by
  by_cases hprev : e = prev
  · subst hprev
    revert hstage hschedules
    cases hpc : s.pc e with
    | user | exitLock =>
      intro hstage _
      have hsame : (s.schedule c e next).pc e = s.pc e := by
        change (if s.pc e = .exitSchedule then _ else s.pc) e = s.pc e
        rw [if_neg]
        rw [hpc]
        exact nofun
      rw [hsame, hpc]
      exact hstage
    | exitSchedule =>
      intro hstage _
      have hexited : (s.schedule c e next).pc e = .exited := by
        change (if s.pc e = .exitSchedule then
          update s.pc e .exited else s.pc) e = .exited
        rw [if_pos hpc, update_self]
      rw [hexited]
      refine ⟨.inl hstage.1, ?_, ?_⟩
      · change (if s.state e = .running then s.onRq
          else update s.onRq e false) e = false
        rw [if_neg, update_self]
        rw [hstage.1]
        exact nofun
      · apply (forall_update_iff s.cur fun _ t => t ≠ some e).mpr
        refine ⟨hnext, fun c' hc hother => ?_⟩
        exact hc ((hinv.current c' e hother).1.symm.trans (hinv.current c e hcur).1)
    | joinLock | joinWait | joined => exact fun hstage => hstage.elim
    | _ => exact nofun
  · rw [schedule_pc_of_ne hprev]
    refine hstage.switch switched_schedule hqueued ?_ (schedule_onRq_of_ne hprev)
    rw [hcur]
    exact fun heq => hprev (some.inj heq).symm

include hinv

theorem JoinInv.schedule {next : Option T} (hruns : s.running c = some prev)
    (hschedules : (s.pc prev).schedules = true) (hnext : next ≠ some prev)
    (hqueued : ∀ t ∈ next, s.onRq t = true ∧ s.cpu t = c) : JoinInv e (s.schedule c prev next) := by
  obtain ⟨hfinishing, hcur⟩ := running_eq_some.mp hruns
  constructor
  case cpus =>
    apply hinv.cpus.switch switched_schedule hqueued hfinishing
    · simp [hcur]
    · intro t ht
      rwa [← hcur.symm.trans ht]
  case stage => exact hinv.stage.schedule hinv.cpus hcur hschedules hnext hqueued
  case passed =>
    intro u hu
    have hbefore : (s.pc u).passed = true := by
      by_cases hprev : u = prev
      · subst hprev
        change ((if s.pc u = .exitSchedule then
          update s.pc u .exited else s.pc) u).passed = true at hu
        split at hu
        · rw [update_self] at hu
          cases hu
        · exact hu
      · rwa [schedule_pc_of_ne hprev] at hu
    have hgone := hinv.passed u hbefore
    have hne : e ≠ prev := by
      rintro rfl
      exact hgone.notCurrent c hcur
    apply hgone.switch switched_schedule hqueued (schedule_pc_of_ne hne) (schedule_onRq_of_ne hne)
    intro stage heq
    exact hne (Prod.mk.inj (some.inj heq)).1.symm

theorem JoinInv.idle {picked : T} (hcur : s.cur c = none)
    (hfinishing : s.finishing c = none) (honRq : s.onRq picked = true) (hcpu : s.cpu picked = c) :
    JoinInv e { s with
      cur := update s.cur c (some picked)
      onCpu := update s.onCpu picked true } := by
  have hsame : s.finishing = update s.finishing c none := by
    rw [← hfinishing, update_eq_self]
  have hswitch : s.Switched c (some picked) none { s with
      cur := update s.cur c (some picked)
      onCpu := update s.onCpu picked true } := ⟨rfl, hsame, rfl, rfl, onCpu_update⟩
  have hqueued : ∀ t ∈ some picked, s.onRq t = true ∧ s.cpu t = c := by
    rintro _ ⟨⟩
    exact ⟨honRq, hcpu⟩
  apply hinv.cpuStep
  · apply hinv.cpus.switch hswitch hqueued hfinishing
    · simp [hcur]
    · simp [hcur]
  · rfl
  · apply hinv.stage.switch hswitch hqueued _ rfl
    rw [hcur]
    exact nofun
  · intro hgone
    exact hgone.switch hswitch hqueued rfl rfl nofun

theorem JoinInv.clearOnCpu (hfinishing : s.finishing c = some (prev, .clearOnCpu)) :
    JoinInv e { s with
      finishing := update s.finishing c (some (prev, .checkState))
      onCpu := update s.onCpu prev false } := by
  obtain ⟨hcpu, -, hcur⟩ := hinv.cpus.clearing c prev hfinishing
  have honCpu : ∀ c' t, s.cpu t = c' → c' ≠ c ∨ s.cur c' = some t →
      s.onCpu t = true → update s.onCpu prev false t = true := by
    intro c' t hplace hother hon
    rw [update_of_ne, hon]
    rintro rfl
    rw [hcpu] at hplace
    subst hplace
    exact hother.elim (fun hne => hne rfl) hcur
  apply hinv.cpuStep
  · constructor
    case current =>
      intro c' t ht
      obtain ⟨hplace, hon⟩ := hinv.cpus.current c' t ht
      exact ⟨hplace, honCpu c' t hplace (.inr ht) hon⟩
    case clearing =>
      intro c' t ht
      have hc : c' ≠ c := by
        rintro rfl
        simp at ht
      have hbefore : s.finishing c' = some (t, .clearOnCpu) := by
        simpa [hc] using ht
      obtain ⟨hplace, hon, hother⟩ := hinv.cpus.clearing c' t hbefore
      exact ⟨hplace, honCpu c' t hplace (.inl hc) hon, hother⟩
    case onCpu =>
      intro t ht
      have hne : t ≠ prev := by
        rintro rfl
        simp at ht
      have hbefore : s.onCpu t = true := by simpa [hne] using ht
      obtain ⟨c', hplace⟩ := hinv.cpus.onCpu t hbefore
      refine ⟨c', hplace.imp_right fun hclears => ?_⟩
      have hc : c' ≠ c := by
        rintro rfl
        rw [hfinishing] at hclears
        exact hne (Prod.mk.inj (some.inj hclears)).1.symm
      simpa [hc] using hclears
  · rfl
  · refine hinv.stage.finish (c := c) ?_ ?_ rfl rfl rfl
    · rw [hfinishing]
      exact nofun
    · intro c' hc
      exact update_of_ne hc _ s.finishing
  · intro hgone
    refine { hgone with finished := fun c' stage => ?_ }
    by_cases hc : c' = c
    · rw [hc]
      intro heq
      have hsame : prev = e := by
        simp only [update_self, some.injEq, Prod.mk.injEq] at heq
        exact heq.1
      rw [hsame] at hfinishing
      exact hgone.finished c _ hfinishing
    · simpa [hc] using hgone.finished c' stage

omit [DecidableEq T] in
theorem JoinInv.checkState (hfinishing : s.finishing c = some (prev, .checkState)) :
    JoinInv e { s with
      finishing := update s.finishing c none } := by
  apply hinv.cpuStep
  · constructor
    case current => exact hinv.cpus.current
    case clearing =>
      intro c' t ht
      have hc : c' ≠ c := by
        rintro rfl
        simp at ht
      exact hinv.cpus.clearing c' t (by simpa [hc] using ht)
    case onCpu =>
      intro t ht
      obtain ⟨c', hplace⟩ := hinv.cpus.onCpu t ht
      refine ⟨c', hplace.imp_right fun hclears => ?_⟩
      have hc : c' ≠ c := by
        rintro rfl
        rw [hfinishing] at hclears
        cases hclears
      simpa [hc] using hclears
  · rfl
  · refine hinv.stage.finish (c := c) ?_ ?_ rfl rfl rfl
    · rw [hfinishing]
      exact nofun
    · intro c' hc
      exact update_of_ne hc _ s.finishing
  · intro hgone
    refine { hgone with finished := fun c' stage => ?_ }
    by_cases hc : c' = c
    · simp [hc]
    · simpa [hc] using hgone.finished c' stage

theorem JoinInv.step {action : JoinAction C T} (hcareful : JoinCareful e s action)
    (hstep : joinStep e s action = some next) : JoinInv e next := by
  cases action with
  | exit c =>
    obtain ⟨⟨hexecutes, hpc⟩, rfl⟩ := guard_some hstep
    have hstage := hinv.stage
    rw [hpc] at hstage
    exact hinv.self (running_of_executing hexecutes) rfl ⟨rfl, rfl, rfl, rfl⟩ hstage rfl
  | join c =>
    rw [joinStep] at hstep
    split at hstep
    case h_1 t hexecutes =>
      obtain ⟨⟨-, hne, -⟩, rfl⟩ := guard_some hstep
      exact hinv.other hne rfl ⟨rfl, rfl, rfl, rfl⟩ rfl rfl nofun
    case h_2 => cases hstep
  | run c =>
    rw [joinStep] at hstep
    split at hstep
    case h_1 t hexecutes => exact hinv.advance hexecutes hcareful hstep
    case h_2 => cases hstep
  | block c =>
    rw [joinStep] at hstep
    split at hstep
    case h_1 t hexecutes =>
      obtain ⟨hblocks, rfl⟩ := guard_some hstep
      refine hinv.setState ?_ ⟨nofun, nofun⟩ fun _ _ => rfl
      rintro rfl
      exact hinv.before_of_blocks hblocks
    case h_2 => cases hstep
  | schedule c picked =>
    rw [joinStep] at hstep
    split at hstep
    case h_1 prev hruns =>
      obtain ⟨⟨hschedules, hne, hqueued⟩, rfl⟩ := guard_some hstep
      exact hinv.schedule hruns hschedules hne hqueued
    case h_2 => cases hstep
  | idle c picked =>
    obtain ⟨⟨hcur, hfinishing, honRq, hcpu⟩, rfl⟩ := guard_some hstep
    exact hinv.idle hcur hfinishing honRq hcpu
  | finish c =>
    rw [joinStep] at hstep
    split at hstep
    case h_1 prev hfinishing =>
      cases hstep
      exact hinv.clearOnCpu hfinishing
    case h_2 prev hfinishing =>
      cases hstep
      exact hinv.checkState hfinishing
    case h_3 => cases hstep
  | wake t =>
    obtain ⟨⟨hblocked, -⟩, rfl⟩ := guard_some hstep
    refine hinv.setState ?_ ⟨nofun, nofun⟩ fun u hu => update_of_ne hu true s.onRq
    rintro rfl
    exact hinv.before_of_blocked hblocked
  | migrate t cpu =>
    obtain ⟨⟨-, honCpu⟩, rfl⟩ := guard_some hstep
    exact hinv.migrate honCpu

end Soda.Storpu
