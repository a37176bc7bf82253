import Soda.Storpu.JoinInvariant

/-!
# When a joined thread is freed

A joiner that sees the state of the exiting thread where no other CPU runs the
thread, or is still in `finish_thread_switch` for it, frees a thread that is
gone.  The code does not wait for that.
-/

namespace Soda.Storpu

variable {C T : Type} [DecidableEq C] [DecidableEq T]

/-- No thread exits or joins yet, and no CPU is in a switch. -/
structure JoinWorld.Start (e : T) (s : JoinWorld C T) : Prop where
  user : ∀ t, s.pc t = .user
  switched : ∀ c, s.finishing c = none
  alive : s.state e ≠ .exiting ∧ s.state e ≠ .dead
  current : ∀ c t, s.cur c = some t → s.cpu t = c ∧ s.onCpu t = true
  onCpu : ∀ t, s.onCpu t = true → ∃ c, s.cur c = some t

/-- The action is a step of the thread on its stack, or one that reads or writes
its control block for the scheduler. -/
def JoinWorld.Touches (e : T) (s : JoinWorld C T) : JoinAction C T → Prop
  | .exit c => s.cur c = some e
  | .join c => s.cur c = some e
  | .run c => s.cur c = some e
  | .block c => s.cur c = some e
  | .schedule c next => s.cur c = some e ∨ next = some e
  | .idle _ next => next = e
  | .finish c => ∃ stage, s.finishing c = some (e, stage)
  | .wake t => t = e
  | .migrate t _ => t = e

instance : Fintype FinishStage where
  elems := {.clearOnCpu, .checkState}
  complete := by
    intro stage
    cases stage with
    | clearOnCpu | checkState => decide

instance [Fintype C] [Fintype T] (e : T) (s : JoinWorld C T) :
    (action : JoinAction C T) → Decidable (JoinCareful e s action)
  | .run c => inferInstanceAs (Decidable (∀ t, s.executing c = some t →
      s.pc t = .joinTest → s.state e = .exiting → ∀ other, other ≠ c →
      s.cur other ≠ some e ∧ ∀ stage, s.finishing other ≠ some (e, stage)))
  | .exit _ => isTrue trivial
  | .join _ => isTrue trivial
  | .block _ => isTrue trivial
  | .schedule _ _ => isTrue trivial
  | .idle _ _ => isTrue trivial
  | .finish _ => isTrue trivial
  | .wake _ => isTrue trivial
  | .migrate _ _ => isTrue trivial

variable {e t : T} {s start : JoinWorld C T}

omit [DecidableEq C] [DecidableEq T] in
theorem JoinWorld.Start.inv (hstart : start.Start e) : JoinInv e start where
  cpus :=
    { current := hstart.current
      clearing := by
        intro c t ht
        rw [hstart.switched c] at ht
        cases ht
      onCpu := by
        intro t ht
        obtain ⟨c, hc⟩ := hstart.onCpu t ht
        exact ⟨c, .inl hc⟩ }
  stage := by
    rw [hstart.user e]
    exact hstart.alive
  passed := by
    intro t ht
    rw [hstart.user t] at ht
    cases ht

omit [DecidableEq C] [DecidableEq T] in
theorem JoinInv.offCpu (hinv : JoinInv e s) (hgone : s.Gone e) : s.onCpu e = false := by
  apply Bool.eq_false_of_not_eq_true
  intro hon
  obtain ⟨c, hcur | hclears⟩ := hinv.cpus.onCpu e hon
  · exact hgone.notCurrent c hcur
  · exact hgone.finished c _ hclears

/-- No step that is possible touches a thread that is gone. -/
theorem JoinWorld.Gone.untouched (hgone : s.Gone e)
    {action : JoinAction C T} (htouches : s.Touches e action) : joinStep e s action = none := by
  cases action with
  | exit c | join c | run c | block c => exact absurd htouches (hgone.notCurrent c)
  | schedule c next =>
    rcases htouches with hcur | hnext
    · exact absurd hcur (hgone.notCurrent c)
    · rw [joinStep]
      split
      · rw [if_neg]
        rintro ⟨-, -, hqueued⟩
        have honRq := (hqueued e hnext).1
        rw [hgone.offQueue] at honRq
        cases honRq
      · rfl
  | idle c next =>
    subst htouches
    apply if_neg
    rintro ⟨-, -, honRq, -⟩
    rw [hgone.offQueue] at honRq
    cases honRq
  | finish c =>
    obtain ⟨stage, hfinishing⟩ := htouches
    exact absurd hfinishing (hgone.finished c stage)
  | wake t =>
    subst htouches
    apply if_neg
    rintro ⟨hblocked, -⟩
    exact hgone.notBlocked hblocked
  | migrate t c =>
    subst htouches
    apply if_neg
    rintro ⟨honRq, -⟩
    rw [hgone.offQueue] at honRq
    cases honRq

/-- Two CPUs, the exiting thread on one and its joiner on the other. -/
def twoCpus : JoinWorld (Fin 2) (Fin 2) where
  cur := fun c => some c
  finishing := fun _ => none
  cpu := fun t => t
  state := fun _ => .running
  onRq := fun _ => true
  onCpu := fun _ => true
  pc := fun _ => .user
  exitm := none
  contended := false
  joiner := none

theorem twoCpus_start : twoCpus.Start 0 where
  user := fun _ => rfl
  switched := fun _ => rfl
  alive := ⟨nofun, nofun⟩
  current := fun _ _ ht => ⟨(Option.some.inj ht).symm, rfl⟩
  onCpu := fun t _ => ⟨t, rfl⟩

/-- The joiner is about to free a thread that still runs. -/
theorem not_join_frees_gone :
    ¬∀ (start s : JoinWorld (Fin 2) (Fin 2)) actions, start.Start 0 →
      FreeRun (joinStep 0) start actions s → ∀ t, s.pc t = .joinStop ∨ s.pc t = .joined →
        s.onRq 0 = false ∧ s.onCpu 0 = false ∧ (∀ c, s.cur c ≠ some 0) ∧
        ∀ action, s.Touches 0 action → joinStep 0 s action = none := by
  intro hfrees
  obtain ⟨s, hs, hpc, hcur⟩ :
      ∃ s, runActions (joinStep 0) twoCpus [.exit 0, .run 0, .run 0, .run 0, .run 0, .run 0,
            .join 1, .run 1, .run 1, .run 1] = some s ∧
        s.pc (1 : Fin 2) = .joinStop ∧ s.cur (0 : Fin 2) = some (0 : Fin 2) :=
    ⟨_, rfl, rfl, rfl⟩
  have hgone := hfrees twoCpus s _ twoCpus_start (freeRun_of_runActions hs) 1 (.inl hpc)
  exact hgone.2.2.1 0 hcur

/-- In a run in which the joiner sees the state of the exiting thread only where
no other CPU runs that thread or is still to finish a switch away from it, the
joiner resets and frees a thread that is off its run queue and off its CPU, and
no step that can follow touches its control block or its stack. -/
theorem join_frees_gone {actions : List (JoinAction C T)} (hstart : start.Start e)
    (hrun : Run (joinStep e) (JoinCareful e) start actions s)
    (hfrees : s.pc t = .joinStop ∨ s.pc t = .joined) :
    s.onRq e = false ∧ s.onCpu e = false ∧ (∀ c, s.cur c ≠ some e) ∧
      ∀ action, s.Touches e action → joinStep e s action = none := by
  have hinv : JoinInv e s :=
    hrun.invariant (fun _ _ _ hinv hcareful hstep => hinv.step hcareful hstep) hstart.inv
  have hgone : s.Gone e := by
    apply hinv.passed t
    rcases hfrees with hpc | hpc
    · rw [hpc]
      rfl
    · rw [hpc]
      rfl
  exact ⟨hgone.offQueue, hinv.offCpu hgone, hgone.notCurrent,
    fun _ htouches => hgone.untouched htouches⟩

/-- The joiner waits on the other CPU until the switch is finished. -/
theorem join_frees_gone_finished :
    ∃ s : JoinWorld (Fin 2) (Fin 2), Run (joinStep 0) (JoinCareful 0) twoCpus
        [.exit 0, .run 0, .run 0, .run 0, .run 0, .run 0, .schedule 0 none,
          .finish 0, .finish 0, .join 1, .run 1, .run 1, .run 1] s ∧
      s.pc 1 = .joinStop ∧ s.onRq 0 = false ∧ s.onCpu 0 = false := by
  obtain ⟨s, hs, hpc⟩ :
      ∃ s, runActionsIf (joinStep 0) (JoinCareful 0) twoCpus
          [.exit 0, .run 0, .run 0, .run 0, .run 0, .run 0, .schedule 0 none,
            .finish 0, .finish 0, .join 1, .run 1, .run 1, .run 1] = some s ∧
        s.pc (1 : Fin 2) = .joinStop :=
    ⟨_, rfl, rfl⟩
  have hrun := run_of_runActionsIf hs
  have hgone := join_frees_gone twoCpus_start hrun (.inl hpc)
  exact ⟨s, hrun, hpc, hgone.1, hgone.2.1⟩

end Soda.Storpu
