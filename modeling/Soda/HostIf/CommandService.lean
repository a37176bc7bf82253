import Soda.HostIf.WorkerProtocol

/-!
# Every command is served once

Every step of the workers, of the main loop and of the interrupt handler keeps
the protocol.  A worker that holds an entry is never stuck, and its next steps
bring the entry to its completion, whatever the others do.
-/

namespace Soda

open List NvmeState WorkerPc

/-- A bound on the steps a worker has to make until an entry it holds is
completed, if no further shutdown request comes in. -/
def WorkerPc.stepsLeft (pc : WorkerPc) (must : Bool) (work : Work) : ℕ :=
  if work ∈ pc.hands then
    match pc with
    | .loop _ => 4
    | .body _ => 3
    | .shutdown _ => 2
    | _ => 1
  else
    match pc with
    | .asleep _ => 12
    | .process _ => if must then 12 else 7
    | .top => if must then 11 else 6
    | .woke => if must then 11 else 6
    | .loop _ => 10
    | .body _ => 9
    | .shutdown _ => 8
    | _ => 5

namespace WorkerPc

variable {must : Bool} {work : Work}

theorem stepsLeft_woke : woke.stepsLeft must work < (asleep true).stepsLeft must work := by
  cases must <;> simp [stepsLeft, hands]

variable {found : Option Work} {current : Work}

theorem stepsLeft_body : (body found).stepsLeft must work < (loop found).stepsLeft must work := by
  by_cases hfound : work ∈ found.toList <;> simp [stepsLeft, hands, hfound]

theorem stepsLeft_shutdown :
    (shutdown found).stepsLeft must work < (body found).stepsLeft must work := by
  by_cases hfound : work ∈ found.toList <;> simp [stepsLeft, hands, hfound]

theorem stepsLeft_process :
    (process current).stepsLeft false work < (shutdown (some current)).stepsLeft must work := by
  by_cases hcurrent : work = current <;> simp [stepsLeft, hands, hcurrent]

theorem stepsLeft_top (hcurrent : work ≠ current) :
    top.stepsLeft must work < (process current).stepsLeft must work := by
  cases must <;> simp [stepsLeft, hands, hcurrent]

end WorkerPc

namespace NvmeState

variable {s : NvmeState} {nrWorkers : ℕ}

/-! ### All steps -/

structure Inv (nrWorkers : ℕ) (s : NvmeState) : Prop where
  localInv : ∀ w, s.LocalInv w
  balanced : s.Balanced nrWorkers
  distinct : s.Distinct

theorem inv_init : init.Inv nrWorkers where
  localInv := fun _ => ⟨rfl, rfl⟩
  balanced := by
    intro work
    have hheld : ∀ w, init.held w = [] := fun _ => rfl
    have hcompleted : init.completed = [] := rfl
    have htaken : init.taken = [] := rfl
    simp [copies, hheld, hcompleted, htaken]
  distinct := ⟨nodup_nil, fun _ hwork => absurd hwork not_mem_nil⟩

variable {w : Tid} {work : Work} {s' : NvmeState}

variable (hinv : s.Inv nrWorkers)
include hinv

variable {before : NvmeState} {pc : WorkerPc}

theorem Inv.dispatchTo {fill : CommandSlot → CommandSlot}
    (hchoose : s.chooseWorker nrWorkers = some w)
    (hvalid : ¬ (s.slot w).valid = true) (hpc : before.pc = s.pc)
    (hslot : before.slot = s.slot) (hempty : before.slotEmpty = s.slotEmpty)
    (hreq : before.shutdownReq = s.shutdownReq) (hcompletions : before.completions = s.completions)
    (hfill : CommandSlot.work { fill (s.slot w) with valid := true } = work)
    (htaken : before.taken = work :: s.taken) (hincoming : before.incoming.Perm s.incoming)
    (harrivals : before.arrivals = s.arrivals) : (before.dispatchTo fill w).Inv nrWorkers := by
  obtain ⟨hw, hbit⟩ := chooseWorker_spec hchoose
  have hsame : Frame w s before := by
    refine ⟨fun _ _ => congrFun hpc _, fun _ _ => congrFun hslot _,
      fun _ _ => congrFun hempty _, ?_⟩
    intro other _
    rw [mustShutDown, mustShutDown, hreq]
  have hframe : Frame w s (before.dispatchTo fill w) := hsame.trans (frame_dispatchTo fill w)
  have hlocal : before.LocalInv w := by
    rw [LocalInv, hpc, hslot, hempty, mustShutDown, hreq]
    exact hinv.localInv w
  constructor
  · apply hframe.localInv hinv.localInv
    apply localInv_dispatchTo hlocal
    rw [hempty]
    exact hbit
  · exact hinv.balanced.frame hframe hw
      (moves_dispatchTo hvalid hslot hpc hcompletions hfill htaken)
  · apply hinv.distinct.perm
    · rw [NvmeState.dispatchTo, incoming_wake]
      exact hincoming
    · rw [NvmeState.dispatchTo, arrivals_wake]
      exact harrivals

theorem Inv.dispatch (hstep : s.dispatch nrWorkers = some s') : s'.Inv nrWorkers := by
  rw [NvmeState.dispatch] at hstep
  split at hstep
  · next hfifo hchoose =>
    obtain ⟨hvalid, rfl⟩ := unless_some hstep
    exact hinv.dispatchTo hchoose hvalid rfl rfl rfl rfl rfl rfl rfl (incoming_popSqe hfifo) rfl
  · cases hstep

theorem Inv.dispatchStorpu (hstep : s.dispatchStorpu nrWorkers = some s') : s'.Inv nrWorkers := by
  rw [NvmeState.dispatchStorpu] at hstep
  split at hstep
  · next havail hchoose =>
    obtain ⟨hvalid, rfl⟩ := unless_some hstep
    exact hinv.dispatchTo hchoose hvalid rfl rfl rfl rfl rfl rfl rfl (incoming_popTask havail) rfl
  · cases hstep

theorem Inv.requestShutdown :
    (wake shutdownThread { s with shutdownReq := true }).Inv nrWorkers where
  localInv := localInv_requestShutdown hinv.localInv
  balanced := by
    intro work
    have hheld : ∀ w, (wake shutdownThread { s with shutdownReq := true }).held w = s.held w := by
      intro w
      by_cases hw : w = shutdownThread
      · rw [hw, held_wake]
        rfl
      · rw [(frame_wake shutdownThread).held hw]
        rfl
    rw [copies, completed, completions_wake, taken_wake]
    simp only [hheld]
    exact hinv.balanced work
  distinct := by
    apply hinv.distinct.perm
    · rw [incoming_wake]
      exact List.Perm.refl _
    · rw [arrivals_wake]

theorem Inv.workerStep (hw : w < nrWorkers)
    (hstep : s.workerStep w = some s') : s'.Inv nrWorkers := by
  have hmove := workerStep_move (hinv.localInv w) hstep
  constructor
  · exact hmove.frame.localInv hinv.localInv hmove.localInv
  · exact hinv.balanced.frame hmove.frame hw hmove.moves
  · exact hinv.distinct.perm hmove.incoming.1 hmove.incoming.2

theorem Inv.nvmeStep {action : NvmeAction}
    (hstep : nvmeStep nrWorkers s action = some s') : s'.Inv nrWorkers := by
  cases action with
  | submit qid commandId invoke =>
    cases hstep
    refine ⟨hinv.localInv, hinv.balanced, hinv.distinct.push
      (.nvme qid ⟨s.arrivals, commandId, invoke⟩) ?_ rfl rfl⟩
    rw [incoming, map_append, append_assoc, ← append_assoc,
      map_singleton, singleton_append, incoming, ← append_assoc]
    exact perm_middle
  | issue issuer srcCpu =>
    obtain ⟨-, rfl⟩ := guard_some hstep
    refine ⟨hinv.localInv, hinv.balanced, hinv.distinct.push
      (.storpu ⟨s.arrivals, issuer, srcCpu⟩) ?_ rfl rfl⟩
    rw [incoming, map_cons, ← append_assoc, incoming, ← append_assoc]
    exact perm_middle
  | dispatch => exact hinv.dispatch hstep
  | dispatchStorpu => exact hinv.dispatchStorpu hstep
  | requestShutdown =>
    cases hstep
    exact hinv.requestShutdown
  | work w =>
    rw [Soda.nvmeStep] at hstep
    split at hstep
    · next hw => exact hinv.workerStep hw hstep
    · cases hstep

omit hinv

theorem inv_of_freeRun {actions : List NvmeAction} {last : NvmeState}
    (hrun : FreeRun (Soda.nvmeStep nrWorkers) s actions last)
    (hinv : s.Inv nrWorkers) : last.Inv nrWorkers :=
  hrun.invariant (fun _ _ _ hbefore _ hstep => hbefore.nvmeStep hstep) hinv

/-! ### Progress -/

def stepsLeft (s : NvmeState) (w : Tid) (work : Work) : ℕ :=
  (s.pc w).stepsLeft (s.mustShutDown w) work

theorem mem_held :
    work ∈ s.held w ↔ ((s.slot w).valid = true ∧ work = (s.slot w).work) ∨
        work ∈ (s.pc w).hands := by
  rw [held, mem_append]
  split <;> simp_all

theorem stepsLeft_setPc :
    (s.setPc w pc).stepsLeft w work = pc.stepsLeft (s.mustShutDown w) work := by
  rw [stepsLeft, pc_setPc]
  rfl

/-- The worker keeps what it has and comes closer to its completion. -/
theorem closer_setPc {place : WorkerPc} {must : Bool} (hpc : s.pc w = place)
    (hslot : before.slot = s.slot) (hheld : work ∈ s.held w) (hhands : pc.hands = place.hands)
    (hmust : before.mustShutDown w = must)
    (hsteps : pc.stepsLeft must work < place.stepsLeft (s.mustShutDown w) work) :
    work ∈ (before.setPc w pc).held w ∧
      (before.setPc w pc).stepsLeft w work < s.stepsLeft w work := by
  subst hpc
  constructor
  · rw [held_setPc, hslot, hhands]
    exact hheld
  · rw [stepsLeft_setPc, stepsLeft, hmust]
    exact hsteps

theorem closer_takeSlot (hheld : work ∈ s.held w)
    (hvalid : (s.slot w).valid = true) (hhands : (s.pc w).hands = [])
    (hsteps : 4 < (s.pc w).stepsLeft (s.mustShutDown w) work) :
    work ∈ (s.takeSlot w).held w ∧ (s.takeSlot w).stepsLeft w work < s.stepsLeft w work := by
  have hwork : work = (s.slot w).work := by
    simpa [held, hvalid, hhands] using hheld
  constructor
  · rw [held_takeSlot, hwork]
    exact mem_singleton_self _
  · rw [takeSlot, stepsLeft_setPc, stepsLeft, ← hwork]
    simpa [WorkerPc.stepsLeft, WorkerPc.hands] using hsteps

/-- A worker that holds an entry is not stuck: its next step completes the
entry or brings it closer to its completion. -/
theorem workerStep_progress (hinv : s.LocalInv w) (hheld : work ∈ s.held w) :
    ∃ s', s.workerStep w = some s' ∧ (work ∈ s'.completed ∨
        work ∈ s'.held w ∧ s'.stepsLeft w work < s.stepsLeft w work) := by
  rw [LocalInv] at hinv
  have hslot : (s.pc w).hands = [] → (s.slot w).valid = true := by
    intro hhands
    by_contra hvalid
    simp [held, hvalid, hhands] at hheld
  rw [workerStep]
  obtain ⟨place, hpc⟩ : ∃ place, s.pc w = place := ⟨_, rfl⟩
  rw [hpc] at hinv hslot ⊢
  cases place with
  | unstarted =>
    have hvalid := hslot rfl
    rw [hinv.2] at hvalid
    cases hvalid
  | left | astray => exact hinv.elim
  | top | woke =>
    refine ⟨_, rfl, .inr ?_⟩
    refine closer_setPc hpc rfl hheld (by split <;> rfl) rfl ?_
    cases s.mustShutDown w with
    | false => exact Nat.lt_succ_self 5
    | true => exact Nat.lt_succ_self 10
  | pick =>
    refine ⟨_, rfl, .inr ?_⟩
    have hvalid := hslot rfl
    have hbit : s.slotEmpty w = false := by
      rw [show s.slotEmpty w = !(s.slot w).valid from hinv, hvalid]
      rfl
    rw [pick, if_pos hvalid, hbit]
    apply closer_takeSlot hheld hvalid (by rw [hpc]; rfl)
    rw [hpc]
    exact Nat.lt_succ_self 4
  | asleep woken =>
    cases woken with
    | false =>
      have hvalid := hslot rfl
      rw [hinv.2] at hvalid
      cases hvalid
    | true =>
      refine ⟨_, rfl, .inr ?_⟩
      refine closer_setPc hpc rfl hheld rfl rfl ?_
      exact stepsLeft_woke
  | fetch =>
    refine ⟨_, rfl, .inr ?_⟩
    rw [if_pos hinv.2]
    apply closer_takeSlot hheld hinv.2 (by rw [hpc]; rfl)
    rw [hpc]
    exact Nat.lt_succ_self 4
  | loop found =>
    refine ⟨_, rfl, .inr ?_⟩
    rw [if_pos hinv.2]
    refine closer_setPc hpc rfl hheld rfl rfl ?_
    exact stepsLeft_body
  | body found =>
    cases hmust : s.mustShutDown w with
    | true =>
      refine ⟨_, rfl, .inr ?_⟩
      refine closer_setPc hpc rfl hheld rfl rfl ?_
      exact stepsLeft_shutdown
    | false =>
      cases found with
      | none => simp [PcInv, hmust] at hinv
      | some current =>
        refine ⟨_, rfl, .inr ?_⟩
        refine closer_setPc hpc rfl hheld rfl hmust ?_
        exact stepsLeft_process.trans stepsLeft_shutdown
  | shutdown found =>
    cases found with
    | none =>
      refine ⟨_, rfl, .inr ?_⟩
      refine closer_setPc hpc rfl hheld rfl (Bool.false_and _) ?_
      exact Nat.lt_add_of_pos_right (n := 6) two_pos
    | some current =>
      refine ⟨_, rfl, .inr ?_⟩
      refine closer_setPc hpc rfl hheld rfl (Bool.false_and _) ?_
      exact stepsLeft_process
  | process current =>
    refine ⟨_, rfl, ?_⟩
    by_cases hcurrent : work = current
    · left
      rw [hcurrent]
      exact mem_cons_self
    · right
      constructor
      · rw [mem_held, hpc] at hheld
        rw [held_setPc, mem_append]
        simpa [hands, hcurrent] using hheld
      · rw [stepsLeft_setPc, stepsLeft, hpc]
        exact stepsLeft_top hcurrent

/-- The worker that holds an entry completes it on its own. -/
theorem Inv.completes (hinv : s.Inv nrWorkers) (hw : w < nrWorkers) (hheld : work ∈ s.held w) :
    ∃ steps last, runActions (Soda.nvmeStep nrWorkers) s
          (replicate steps (.work w)) = some last ∧ work ∈ last.completed := by
  -- The bound on the steps that are left decreases.
  generalize hbound : s.stepsLeft w work = bound
  induction bound using Nat.strong_induction_on generalizing s with
  | _ bound ih =>
    obtain ⟨next, hstep, hnext⟩ := workerStep_progress (hinv.localInv w) hheld
    have haction : Soda.nvmeStep nrWorkers s (.work w) = some next := by
      rw [Soda.nvmeStep, if_pos hw, hstep]
    cases hnext with
    | inl hdone =>
      refine ⟨1, next, ?_, hdone⟩
      rw [replicate_one, runActions, haction]
      rfl
    | inr hcloser =>
      rw [hbound] at hcloser
      obtain ⟨steps, last, hrun, hdone⟩ := ih _ hcloser.2 (hinv.workerStep hw hstep) hcloser.1 rfl
      refine ⟨steps + 1, last, ?_, hdone⟩
      rw [replicate_succ, runActions, haction]
      exact hrun

theorem count_taken_le_one (hdistinct : s.Distinct) (work : Work) : s.taken.count work ≤ 1 := by
  have htaken : (s.taken.map Work.arrival).Nodup :=
    List.Nodup.sublist ((sublist_append_left _ _).map Work.arrival) hdistinct.nodup
  exact nodup_iff_count_le_one.mp htaken.of_map work

variable (hinv : s.Inv nrWorkers)
include hinv

/-- An entry taken is in one place. -/
theorem Inv.copies_eq_one (hwork : work ∈ s.taken) : s.copies nrWorkers work = 1 := by
  rw [← hinv.balanced work]
  have hle := count_taken_le_one hinv.distinct work
  have hpos := count_pos_iff.mpr hwork
  omega

/-- An entry that has been taken and not completed is held by a worker. -/
theorem Inv.exists_held (hwork : work ∈ s.taken)
    (hnot : work ∉ s.completed) : ∃ w < nrWorkers, work ∈ s.held w := by
  have hcopies := hinv.copies_eq_one hwork
  rw [copies, count_eq_zero_of_not_mem hnot, zero_add] at hcopies
  by_contra hnone
  have hzero : ∑ w ∈ Finset.range nrWorkers, (s.held w).count work = 0 := by
    apply Finset.sum_eq_zero
    intro w hw
    apply count_eq_zero_of_not_mem
    intro hheld
    exact hnone ⟨w, Finset.mem_range.mp hw, hheld⟩
  omega

def BitsMatch (nrWorkers : ℕ) (s : NvmeState) : Prop :=
  ∀ w < nrWorkers, s.slotEmpty w = true ↔ (s.slot w).valid = false

/-- Every entry is served exactly once, no worker leaves its loop, and the
bits match the slots of the workers in their loops. -/
structure ServedOnce (nrWorkers : ℕ) (s : NvmeState) : Prop where
  stays : ∀ w, s.pc w ≠ .left ∧ s.pc w ≠ .astray
  started : ∀ w, s.pc w ≠ .unstarted → (s.slotEmpty w = true ↔ (s.slot w).valid = false)
  /-- A worker that has not begun is given nothing. -/
  unstarted : ∀ w, s.pc w = .unstarted → s.slotEmpty w = false ∧ (s.slot w).valid = false
  /-- The completions and the entries the workers hold together have each
  entry taken once, and no other entry. -/
  once : ∀ work, s.copies nrWorkers work = if work ∈ s.taken then 1 else 0
  /-- The one worker that holds an entry goes on to complete it. -/
  completes : ∀ work ∈ s.taken, work ∉ s.completed →
    ∃ w < nrWorkers, work ∈ s.held w ∧ ∃ steps last, runActions (Soda.nvmeStep nrWorkers) s
          (replicate steps (.work w)) = some last ∧ last.completed.count work = 1

theorem count_completed_eq_one (hwork : work ∈ s.completed) : s.completed.count work = 1 := by
  have hpos := count_pos_iff.mpr hwork
  have hle := count_taken_le_one hinv.distinct work
  have hbalanced := hinv.balanced work
  rw [copies] at hbalanced
  omega

theorem Inv.servedOnce : s.ServedOnce nrWorkers where
  stays := by
    intro w
    have hlocal := hinv.localInv w
    rw [LocalInv] at hlocal
    constructor
    · intro hleft
      rw [hleft] at hlocal
      exact hlocal
    · intro hastray
      rw [hastray] at hlocal
      exact hlocal
  started := by
    intro w hw
    rw [PcInv.bit (hinv.localInv w) hw]
    cases (s.slot w).valid <;> simp
  unstarted := by
    intro w hw
    have hlocal := hinv.localInv w
    rw [LocalInv, hw] at hlocal
    exact hlocal
  once := by
    intro work
    split
    · next hwork => exact hinv.copies_eq_one hwork
    · next hwork =>
      rw [← hinv.balanced work]
      exact count_eq_zero_of_not_mem hwork
  completes := by
    intro work hwork hnot
    obtain ⟨w, hw, hheld⟩ := hinv.exists_held hwork hnot
    obtain ⟨steps, last, hrun, hdone⟩ := hinv.completes hw hheld
    have hlast : last.Inv nrWorkers := inv_of_freeRun (freeRun_of_runActions hrun) hinv
    exact ⟨w, hw, hheld, steps, last, hrun, count_completed_eq_one hlast hdone⟩

end NvmeState

/-- Two entries and a shutdown request for two workers. -/
def nvmeBench : List NvmeAction :=
  [.submit 1 7 false, .work 0, .work 0, .work 0, .work 1, .submit 1 8 false,
    .requestShutdown, .dispatch, .work 0, .work 0, .work 0]

end Soda
