import Soda.HostIf.CommandService

/-!
# StorPU tasks and the workers that wait for StorPU

A worker that processes a StorPU invocation is blocked until the invoked
function returns, and that function may be waiting for a task of its own.  If
the task is put into the slot of this very worker, neither ever goes on.  When
no worker is idle the main loop puts tasks into the first empty slot without
looking at what its worker waits for, and this file says exactly which runs
get stuck in this way.
-/

namespace Soda

open Function NvmeState WorkerPc

namespace NvmeState

open List Finset Option

variable {s : NvmeState} {nrWorkers : ℕ}

/-- The worker waits for an invocation and has a task of it in its slot. -/
def StuckAt (s : NvmeState) (w : Tid) : Prop :=
  ∃ task qid sqe, (s.slot w).valid = true ∧ (s.slot w).storpuTask = some task ∧
    s.pc w = .process (.nvme qid sqe) ∧ sqe.invoke = true ∧ task.issuer = some sqe.arrival

def Stuck (nrWorkers : ℕ) (s : NvmeState) : Prop := ∃ w < nrWorkers, s.StuckAt w

/-- Some worker is idle and has an empty slot, or the first worker with an
empty slot does not wait for the invocation that the next task comes from. -/
def FallbackClear (nrWorkers : ℕ) (s : NvmeState) : Prop :=
  (∃ w < nrWorkers, s.workerIdle w = true ∧ s.slotEmpty w = true) ∨
    ∀ task rest, s.ftlAvail = task :: rest → ∀ w < nrWorkers, s.slotEmpty w = true →
        (∀ v < w, s.slotEmpty v = false) →
        ∀ qid sqe, s.pc w = .process (.nvme qid sqe) → sqe.invoke = true →
          task.issuer ≠ some sqe.arrival

def Careful (nrWorkers : ℕ) (s : NvmeState) (action : NvmeAction) : Prop :=
  action = .dispatchStorpu → s.FallbackClear nrWorkers

/-! ### What a step of a worker does -/

structure WorkerEffect (w : Tid) (s s' : NvmeState) : Prop where
  avail : ∀ task ∈ s'.ftlAvail, task ∈ s.ftlAvail
  /-- A worker never fills its own slot. -/
  slot : (s'.slot w).valid = true → s'.slot w = s.slot w
  idle : s'.workerIdle w = true → (∃ woken, s'.pc w = .asleep woken) ∨
      s.workerIdle w = true ∧ ∀ woken, s.pc w ≠ .asleep woken
  idleOther : ∀ other, other ≠ w → s'.workerIdle other = s.workerIdle other
  started : s'.started = s.started ∧ (∀ work, s'.pc w ≠ .process work) ∨
    ∃ work, (s.pc w = .body (some work) ∨ s.pc w = .shutdown (some work)) ∧
      s'.pc w = .process work ∧ s'.started = work.arrival :: s.started
  completed : ∀ work, work ∈ s.completed ∨ s.pc w = .process work → work ∈ s'.completed

variable {w v : Tid} {before s' : NvmeState} {work : Work}

theorem WorkerMove.effect (hmove : WorkerMove w s s') : WorkerEffect w s s' := by
  cases hmove with
  | goto haside hhands hpc hidle hprocess hbegins =>
    refine ⟨?_, fun _ => congrFun haside.slot w, ?_, haside.idle, ?_, ?_⟩
    · intro task htask
      rw [← haside.avail]
      exact htask
    · intro hset
      rw [pc_setPc]
      exact hidle hset
    · rw [pc_setPc]
      exact hbegins
    · intro work hwork
      rw [completed, setPc, haside.completions]
      exact hwork.resolve_right (hprocess work)
  | take hhands hvalid hawake =>
    refine ⟨fun _ htask => htask, ?_, fun hset => .inr ⟨hset, hawake⟩,
      fun _ _ => rfl, .inl ⟨rfl, ?_⟩, ?_⟩
    · intro hset
      simp [takeSlot, setPc] at hset
    · intro work
      simp [takeSlot, setPc]
    · intro work hwork
      apply hwork.resolve_right
      intro hprocess
      simp [hprocess, hands] at hhands
  | pop hpc hempty hvalid hnext hincoming havail =>
    refine ⟨havail, ?_, ?_, ?_, ?_, ?_⟩ <;> rw [hnext]
    · exact fun _ => rfl
    · exact fun hset => .inr ⟨hset, by simp [hpc]⟩
    · exact fun _ _ => rfl
    · exact .inl ⟨rfl, by simp [setPc]⟩
    · exact fun work hwork => hwork.resolve_right (by simp [hpc])
  | finish hpc =>
    refine ⟨fun _ htask => htask, fun _ => rfl,
      fun hset => .inr ⟨hset, by simp [hpc]⟩, fun _ _ => rfl, .inl ⟨rfl, by simp [setPc]⟩, ?_⟩
    intro other hother
    cases hother with
    | inl hdone => exact .tail _ hdone
    | inr hprocess =>
      obtain rfl := process.inj (hpc.symm.trans hprocess)
      exact mem_cons_self

/-! ### Which invocations have begun -/

structure DispatchInv (nrWorkers : ℕ) (s : NvmeState) : Prop where
  inv : s.Inv nrWorkers
  idle : ∀ w, s.workerIdle w = true → ∃ woken, s.pc w = .asleep woken
  queued : ∀ task ∈ s.ftlAvail, ∀ command ∈ task.issuer, command ∈ s.started
  slotted : ∀ w task, (s.slot w).valid = true →
    (s.slot w).storpuTask = some task → ∀ command ∈ task.issuer, command ∈ s.started
  /-- What has begun is completed or still being processed. -/
  begun : ∀ command ∈ s.started, ∃ work, work.arrival = command ∧
    (work ∈ s.completed ∨ ∃ w < nrWorkers, s.pc w = .process work)

theorem dispatchInv_init : init.DispatchInv nrWorkers where
  inv := inv_init
  idle := fun _ hidle => nomatch hidle
  queued := fun _ htask => absurd htask not_mem_nil
  slotted := fun _ _ hvalid => nomatch hvalid
  begun := fun _ hcommand => absurd hcommand not_mem_nil

theorem Inv.mem_taken_of_held (hinv : s.Inv nrWorkers) (hw : w < nrWorkers)
    (hheld : work ∈ s.held w) : work ∈ s.taken := by
  have hsum : (s.held w).count work ≤ ∑ other ∈ range nrWorkers, (s.held other).count work :=
    single_le_sum (f := fun other => (s.held other).count work)
      (fun _ _ => Nat.zero_le _) (Finset.mem_range.mpr hw)
  have hpos := count_pos_iff.mpr hheld
  have hbalanced := hinv.balanced work
  rw [copies] at hbalanced
  apply count_pos_iff.mp
  omega

theorem Inv.mem_taken_of_completed (hinv : s.Inv nrWorkers)
    (hdone : work ∈ s.completed) : work ∈ s.taken := by
  have hpos := count_pos_iff.mpr hdone
  have hbalanced := hinv.balanced work
  rw [copies] at hbalanced
  apply count_pos_iff.mp
  omega

theorem Inv.eq_of_arrival_eq {first second : Work} (hinv : s.Inv nrWorkers)
    (hfirst : first ∈ s.taken) (hsecond : second ∈ s.taken)
    (heq : first.arrival = second.arrival) : first = second :=
  inj_on_of_nodup_map hinv.distinct.nodup (mem_append_left _ hfirst) (mem_append_left _ hsecond) heq

/-- What a worker holds is neither completed nor held by another. -/
theorem Inv.held_unique (hinv : s.Inv nrWorkers) (hw : w < nrWorkers) (hheld : work ∈ s.held w) :
    work ∉ s.completed ∧ ∀ other < nrWorkers, work ∈ s.held other → other = w := by
  have hone := hinv.copies_eq_one (hinv.mem_taken_of_held hw hheld)
  have hsplit : (s.held w).count work +
        ∑ v ∈ (Finset.range nrWorkers).erase w, (s.held v).count work =
      ∑ v ∈ range nrWorkers, (s.held v).count work :=
    add_sum_erase (range nrWorkers) (fun v => (s.held v).count work) (Finset.mem_range.mpr hw)
  rw [copies, ← hsplit] at hone
  have hpos := count_pos_iff.mpr hheld
  constructor
  · intro hdone
    have hdonePos := count_pos_iff.mpr hdone
    omega
  · intro other hother hotherHeld
    by_contra hne
    have hmem : other ∈ (Finset.range nrWorkers).erase w :=
      Finset.mem_erase.mpr ⟨hne, Finset.mem_range.mpr hother⟩
    have hle : (s.held other).count work ≤
        ∑ v ∈ (Finset.range nrWorkers).erase w, (s.held v).count work :=
      single_le_sum (f := fun v => (s.held v).count work) (fun _ _ => Nat.zero_le _) hmem
    have hotherPos := count_pos_iff.mpr hotherHeld
    omega

/-- A worker that is about to begin a command is the first to do so. -/
theorem DispatchInv.not_started (hinv : s.DispatchInv nrWorkers) (hw : w < nrWorkers)
    (hpc : s.pc w = .body (some work) ∨ s.pc w = .shutdown (some work)) :
    work.arrival ∉ s.started := by
  intro hstarted
  have hheld : work ∈ s.held w := by
    rw [mem_held]
    right
    cases hpc with
    | inl hbody => simp [hbody, hands]
    | inr hshutdown => simp [hshutdown, hands]
  have hunique := hinv.inv.held_unique hw hheld
  have htaken := hinv.inv.mem_taken_of_held hw hheld
  obtain ⟨other, harrival, hwhere⟩ := hinv.begun _ hstarted
  cases hwhere with
  | inl hdone =>
    have heq := hinv.inv.eq_of_arrival_eq (hinv.inv.mem_taken_of_completed hdone) htaken harrival
    rw [heq] at hdone
    exact hunique.1 hdone
  | inr hprocess =>
    obtain ⟨v, hv, hvpc⟩ := hprocess
    have hotherHeld : other ∈ s.held v := by
      rw [mem_held, hvpc]
      exact .inr (List.mem_singleton_self _)
    have heq := hinv.inv.eq_of_arrival_eq (hinv.inv.mem_taken_of_held hv hotherHeld) htaken harrival
    rw [heq] at hotherHeld
    rw [hunique.2 v hv hotherHeld] at hvpc
    cases hpc with
    | inl hbody => exact WorkerPc.noConfusion (hvpc.symm.trans hbody)
    | inr hshutdown => exact WorkerPc.noConfusion (hvpc.symm.trans hshutdown)

/-! ### Which worker gets a task -/

theorem chooseWorker_fallback (hchoose : s.chooseWorker nrWorkers = some w)
    (hidle : s.workerIdle w = false) :
    (∀ v < nrWorkers, s.workerIdle v = true → s.slotEmpty v = false) ∧
      ∀ v < w, s.slotEmpty v = false := by
  rw [chooseWorker] at hchoose
  split at hchoose
  · next v hfound =>
    cases hchoose
    have hbits := find?_some hfound
    rw [hidle] at hbits
    cases hbits
  · next hnone =>
    constructor
    · intro v hv hvidle
      have hbits := List.find?_eq_none.mp hnone v (List.mem_range.mpr hv)
      rw [hvidle, Bool.true_and] at hbits
      exact Bool.eq_false_of_not_eq_true hbits
    · intro v hv
      have hfirst := (find?_range_eq_some.mp hchoose).2.2 v hv
      exact Bool.not_eq_true' _ ▸ hfirst

theorem pc_wake_eq_process : (s.wake w).pc v = .process work ↔ s.pc v = .process work := by
  by_cases hv : v = w
  · rw [hv, wake_eq_setPc, pc_setPc, WorkerPc.wake]
    split
    · next hasleep =>
      rw [hasleep]
      simp
    · exact Iff.rfl
  · rw [(frame_wake w).pc v hv]

theorem pc_wake_asleep {woken : Bool} (hasleep : s.pc v = .asleep woken) :
    ∃ woken', (s.wake w).pc v = .asleep woken' := by
  by_cases hv : v = w
  · rw [← hv, wake_eq_setPc, pc_setPc, WorkerPc.wake]
    split
    · exact ⟨true, rfl⟩
    · exact ⟨woken, hasleep⟩
  · rw [(frame_wake w).pc v hv]
    exact ⟨woken, hasleep⟩

theorem slot_wake (w : Tid) : (s.wake w).slot = s.slot := by
  rw [wake_eq_setPc, setPc]

/-- A wake-up gets nobody stuck. -/
theorem stuckAt_wake : (s.wake w).StuckAt v ↔ s.StuckAt v := by
  simp only [StuckAt, slot_wake, pc_wake_eq_process]

variable {fill : CommandSlot → CommandSlot} {action : NvmeAction}

theorem stuckAt_dispatchTo_of_ne (hv : v ≠ w) : (s.dispatchTo fill w).StuckAt v ↔ s.StuckAt v := by
  rw [dispatchTo, stuckAt_wake]
  simp only [StuckAt, update_of_ne hv]

theorem stuckAt_dispatchTo :
    (s.dispatchTo fill w).StuckAt w ↔ ∃ task qid sqe, (fill (s.slot w)).storpuTask = some task ∧
        s.pc w = .process (.nvme qid sqe) ∧ sqe.invoke = true ∧ task.issuer = some sqe.arrival := by
  rw [dispatchTo, stuckAt_wake]
  simp only [StuckAt, update_self, true_and]

/-! ### The steps -/

/-- A wake-up changes nothing else. -/
theorem wake_fields (w : Tid) :
    (s.wake w).ftlAvail = s.ftlAvail ∧ (s.wake w).workerIdle = s.workerIdle ∧
      (s.wake w).started = s.started := by
  rw [wake_eq_setPc]
  exact ⟨rfl, rfl, rfl⟩

theorem DispatchInv.wake (hinv : (before.wake w).Inv nrWorkers)
    (hidle : ∀ w, before.workerIdle w = true → ∃ woken, before.pc w = .asleep woken)
    (hqueued : ∀ task ∈ before.ftlAvail, ∀ command ∈ task.issuer, command ∈ before.started)
    (hslotted : ∀ w task, (before.slot w).valid = true →
      (before.slot w).storpuTask = some task → ∀ command ∈ task.issuer, command ∈ before.started)
    (hbegun : ∀ command ∈ before.started, ∃ work, work.arrival = command ∧
      (work ∈ before.completed ∨ ∃ w < nrWorkers, before.pc w = .process work)) :
    (before.wake w).DispatchInv nrWorkers := by
  obtain ⟨havail, hbits, hstarted⟩ := wake_fields (s := before) w
  refine ⟨hinv, ?_, ?_, ?_, ?_⟩
  · intro v hv
    rw [hbits] at hv
    obtain ⟨woken, hasleep⟩ := hidle v hv
    exact pc_wake_asleep hasleep
  · rw [havail, hstarted]
    exact hqueued
  · rw [slot_wake, hstarted]
    exact hslotted
  · intro command hcommand
    rw [hstarted] at hcommand
    obtain ⟨work, harrival, hwhere⟩ := hbegun command hcommand
    refine ⟨work, harrival, ?_⟩
    simp only [completed, completions_wake, pc_wake_eq_process]
    exact hwhere

variable (hinv : s.DispatchInv nrWorkers)
include hinv

theorem DispatchInv.dispatch
    (hstep : s.dispatch nrWorkers = some s') : s'.DispatchInv nrWorkers := by
  have hafter := hinv.inv.dispatch hstep
  rw [NvmeState.dispatch] at hstep
  split at hstep
  · next w hfifo hchoose =>
    obtain ⟨-, rfl⟩ := unless_some hstep
    apply DispatchInv.wake hafter hinv.idle hinv.queued _ hinv.begun
    intro v task hvalid htask
    by_cases hv : v = w
    · rw [hv] at htask
      simp at htask
    · simp only [update_of_ne hv] at hvalid htask
      exact hinv.slotted v task hvalid htask
  · cases hstep

theorem DispatchInv.dispatchStorpu
    (hstep : s.dispatchStorpu nrWorkers = some s') : s'.DispatchInv nrWorkers := by
  have hafter := hinv.inv.dispatchStorpu hstep
  rw [NvmeState.dispatchStorpu] at hstep
  split at hstep
  · next first rest w havail hchoose =>
    obtain ⟨-, rfl⟩ := unless_some hstep
    have hqueued := hinv.queued
    rw [havail] at hqueued
    apply DispatchInv.wake hafter hinv.idle _ _ hinv.begun
    · intro task htask
      exact hqueued task (.tail _ htask)
    · intro v task hvalid htask
      by_cases hv : v = w
      · rw [hv] at htask
        simp only [update_self, some.injEq] at htask
        rw [← htask]
        exact hqueued first mem_cons_self
      · simp only [update_of_ne hv] at hvalid htask
        exact hinv.slotted v task hvalid htask
  · cases hstep

theorem DispatchInv.workerStep
    (hw : w < nrWorkers) (hstep : s.workerStep w = some s') : s'.DispatchInv nrWorkers := by
  have hmove := workerStep_move (hinv.inv.localInv w) hstep
  have hframe := hmove.frame
  have heffect := hmove.effect
  have hmore : ∀ command ∈ s.started, command ∈ s'.started := by
    intro command hcommand
    cases heffect.started with
    | inl hsame =>
      rw [hsame.1]
      exact hcommand
    | inr hbegins =>
      obtain ⟨work, _, _, hstarted⟩ := hbegins
      rw [hstarted]
      exact .tail _ hcommand
  refine ⟨hinv.inv.workerStep hw hstep, ?_, ?_, ?_, ?_⟩
  · intro v hv
    by_cases heq : v = w
    · rw [heq] at hv ⊢
      cases heffect.idle hv with
      | inl hasleep => exact hasleep
      | inr hawake =>
        obtain ⟨woken, hasleep⟩ := hinv.idle w hawake.1
        exact absurd hasleep (hawake.2 woken)
    · rw [heffect.idleOther v heq] at hv
      rw [hframe.pc v heq]
      exact hinv.idle v hv
  · intro task htask command hcommand
    exact hmore command (hinv.queued task (heffect.avail task htask) command hcommand)
  · intro v task hvalid htask command hcommand
    have hslot : s'.slot v = s.slot v := by
      by_cases heq : v = w
      · rw [heq] at hvalid ⊢
        exact heffect.slot hvalid
      · exact hframe.slot v heq
    rw [hslot] at hvalid htask
    exact hmore command (hinv.slotted v task hvalid htask command hcommand)
  · have hold : ∀ command ∈ s.started, ∃ work, work.arrival = command ∧
        (work ∈ s'.completed ∨ ∃ w < nrWorkers, s'.pc w = .process work) := by
      intro command hcommand
      obtain ⟨work, harrival, hwhere⟩ := hinv.begun command hcommand
      refine ⟨work, harrival, ?_⟩
      cases hwhere with
      | inl hdone => exact .inl (heffect.completed work (.inl hdone))
      | inr hprocess =>
        obtain ⟨v, hv, hvpc⟩ := hprocess
        by_cases heq : v = w
        · rw [heq] at hvpc
          exact .inl (heffect.completed work (.inr hvpc))
        · exact .inr ⟨v, hv, (hframe.pc v heq).trans hvpc⟩
    intro command hcommand
    cases heffect.started with
    | inl hsame =>
      rw [hsame.1] at hcommand
      exact hold command hcommand
    | inr hbegins =>
      obtain ⟨work, _, hprocess, hstarted⟩ := hbegins
      rw [hstarted] at hcommand
      cases mem_cons.mp hcommand with
      | inl hnew => exact ⟨work, hnew.symm, .inr ⟨w, hw, hprocess⟩⟩
      | inr hbefore => exact hold command hbefore

theorem DispatchInv.nvmeStep
    (hstep : nvmeStep nrWorkers s action = some s') : s'.DispatchInv nrWorkers := by
  have hafter := hinv.inv.nvmeStep hstep
  cases action with
  | submit qid commandId invoke =>
    cases hstep
    exact ⟨hafter, hinv.idle, hinv.queued, hinv.slotted, hinv.begun⟩
  | issue issuer srcCpu =>
    obtain ⟨hissuer, rfl⟩ := guard_some hstep
    refine ⟨hafter, hinv.idle, ?_, hinv.slotted, hinv.begun⟩
    intro task htask
    cases mem_cons.mp htask with
    | inl hnew =>
      rw [hnew]
      exact hissuer
    | inr hbefore => exact hinv.queued task hbefore
  | dispatch => exact hinv.dispatch hstep
  | dispatchStorpu => exact hinv.dispatchStorpu hstep
  | requestShutdown =>
    cases hstep
    exact DispatchInv.wake hafter hinv.idle hinv.queued hinv.slotted hinv.begun
  | work w =>
    rw [Soda.nvmeStep] at hstep
    split at hstep
    · next hw => exact hinv.workerStep hw hstep
    · cases hstep

variable (hfree : ¬ s.Stuck nrWorkers)
include hfree

/-- A worker does not get itself stuck: the tasks in its slot come from
invocations that had begun before its own. -/
theorem DispatchInv.not_stuck_workerStep (hw : w < nrWorkers)
    (hstep : s.workerStep w = some s') : ¬ s'.Stuck nrWorkers := by
  have hmove := workerStep_move (hinv.inv.localInv w) hstep
  have hframe := hmove.frame
  have heffect := hmove.effect
  rintro ⟨v, hv, task, qid, sqe, hvalid, htask, hpc, hinvoke, hissuer⟩
  by_cases heq : v = w
  · rw [heq] at hvalid htask hpc
    have hslot := heffect.slot hvalid
    rw [hslot] at hvalid htask
    cases heffect.started with
    | inl hsame => exact hsame.2 _ hpc
    | inr hbegins =>
      obtain ⟨work, hbefore, hprocess, _⟩ := hbegins
      obtain rfl := process.inj (hprocess.symm.trans hpc)
      apply hinv.not_started hw hbefore
      exact hinv.slotted w task hvalid htask _ hissuer
  · rw [hframe.slot v heq] at hvalid htask
    rw [hframe.pc v heq] at hpc
    exact hfree ⟨v, hv, task, qid, sqe, hvalid, htask, hpc, hinvoke, hissuer⟩

omit hinv in
theorem not_stuck_dispatch (hstep : s.dispatch nrWorkers = some s') : ¬ s'.Stuck nrWorkers := by
  rw [dispatch] at hstep
  split at hstep
  · next w _ _ =>
    obtain ⟨-, rfl⟩ := unless_some hstep
    rintro ⟨v, hv, hstuck⟩
    by_cases heq : v = w
    · rw [heq, stuckAt_dispatchTo] at hstuck
      obtain ⟨task, _, _, htask, _⟩ := hstuck
      cases htask
    · rw [stuckAt_dispatchTo_of_ne heq] at hstuck
      exact hfree ⟨v, hv, hstuck⟩
  · cases hstep

/-- The main loop gets a worker stuck exactly when its fallback hits the
worker that waits for the task. -/
theorem DispatchInv.stuck_dispatchStorpu (hstep : s.dispatchStorpu nrWorkers = some s') :
    s.FallbackClear nrWorkers ↔ ¬ s'.Stuck nrWorkers := by
  rw [NvmeState.dispatchStorpu] at hstep
  split at hstep
  · next first rest w havail hchoose =>
    obtain ⟨-, rfl⟩ := unless_some hstep
    obtain ⟨hw, hempty⟩ := chooseWorker_spec hchoose
    constructor
    · rintro hclear ⟨v, hv, hstuck⟩
      by_cases heq : v = w
      · rw [heq, stuckAt_dispatchTo] at hstuck
        obtain ⟨task, qid, sqe, htask, hpc, hinvoke, hissuer⟩ := hstuck
        have hbusy : s.workerIdle w = false := by
          by_contra hidle
          obtain ⟨woken, hasleep⟩ := hinv.idle w (Bool.eq_true_of_not_eq_false hidle)
          exact WorkerPc.noConfusion (hasleep.symm.trans hpc)
        obtain ⟨hnone, hfirst⟩ := chooseWorker_fallback hchoose hbusy
        cases hclear with
        | inl hother =>
          obtain ⟨u, hu, huidle, huempty⟩ := hother
          rw [hnone u hu huidle] at huempty
          cases huempty
        | inr hapart =>
          cases htask
          exact hapart _ _ havail w hw hempty hfirst qid sqe hpc hinvoke hissuer
      · rw [stuckAt_dispatchTo_of_ne heq] at hstuck
        exact hfree ⟨v, hv, hstuck⟩
    · intro hafter
      by_cases hidle : s.workerIdle w = true
      · exact .inl ⟨w, hw, hidle, hempty⟩
      · right
        intro task rest' havail' v hv hvempty hvfirst qid sqe hpc hinvoke hissuer
        have hbusy := Bool.eq_false_of_not_eq_true hidle
        obtain ⟨_, hfirst⟩ := chooseWorker_fallback hchoose hbusy
        have heq : v = w := by
          rcases lt_trichotomy v w with hlt | heq | hgt
          · rw [hfirst v hlt] at hvempty
            cases hvempty
          · exact heq
          · rw [hvfirst w hgt] at hempty
            cases hempty
        obtain ⟨rfl, _⟩ := cons.inj (havail.symm.trans havail')
        apply hafter
        refine ⟨w, hw, stuckAt_dispatchTo.mpr ?_⟩
        rw [heq] at hpc
        exact ⟨first, qid, sqe, rfl, hpc, hinvoke, hissuer⟩
  · cases hstep

theorem DispatchInv.careful_iff (hstep : Soda.nvmeStep nrWorkers s action = some s') :
    s.Careful nrWorkers action ↔ ¬ s'.Stuck nrWorkers := by
  cases action with
  | dispatchStorpu =>
    rw [← hinv.stuck_dispatchStorpu hfree hstep]
    exact ⟨fun hcareful => hcareful rfl, fun hclear _ => hclear⟩
  | submit qid commandId invoke =>
    cases hstep
    exact iff_of_true (by simp [Careful]) hfree
  | issue issuer srcCpu =>
    obtain ⟨-, rfl⟩ := guard_some hstep
    exact iff_of_true (by simp [Careful]) hfree
  | dispatch => exact iff_of_true (by simp [Careful]) (not_stuck_dispatch hfree hstep)
  | requestShutdown =>
    cases hstep
    apply iff_of_true (by simp [Careful])
    rintro ⟨v, hv, hstuck⟩
    rw [stuckAt_wake] at hstuck
    exact hfree ⟨v, hv, hstuck⟩
  | work w =>
    rw [Soda.nvmeStep] at hstep
    split at hstep
    · next hw =>
      exact iff_of_true (by simp [Careful]) (hinv.not_stuck_workerStep hfree hw hstep)
    · cases hstep

end NvmeState

/-- A run passes through no state with a worker stuck exactly if each of its
steps is careful. -/
theorem nvmeRun_careful_iff (nrWorkers : ℕ) (actions : List NvmeAction) (s : NvmeState)
    (hrun : FreeRun (nvmeStep nrWorkers) init actions s) :
    Run (nvmeStep nrWorkers) (NvmeState.Careful nrWorkers) init actions s ↔
      Always (nvmeStep nrWorkers) (fun state => ¬ state.Stuck nrWorkers) init actions := by
  have hinv : ∀ before action next, before.DispatchInv nrWorkers →
      nvmeStep nrWorkers before action = some next → next.DispatchInv nrWorkers :=
    fun _ _ _ hbefore hstep => hbefore.nvmeStep hstep
  apply hrun.meets_iff_always hinv
  · intro before action next hbefore hfree hstep
    exact hbefore.careful_iff hfree hstep
  · exact dispatchInv_init
  · rintro ⟨w, _, _, _, _, hvalid, _⟩
    cases hvalid

/-- The task of an invocation finds the second worker asleep. -/
theorem nvmeRun_careful_iff_bench :
    Always (nvmeStep 2) (fun state => ¬ state.Stuck 2) init
      [.submit 1 0 true, .work 0, .work 0, .work 0, .work 0, .work 0, .work 1,
        .work 1, .work 1, .issue (some 0) 1, .dispatchStorpu] := by
  refine (nvmeRun_careful_iff 2 _ _ (freeRun_of_runActions rfl)).mp ?_
  refine .cons nofun rfl (.cons nofun rfl (.cons nofun rfl (.cons nofun rfl
    (.cons nofun rfl (.cons nofun rfl (.cons nofun rfl (.cons nofun rfl
      (.cons nofun rfl (.cons nofun rfl (.cons ?_ rfl (.nil _)))))))))))
  exact fun _ => .inl ⟨1, by decide, rfl, rfl⟩

section Deadlock

-- The run below has 98 steps.
set_option maxRecDepth 20000

/-- The first sixteen entries are invocations, and each worker takes one. -/
def invokeAll : List NvmeAction :=
  (List.range 16).flatMap fun w => .submit 1 w true :: List.replicate 5 (.work w)

/-- The task of the first invocation goes into the slot of the worker that
waits for it. -/
theorem not_nvmeRun_free : ¬ ∀ actions s, FreeRun (nvmeStep 16) init actions s → ¬ s.Stuck 16 := by
  intro hall
  apply hall (invokeAll ++ [.issue (some 0) 1, .dispatchStorpu]) _ (freeRun_of_runActions rfl)
  exact ⟨0, by decide, ⟨16, some 0, 1⟩, 1, ⟨0, 0, true⟩, rfl, rfl, rfl, rfl, rfl⟩

end Deadlock

end Soda
