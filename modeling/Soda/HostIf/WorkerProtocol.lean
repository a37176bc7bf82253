import Soda.HostIf.Workers

/-!
# The protocol of the worker coroutines

What a worker may find in its slot is fixed by where it is (`PcInv`), and
every entry taken from a queue is at any time in one slot, in the hands of one
worker or completed (`Balanced`).  Both are kept by each step, and entries are
told apart by their arrival numbers (`Distinct`).
-/

namespace Soda

open Function List Finset Option Bool WorkerPc

def WorkerPc.hands : WorkerPc → List Work
  | loop found => found.toList
  | body found => found.toList
  | shutdown found => found.toList
  | process work => [work]
  | _ => []

def WorkerPc.wake (pc : WorkerPc) : WorkerPc :=
  if pc = .asleep false then .asleep true else pc

theorem WorkerPc.hands_wake (pc : WorkerPc) : pc.wake.hands = pc.hands := by
  rw [wake]
  split
  · next hasleep =>
    rw [hasleep]
    rfl
  · rfl

/-- What holds of a worker's slot-empty bit, of the valid flag of its slot and
of a shutdown request for it at each place.  `first` says that the worker is
the one that serves shutdown requests. -/
def PcInv (pc : WorkerPc) (empty valid must first : Bool) : Prop :=
  match pc with
  | .unstarted => empty = false ∧ valid = false
  | .top => empty = !valid
  | .pick => empty = !valid
  | .asleep false => empty = true ∧ valid = false
  | .asleep true => empty = !valid ∧ (valid || must) = true
  | .woke => empty = !valid ∧ (valid || must) = true
  | .fetch => empty = false ∧ valid = true
  | .loop found => empty = !valid ∧ (found.isSome || must) = true
  | .body found => empty = !valid ∧ (found.isSome || must) = true
  | .shutdown _ => empty = !valid ∧ first = true
  | .process _ => empty = !valid
  | .left => False
  | .astray => False

variable {pc : WorkerPc} {empty valid must first : Bool}

/-- A shutdown request breaks nothing. -/
theorem PcInv.request {more : Bool} (hinv : PcInv pc empty valid must first)
    (hmore : must = true → more = true) : PcInv pc empty valid more first := by
  have hor : ∀ known : Bool, (known || must) = true → (known || more) = true := by
    intro known hknown
    rw [or_eq_true] at hknown ⊢
    exact hknown.imp_right hmore
  cases pc with
  | asleep woken =>
    cases woken with
    | false => exact hinv
    | true => exact ⟨hinv.1, hor _ hinv.2⟩
  | woke | loop found | body found => exact ⟨hinv.1, hor _ hinv.2⟩
  | _ => exact hinv

/-- The bit of a worker that has begun matches its slot. -/
theorem PcInv.bit (hinv : PcInv pc empty valid must first)
    (hpc : pc ≠ .unstarted) : empty = !valid := by
  cases pc with
  | unstarted => exact absurd rfl hpc
  | top | pick | process work => exact hinv
  | asleep woken =>
    cases woken with
    | false => rw [hinv.1, hinv.2]; rfl
    | true => exact hinv.1
  | woke | loop found | body found | shutdown found => exact hinv.1
  | fetch => rw [hinv.1, hinv.2]; rfl
  | left | astray => exact hinv.elim

/-- A worker that is given work is woken, or finds it when it comes back. -/
theorem PcInv.fill (hinv : PcInv pc true valid must first) :
    PcInv pc.wake false true must first := by
  cases pc with
  | asleep woken =>
    cases woken with
    | false | true => exact ⟨rfl, rfl⟩
  | unstarted | fetch => simp [PcInv] at hinv
  | left | astray => exact hinv
  | top | pick | process work => rfl
  | woke => exact ⟨rfl, rfl⟩
  | loop found | body found | shutdown found => exact ⟨rfl, hinv.2⟩

theorem PcInv.wake (hinv : PcInv pc empty valid true first) :
    PcInv pc.wake empty valid true first := by
  rw [WorkerPc.wake]
  split
  · next hasleep =>
    rw [hasleep] at hinv
    exact ⟨by rw [hinv.1, hinv.2]; rfl, or_true _⟩
  · exact hinv

namespace NvmeState

variable {s : NvmeState} {nrWorkers : ℕ}

def LocalInv (s : NvmeState) (w : Tid) : Prop :=
  PcInv (s.pc w) (s.slotEmpty w) (s.slot w).valid (s.mustShutDown w) (w = shutdownThread)

/-- The entries a worker has, in its slot or in its hands. -/
def held (s : NvmeState) (w : Tid) : List Work :=
  (if (s.slot w).valid then [(s.slot w).work] else []) ++ (s.pc w).hands

def completed (s : NvmeState) : List Work := s.completions.map Prod.snd

def copies (nrWorkers : ℕ) (s : NvmeState) (work : Work) : ℕ :=
  s.completed.count work + ∑ w ∈ range nrWorkers, (s.held w).count work

def Balanced (nrWorkers : ℕ) (s : NvmeState) : Prop :=
  ∀ work, s.taken.count work = s.copies nrWorkers work

def incoming (s : NvmeState) : List Work :=
  s.taken ++ (s.fifo.map (fun item => Work.nvme item.1 item.2) ++ s.ftlAvail.map Work.storpu)

structure Distinct (s : NvmeState) : Prop where
  nodup : (s.incoming.map Work.arrival).Nodup
  lt : ∀ work ∈ s.incoming, work.arrival < s.arrivals

/-! ### The place of each worker -/

variable {w : Tid} {s' : NvmeState} {pc : WorkerPc} {fill : CommandSlot → CommandSlot}

theorem mustShutDown_of_ne (hw : w ≠ shutdownThread) : s.mustShutDown w = false := by
  simp [mustShutDown, hw]

structure Frame (w : Tid) (s s' : NvmeState) : Prop where
  pc : ∀ other, other ≠ w → s'.pc other = s.pc other
  slot : ∀ other, other ≠ w → s'.slot other = s.slot other
  slotEmpty : ∀ other, other ≠ w → s'.slotEmpty other = s.slotEmpty other
  mustShutDown : ∀ other, other ≠ w → s'.mustShutDown other = s.mustShutDown other

theorem Frame.localInv (hframe : Frame w s s') (hinv : ∀ w, s.LocalInv w)
    (hself : s'.LocalInv w) : ∀ w, s'.LocalInv w := by
  intro other
  by_cases hother : other = w
  · subst hother
    exact hself
  · rw [LocalInv, hframe.pc other hother, hframe.slot other hother,
      hframe.slotEmpty other hother, hframe.mustShutDown other hother]
    exact hinv other

theorem Frame.held (hframe : Frame w s s') {other : Tid} (hother : other ≠ w) :
    s'.held other = s.held other := by
  rw [NvmeState.held, NvmeState.held, hframe.pc other hother, hframe.slot other hother]

/-- Only one worker's share of the copies changes. -/
theorem Frame.copies (hframe : Frame w s s') (hw : w < nrWorkers) (work : Work) :
    s'.copies nrWorkers work + s.completed.count work + (s.held w).count work =
      s.copies nrWorkers work + s'.completed.count work + (s'.held w).count work := by
  have hmem : w ∈ Finset.range nrWorkers := Finset.mem_range.mpr hw
  have hrest : ∑ other ∈ (Finset.range nrWorkers).erase w, (s'.held other).count work =
      ∑ other ∈ (Finset.range nrWorkers).erase w, (s.held other).count work := by
    apply sum_congr rfl
    intro other hother
    rw [hframe.held (ne_of_mem_erase hother)]
  have hbefore := add_sum_erase (range nrWorkers) (fun other => (s.held other).count work) hmem
  have hafter := add_sum_erase (range nrWorkers) (fun other => (s'.held other).count work) hmem
  rw [NvmeState.copies, NvmeState.copies, ← hbefore, ← hafter]
  omega

theorem frame_setPc (w : Tid) (pc : WorkerPc) : Frame w s (s.setPc w pc) where
  pc := fun _ hother => update_of_ne hother _ _
  slot := fun _ _ => rfl
  slotEmpty := fun _ _ => rfl
  mustShutDown := fun _ _ => rfl

theorem Frame.trans {s'' : NvmeState} (hfirst : Frame w s s')
    (hsecond : Frame w s' s'') : Frame w s s'' where
  pc := fun other hother => (hsecond.pc other hother).trans (hfirst.pc other hother)
  slot := fun other hother => (hsecond.slot other hother).trans (hfirst.slot other hother)
  slotEmpty := fun other hother =>
    (hsecond.slotEmpty other hother).trans (hfirst.slotEmpty other hother)
  mustShutDown := fun other hother =>
    (hsecond.mustShutDown other hother).trans (hfirst.mustShutDown other hother)

theorem wake_eq_setPc (w : Tid) : s.wake w = s.setPc w (s.pc w).wake := by
  rw [wake, WorkerPc.wake]
  split
  · rfl
  · rw [setPc, update_eq_self]

theorem frame_wake (w : Tid) : Frame w s (s.wake w) := by
  rw [wake_eq_setPc]
  exact frame_setPc w _

theorem frame_dispatchTo (fill : CommandSlot → CommandSlot) (w : Tid) :
    Frame w s (s.dispatchTo fill w) := by
  apply Frame.trans _ (frame_wake w)
  exact ⟨fun _ _ => rfl, fun _ hother => update_of_ne hother _ _,
    fun _ hother => update_of_ne hother _ _, fun _ _ => rfl⟩

theorem frame_takeSlot (w : Tid) : Frame w s (s.takeSlot w) :=
  ⟨fun _ hother => update_of_ne hother _ _, fun _ hother => update_of_ne hother _ _,
    fun _ hother => update_of_ne hother _ _, fun _ _ => rfl⟩

@[simp]
theorem pc_setPc : (s.setPc w pc).pc w = pc := update_self _ _ _

theorem localInv_setPc :
    (s.setPc w pc).LocalInv w ↔ PcInv pc (s.slotEmpty w) (s.slot w).valid (s.mustShutDown w)
        (w = shutdownThread) := by
  rw [LocalInv, pc_setPc]
  exact Iff.rfl

theorem chooseWorker_spec (hchoose : s.chooseWorker nrWorkers = some w) :
    w < nrWorkers ∧ s.slotEmpty w = true := by
  rw [chooseWorker] at hchoose
  split at hchoose
  · next v hfound =>
    cases hchoose
    have hbits := List.find?_some hfound
    rw [and_eq_true] at hbits
    exact ⟨List.mem_range.mp (List.mem_of_find?_eq_some hfound), hbits.2⟩
  · exact ⟨List.mem_range.mp (List.mem_of_find?_eq_some hchoose), List.find?_some hchoose⟩

theorem localInv_dispatchTo (hinv : s.LocalInv w)
    (hempty : s.slotEmpty w = true) : (s.dispatchTo fill w).LocalInv w := by
  rw [LocalInv, hempty] at hinv
  rw [dispatchTo, wake_eq_setPc, localInv_setPc]
  simp only [update_self]
  exact hinv.fill

theorem localInv_requestShutdown (hinv : ∀ w, s.LocalInv w) :
    ∀ w, (wake shutdownThread { s with shutdownReq := true }).LocalInv w := by
  have hreq : ∀ w, LocalInv { s with shutdownReq := true } w := by
    intro w
    apply (hinv w).request
    intro hmust
    exact and_eq_true_iff.mpr ⟨rfl, (and_eq_true_iff.mp hmust).2⟩
  apply (frame_wake shutdownThread).localInv hreq
  rw [wake_eq_setPc, localInv_setPc]
  exact (hreq shutdownThread).wake

/-! ### Where each entry is -/

theorem held_setPc :
    (s.setPc w pc).held w = (if (s.slot w).valid then [(s.slot w).work] else []) ++ pc.hands := by
  rw [held, pc_setPc]
  rfl

theorem held_takeSlot : (s.takeSlot w).held w = [(s.slot w).work] := by
  rw [takeSlot, held_setPc]
  simp [hands]

theorem held_wake : (s.wake w).held w = s.held w := by
  rw [wake_eq_setPc, held_setPc, hands_wake, held]

theorem held_dispatchTo (hvalid : ¬ (s.slot w).valid = true) :
    (s.dispatchTo fill w).held w =
      CommandSlot.work { fill (s.slot w) with valid := true } :: s.held w := by
  rw [dispatchTo, held_wake, held, held]
  simp [hvalid]

theorem completions_wake (w : Tid) : (s.wake w).completions = s.completions := by
  rw [wake_eq_setPc, setPc]

theorem taken_wake (w : Tid) : (s.wake w).taken = s.taken := by
  rw [wake_eq_setPc, setPc]

theorem incoming_wake (w : Tid) : (s.wake w).incoming = s.incoming := by
  rw [wake_eq_setPc]
  rfl

theorem arrivals_wake (w : Tid) : (s.wake w).arrivals = s.arrivals := by
  rw [wake_eq_setPc, setPc]

/-- What a step on one worker's behalf does to the three lists. -/
def Moves (w : Tid) (s s' : NvmeState) : Prop :=
  ∀ work, s'.taken.count work + s.completed.count work + (s.held w).count work =
    s.taken.count work + s'.completed.count work + (s'.held w).count work

theorem Balanced.frame (hbalanced : s.Balanced nrWorkers)
    (hframe : Frame w s s') (hw : w < nrWorkers) (hmoves : Moves w s s') :
    s'.Balanced nrWorkers := by
  intro work
  have hbefore := hbalanced work
  have hcopies := hframe.copies hw work
  have hmove := hmoves work
  omega

theorem moves_dispatchTo {work : Work} (hvalid : ¬ (s.slot w).valid = true)
    (hslot : s'.slot = s.slot) (hpc : s'.pc = s.pc) (hcompletions : s'.completions = s.completions)
    (hfill : CommandSlot.work { fill (s.slot w) with valid := true } = work)
    (htaken : s'.taken = work :: s.taken) : Moves w s (s'.dispatchTo fill w) := by
  intro other
  have hheld : s'.held w = s.held w := by rw [held, held, hslot, hpc]
  rw [held_dispatchTo (by rw [hslot]; exact hvalid), hslot, hfill, hheld, completed, completed,
    dispatchTo, completions_wake, taken_wake, htaken, hcompletions, count_cons, count_cons]
  omega

/-! ### The entries differ -/

theorem Distinct.perm (hdistinct : s.Distinct)
    (hperm : s'.incoming.Perm s.incoming) (harrivals : s'.arrivals = s.arrivals) : s'.Distinct where
  nodup := (hperm.map Work.arrival).nodup_iff.mpr hdistinct.nodup
  lt := by
    intro work hwork
    rw [harrivals]
    exact hdistinct.lt work (hperm.mem_iff.mp hwork)

theorem Distinct.push (hdistinct : s.Distinct) (work : Work)
    (hperm : s'.incoming.Perm (work :: s.incoming)) (hwork : work.arrival = s.arrivals)
    (harrivals : s'.arrivals = s.arrivals + 1) : s'.Distinct where
  nodup := by
    apply (hperm.map Work.arrival).nodup_iff.mpr
    rw [List.map_cons, List.nodup_cons, hwork]
    constructor
    · intro hmem
      obtain ⟨other, hother, heq⟩ := mem_map.mp hmem
      have hlt := hdistinct.lt other hother
      omega
    · exact hdistinct.nodup
  lt := by
    intro other hother
    rw [harrivals]
    cases mem_cons.mp (hperm.mem_iff.mp hother) with
    | inl heq =>
      rw [heq, hwork]
      exact Nat.lt_succ_self _
    | inr hold => exact Nat.lt_succ_of_lt (hdistinct.lt other hold)

theorem incoming_popSqe {qid : ℕ} {sqe : Sqe} {rest : List (ℕ × Sqe)}
    (hfifo : s.fifo = (qid, sqe) :: rest) :
    (incoming { s with fifo := rest, taken := .nvme qid sqe :: s.taken }).Perm s.incoming := by
  rw [incoming, incoming, hfifo]
  exact perm_middle.symm

theorem incoming_popTask {task : StorpuFtlTask} {rest : List StorpuFtlTask}
    (havail : s.ftlAvail = task :: rest) :
    (incoming { s with ftlAvail := rest, taken := .storpu task :: s.taken }).Perm s.incoming := by
  rw [incoming, incoming, havail, ← append_assoc, ← append_assoc]
  exact perm_middle.symm

/-! ### The steps of a worker -/

/-- At most the bits of one worker, the begun commands and, if the worker
serves it, the shutdown request differ. -/
structure Aside (w : Tid) (s next : NvmeState) : Prop where
  pc : next.pc = s.pc
  slot : next.slot = s.slot
  slotEmpty : ∀ other, other ≠ w → next.slotEmpty other = s.slotEmpty other
  idle : ∀ other, other ≠ w → next.workerIdle other = s.workerIdle other
  must : ∀ other, other ≠ w → next.mustShutDown other = s.mustShutDown other
  incoming : next.incoming = s.incoming
  avail : next.ftlAvail = s.ftlAvail
  taken : next.taken = s.taken
  arrivals : next.arrivals = s.arrivals
  completions : next.completions = s.completions

theorem aside_refl : Aside w s s :=
  ⟨rfl, rfl, fun _ _ => rfl, fun _ _ => rfl, fun _ _ => rfl, rfl, rfl, rfl, rfl, rfl⟩

def Begins (w : Tid) (s : NvmeState) (pc : WorkerPc) (started : List ℕ) : Prop :=
  started = s.started ∧ (∀ work, pc ≠ .process work) ∨
    ∃ work, (s.pc w = .body (some work) ∨ s.pc w = .shutdown (some work)) ∧
      pc = .process work ∧ started = work.arrival :: s.started

inductive WorkerMove (w : Tid) (s : NvmeState) : NvmeState → Prop
  | goto {pc : WorkerPc} {next : NvmeState} (haside : Aside w s next)
      (hhands : pc.hands = (s.pc w).hands)
      (hpc : PcInv pc (next.slotEmpty w) (s.slot w).valid (next.mustShutDown w)
        (w = shutdownThread)) (hidle : next.workerIdle w = true → (∃ woken, pc = .asleep woken) ∨
        s.workerIdle w = true ∧ ∀ woken, s.pc w ≠ .asleep woken)
      (hprocess : ∀ work, s.pc w ≠ .process work) (hbegins : Begins w s pc next.started) :
      WorkerMove w s (next.setPc w pc)
  | take (hhands : (s.pc w).hands = []) (hvalid : (s.slot w).valid = true)
      (hawake : ∀ woken, s.pc w ≠ .asleep woken) :
      WorkerMove w s (s.takeSlot w)
  /-- The first entry of a queue, with the slot empty. -/
  | pop {work : Work} {next : NvmeState} (hpc : s.pc w = .pick)
      (hempty : s.slotEmpty w = true) (hvalid : (s.slot w).valid = false)
      (hnext : next = { s with
        fifo := next.fifo, ftlAvail := next.ftlAvail, taken := work :: s.taken })
      (hincoming : next.incoming.Perm s.incoming)
      (havail : ∀ task ∈ next.ftlAvail, task ∈ s.ftlAvail) :
      WorkerMove w s (next.setPc w (.loop (some work)))
  | finish {work : Work} (hpc : s.pc w = .process work) (hbit : s.slotEmpty w = !(s.slot w).valid) :
      WorkerMove w s (setPc w .top { s with completions := (w, work) :: s.completions })

/-- A step that only moves the worker. -/
theorem WorkerMove.step {here : WorkerPc} (hhere : s.pc w = here)
    (hpc : PcInv pc (s.slotEmpty w) (s.slot w).valid (s.mustShutDown w) (w = shutdownThread))
    (hhands : pc.hands = here.hands) (hawake : ∀ woken, here ≠ .asleep woken)
    (hprocess : ∀ work, here ≠ .process work)
    (hnot : ∀ work, pc ≠ .process work) : WorkerMove w s (s.setPc w pc) := by
  subst hhere
  exact .goto aside_refl hhands hpc (fun hidle => .inr ⟨hidle, hawake⟩) hprocess (.inl ⟨rfl, hnot⟩)

theorem pick_move (hpc : s.pc w = .pick)
    (hbit : s.slotEmpty w = !(s.slot w).valid) : WorkerMove w s (s.pick w) := by
  rw [pick]
  split
  · next hvalid =>
    rw [hbit, hvalid]
    exact .take (by rw [hpc]; rfl) hvalid (by simp [hpc])
  · next hvalid =>
    have hfalse : (s.slot w).valid = false := by simpa using hvalid
    have hempty : s.slotEmpty w = true := by simpa [hfalse] using hbit
    rw [hempty]
    simp only [Bool.not_true, Bool.false_eq_true, if_false]
    split
    · next hfifo =>
      exact .pop hpc hempty hfalse rfl (incoming_popSqe hfifo) fun _ => id
    · next havail =>
      apply WorkerMove.pop hpc hempty hfalse rfl (incoming_popTask havail)
      rw [havail]
      exact fun task => mem_cons_of_mem _
    · refine .goto ⟨rfl, rfl, fun _ _ => rfl,
        fun _ hother => update_of_ne hother _ _, fun _ _ => rfl, rfl,
        rfl, rfl, rfl, rfl⟩ (by rw [hpc]; rfl) ⟨hempty, hfalse⟩
        (fun _ => .inl ⟨false, rfl⟩) (by simp [hpc]) (.inl ⟨rfl, by simp⟩)

/-- A worker with a valid slot or a request goes on as its place says. -/
theorem workerStep_move (hinv : s.LocalInv w)
    (hstep : s.workerStep w = some s') : WorkerMove w s s' := by
  rw [LocalInv] at hinv
  rw [workerStep] at hstep
  cases hpc : s.pc w with
  | unstarted =>
    rw [hpc] at hinv
    simp only [hpc, some.injEq] at hstep
    subst hstep
    refine .goto ⟨rfl, rfl, fun _ hother => update_of_ne hother _ _,
      fun _ _ => rfl, fun _ _ => rfl, rfl, rfl, rfl, rfl, rfl⟩
      (by rw [hpc]; rfl) ?_ (fun hidle => .inr ⟨hidle, by simp [hpc]⟩)
      (by simp [hpc]) (.inl ⟨rfl, by simp⟩)
    simp [PcInv, hinv.2]
  | top =>
    rw [hpc] at hinv
    simp only [hpc, some.injEq] at hstep
    subst hstep
    split
    · next hmust =>
      exact .step hpc ⟨hinv, by simp [hmust]⟩ rfl (by simp) (by simp) (by simp)
    · exact .step hpc hinv rfl (by simp) (by simp) (by simp)
  | pick =>
    rw [hpc] at hinv
    simp only [hpc, some.injEq] at hstep
    subst hstep
    exact pick_move hpc hinv
  | asleep woken =>
    rw [hpc] at hinv
    cases woken with
    | false => simp [hpc] at hstep
    | true =>
      simp only [hpc, some.injEq] at hstep
      subst hstep
      refine .goto ⟨rfl, rfl, fun _ _ => rfl,
        fun _ hother => update_of_ne hother _ _, fun _ _ => rfl,
        rfl, rfl, rfl, rfl, rfl⟩ (by rw [hpc]; rfl) hinv ?_ (by simp [hpc]) (.inl ⟨rfl, by simp⟩)
      simp
  | woke =>
    rw [hpc] at hinv
    obtain ⟨hbit, hwork⟩ := hinv
    simp only [hpc, some.injEq] at hstep
    subst hstep
    split
    · next hmust =>
      exact .step hpc ⟨hbit, by simp [hmust]⟩ rfl (by simp) (by simp) (by simp)
    · next hmust =>
      have hvalid : (s.slot w).valid = true := by
        simpa [hmust] using hwork
      exact .step hpc ⟨by rw [hbit, hvalid]; rfl, hvalid⟩ rfl (by simp) (by simp) (by simp)
  | fetch =>
    rw [hpc] at hinv
    simp only [hpc, hinv.2, if_true, some.injEq] at hstep
    subst hstep
    exact .take (by rw [hpc]; rfl) hinv.2 (by simp [hpc])
  | loop found =>
    rw [hpc] at hinv
    simp only [hpc, hinv.2, if_true, some.injEq] at hstep
    subst hstep
    exact .step hpc hinv rfl (by simp) (by simp) (by simp)
  | body found =>
    rw [hpc] at hinv
    obtain ⟨hbit, hfound⟩ := hinv
    simp only [hpc] at hstep
    split at hstep
    · next hmust =>
      cases hstep
      have hfirst : w = shutdownThread := by
        simpa using (and_eq_true_iff.mp hmust).2
      exact .step hpc ⟨hbit, by simp [hfirst]⟩ rfl (by simp) (by simp) (by simp)
    · next hmust =>
      cases found with
      | some work =>
        cases hstep
        refine .goto ⟨rfl, rfl, fun _ _ => rfl, fun _ _ => rfl,
          fun _ _ => rfl, rfl, rfl, rfl, rfl, rfl⟩ (by rw [hpc]; rfl) hbit
          (fun hidle => .inr ⟨hidle, by simp [hpc]⟩) (by simp [hpc])
          (.inr ⟨work, .inl hpc, rfl, rfl⟩)
      | none => simp [hmust] at hfound
  | shutdown found =>
    rw [hpc] at hinv
    have hfirst : w = shutdownThread := by simpa using hinv.2
    have haside : ∀ started, Aside w s { s with shutdownReq := false, started := started } := by
      intro started
      refine ⟨rfl, rfl, fun _ _ => rfl, fun _ _ => rfl, ?_, rfl, rfl, rfl, rfl, rfl⟩
      intro other hother
      rw [hfirst] at hother
      rw [mustShutDown_of_ne hother, mustShutDown_of_ne hother]
    simp only [hpc] at hstep
    cases found with
    | some work =>
      cases hstep
      exact .goto (haside _) (by rw [hpc]; rfl) hinv.1
        (fun hidle => .inr ⟨hidle, by simp [hpc]⟩) (by simp [hpc]) (.inr ⟨work, .inr hpc, rfl, rfl⟩)
    | none =>
      cases hstep
      exact .goto (haside s.started) (by rw [hpc]; rfl) hinv.1
        (fun hidle => .inr ⟨hidle, by simp [hpc]⟩) (by simp [hpc]) (.inl ⟨rfl, by simp⟩)
  | process work =>
    rw [hpc] at hinv
    simp only [hpc, some.injEq] at hstep
    subst hstep
    exact .finish hpc hinv
  | left | astray => simp [hpc] at hstep

variable (hmove : WorkerMove w s s')
include hmove

/-- A worker step touches the request only in the one worker that serves it. -/
theorem WorkerMove.frame : Frame w s s' := by
  cases hmove with
  | goto haside =>
    apply Frame.trans _ (frame_setPc w _)
    exact ⟨fun _ _ => congrFun haside.pc _, fun _ _ => congrFun haside.slot _,
      haside.slotEmpty, haside.must⟩
  | take => exact frame_takeSlot w
  | pop hpc hempty hvalid hnext =>
    apply Frame.trans _ (frame_setPc w _)
    rw [hnext]
    exact ⟨fun _ _ => rfl, fun _ _ => rfl, fun _ _ => rfl, fun _ _ => rfl⟩
  | finish =>
    apply Frame.trans _ (frame_setPc w _)
    exact ⟨fun _ _ => rfl, fun _ _ => rfl, fun _ _ => rfl, fun _ _ => rfl⟩

theorem WorkerMove.localInv : s'.LocalInv w := by
  cases hmove with
  | goto haside hhands hpc =>
    rw [localInv_setPc, haside.slot]
    exact hpc
  | take => simp [LocalInv, takeSlot, setPc, PcInv]
  | pop hpc hempty hvalid hnext =>
    rw [localInv_setPc, hnext]
    exact ⟨by rw [hempty, hvalid]; rfl, rfl⟩
  | finish hpc hbit =>
    rw [localInv_setPc]
    exact hbit

theorem WorkerMove.moves : Moves w s s' := by
  intro other
  cases hmove with
  | goto haside hhands =>
    rw [held_setPc, haside.slot, hhands, ← held, completed, completed]
    simp only [setPc, haside.taken, haside.completions]
  | take hhands hvalid =>
    rw [held_takeSlot, held, hhands, hvalid]
    rfl
  | pop hpc hempty hvalid hnext =>
    have hheld : s.held w = [] := by
      rw [held, hpc, hvalid]
      rfl
    rw [held_setPc, hnext, hheld]
    simp only [hvalid, hands, setPc, completed, count_cons,
      false_eq_true, if_false, nil_append, Option.toList_some, count_nil]
    omega
  | finish hpc =>
    rw [held_setPc, held, hpc]
    simp only [hands, setPc, completed, List.map_cons, count_append, count_cons, count_nil]
    omega

/-- Only the step that looks at the queues takes anything from them. -/
theorem WorkerMove.incoming : s'.incoming.Perm s.incoming ∧ s'.arrivals = s.arrivals := by
  cases hmove with
  | goto haside => exact ⟨List.Perm.of_eq haside.incoming, haside.arrivals⟩
  | take | finish => exact ⟨List.Perm.refl _, rfl⟩
  | pop hpc hempty hvalid hnext hincoming =>
    refine ⟨hincoming, ?_⟩
    rw [hnext]
    rfl

end NvmeState

end Soda
