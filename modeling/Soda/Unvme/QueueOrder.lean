import Soda.Unvme.NvmeQueue

/-!
# Queue pairs that are not overrun

Both rings are described by how many entries went in and out of them since the
queue was created.  The positions, the doorbells and the phase bits are then
functions of these counts, and the counts say what each ring holds.
-/

namespace Soda.Unvme

open Function List Option

variable {C R : Type}

def NvmeCompletion.phase (cqe : NvmeCompletion R) : ℕ := (cqe.status &&& 1).toNat

namespace QueuePair

/-- The submission queue, where `rung` commands were submitted when its
doorbell was last rung. -/
structure SqTracks (q : QueuePair C R) (rung : ℕ) : Prop where
  tail_eq : q.queue.sqTail = q.submitted.length % q.queue.depth
  doorbell_eq : q.sqDoorbell = rung % q.queue.depth
  head_eq : q.sqHead = q.fetched.length % q.queue.depth
  fetched_le : q.fetched.length ≤ rung
  rung_le : rung ≤ q.submitted.length
  window : q.submitted.length ≤ q.fetched.length + q.queue.depth
  slots : RingHolds q.queue.depth q.sq some q.submitted q.fetched.length
  pending_iff : ∀ slot, q.pending slot = true ↔ ∃ k, q.fetched.length ≤ k ∧ k < q.submitted.length ∧
      k % q.queue.depth = slot
  no_overruns : q.overruns = []

/-- The completion queue, where `acked` entries had been taken when its
doorbell was last rung. -/
structure CqTracks (q : QueuePair C R) (acked : ℕ) : Prop where
  head_eq : q.queue.cqHead = q.consumed.length % q.queue.depth
  phase_eq : q.queue.cqPhase = lapPhase q.queue.depth q.consumed.length
  tail_eq : q.cqTail = q.posted.length % q.queue.depth
  postPhase_eq : q.postPhase = lapPhase q.queue.depth q.posted.length
  doorbell_eq : q.cqDoorbell = acked % q.queue.depth
  acked_le : acked ≤ q.consumed.length
  room : q.posted.length < acked + q.queue.depth
  entries : RingHolds q.queue.depth q.cq id q.posted (q.posted.length - q.queue.depth)
  phases : ∀ k cqe, q.posted[k]? = some cqe → cqe.phase = lapPhase q.queue.depth k
  blank : ∀ slot, q.posted.length ≤ slot → slot < q.queue.depth → (q.cq slot).phase = 0
  taken : q.consumed <+: q.posted

theorem cqePending_iff (q : QueuePair C R) :
    q.cqePending = true ↔ (q.cq q.queue.cqHead).phase = q.queue.cqPhase := by
  rw [cqePending, beq_iff_eq, NvmeCompletion.phase]

section Submission

variable {q : QueuePair C R} {rung : ℕ}

theorem nextTail_eq (nvmeq : NvmeQueue) {k : ℕ} (htail : nvmeq.sqTail = k % nvmeq.depth) :
    nvmeq.nextTail = (k + 1) % nvmeq.depth := by
  have hlt := Nat.mod_lt k nvmeq.depth_pos
  have hle := nvmeq.depth_le
  rw [NvmeQueue.nextTail, htail, succ_slot nvmeq.depth_pos]
  by_cases hlast : k % nvmeq.depth + 1 = 65536
  · -- the only depth at which the 16-bit number itself wraps
    have hsize : nvmeq.depth = 65536 := by omega
    rw [hlast, hsize]
    rfl
  · rw [Nat.mod_eq_of_lt (by omega)]

variable (hsq : q.SqTracks rung)
include hsq

theorem tail_slot_pending_iff :
    q.pending q.queue.sqTail = true ↔ q.submitted.length = q.fetched.length + q.queue.depth := by
  rw [hsq.pending_iff, hsq.tail_eq]
  have hwindow := hsq.window
  constructor
  · rintro ⟨k, hlow, hhigh, hslot⟩
    by_contra hne
    have := slot_injective hhigh.le (by omega) hslot
    omega
  · intro hfull
    have hpos := q.queue.depth_pos
    refine ⟨q.fetched.length, le_rfl, by omega, ?_⟩
    rw [hfull, Nat.add_mod_right]

theorem writeSlot_overruns (cmd : C) :
    (q.writeSlot cmd).overruns = [] ↔ q.submitted.length - q.fetched.length < q.queue.depth := by
  have hwindow := hsq.window
  have hpos := q.queue.depth_pos
  simp only [writeSlot]
  split_ifs with hpending
  · have hfull := (tail_slot_pending_iff hsq).mp hpending
    have hlt : q.fetched.length < q.submitted.length := by omega
    have hcell := hsq.slots _ _ le_rfl (getElem?_eq_getElem hlt)
    rw [hsq.tail_eq, hfull, Nat.add_mod_right, hcell]
    simp
  · rw [tail_slot_pending_iff hsq] at hpending
    rw [hsq.no_overruns]
    simp only [true_iff]
    omega

theorem SqTracks.writeSlot (cmd : C)
    (hroom : q.submitted.length - q.fetched.length < q.queue.depth) :
    ((q.writeSlot cmd).advanceTail).SqTracks rung where
  tail_eq := by
    simp only [advanceTail, QueuePair.writeSlot, length_append, length_singleton]
    exact nextTail_eq q.queue hsq.tail_eq
  doorbell_eq := hsq.doorbell_eq
  head_eq := hsq.head_eq
  fetched_le := hsq.fetched_le
  rung_le := by
    have := hsq.rung_le
    simp only [advanceTail, QueuePair.writeSlot, length_append, length_singleton]
    omega
  window := by
    simp only [advanceTail, QueuePair.writeSlot, length_append, length_singleton]
    omega
  slots := by
    have hpush := hsq.slots.push (by omega) cmd
    rw [← hsq.tail_eq] at hpush
    exact hpush
  pending_iff := by
    intro slot
    simp only [advanceTail, QueuePair.writeSlot, length_append, length_singleton]
    by_cases htail : slot = q.queue.sqTail
    · rw [htail, update_self]
      simp only [true_iff]
      have := hsq.fetched_le.trans hsq.rung_le
      exact ⟨q.submitted.length, this, by omega, hsq.tail_eq.symm⟩
    · rw [update_of_ne htail, hsq.pending_iff]
      constructor
      · rintro ⟨k, hlow, hhigh, hslot⟩
        exact ⟨k, hlow, by omega, hslot⟩
      · rintro ⟨k, hlow, hhigh, hslot⟩
        have hne : k ≠ q.submitted.length := by
          rintro rfl
          exact htail (hslot.symm.trans hsq.tail_eq.symm)
        exact ⟨k, hlow, by omega, hslot⟩
  no_overruns := (writeSlot_overruns hsq cmd).mpr hroom

theorem SqTracks.ring (writeSq : Bool) : ∃ rung', (q.writeSqDoorbell writeSq).SqTracks rung' := by
  simp only [writeSqDoorbell]
  split
  · exact ⟨rung, hsq⟩
  · refine ⟨q.submitted.length, ?_⟩
    exact {
      hsq with
      doorbell_eq := hsq.tail_eq
      fetched_le := hsq.fetched_le.trans hsq.rung_le
      rung_le := le_rfl }

omit hsq in
theorem submitSqCommand_overruns (cmd : C) (writeSq : Bool) :
    (q.submitSqCommand cmd writeSq).overruns = (q.writeSlot cmd).overruns := by
  simp only [submitSqCommand, writeSqDoorbell]
  split <;> rfl

theorem SqTracks.submit (cmd : C) (writeSq : Bool)
    (hroom : q.submitted.length - q.fetched.length < q.queue.depth) :
    ∃ rung', (q.submitSqCommand cmd writeSq).SqTracks rung' :=
  (hsq.writeSlot cmd hroom).ring writeSq

/-- With the head off the doorbell there is a command to fetch. -/
theorem SqTracks.lt_of_ne (hne : q.sqHead ≠ q.sqDoorbell) : q.fetched.length < rung := by
  rw [hsq.head_eq, hsq.doorbell_eq] at hne
  have hle := hsq.fetched_le
  have hcount : q.fetched.length ≠ rung := by
    intro heq
    exact hne (by rw [heq])
  omega

theorem SqTracks.fetch (hne : q.sqHead ≠ q.sqDoorbell) : q.fetch.SqTracks rung := by
  have hlt := hsq.lt_of_ne hne
  have hrung := hsq.rung_le
  have hcell := hsq.slots _ _ le_rfl (getElem?_eq_getElem (hlt.trans_le hrung))
  rw [← hsq.head_eq] at hcell
  have hlength : q.fetch.fetched.length = q.fetched.length + 1 := by
    simp only [QueuePair.fetch, hcell, toList_some, length_append, length_singleton]
  have hwindow := hsq.window
  exact {
    hsq with
    head_eq := by
      rw [hlength]
      simp only [QueuePair.fetch, hsq.head_eq]
      rw [Nat.mod_add_mod]
    fetched_le := by omega
    window := by
      rw [hlength]
      show q.submitted.length ≤ q.fetched.length + 1 + q.queue.depth
      omega
    slots := by
      rw [hlength]
      exact hsq.slots.mono (Nat.le_succ _)
    pending_iff := by
      intro slot
      rw [hlength]
      simp only [QueuePair.fetch]
      by_cases hhead : slot = q.sqHead
      · rw [hhead, update_self, hsq.head_eq]
        simp only [Bool.false_eq_true, false_iff, not_exists, not_and]
        intro k hlow hhigh hslot
        have := slot_injective (by omega : q.fetched.length ≤ k) (by omega)
          hslot.symm
        omega
      · rw [update_of_ne hhead, hsq.pending_iff]
        constructor
        · rintro ⟨k, hlow, hhigh, hslot⟩
          have hne : k ≠ q.fetched.length := by
            rintro rfl
            exact hhead (hslot.symm.trans hsq.head_eq.symm)
          exact ⟨k, by omega, hhigh, hslot⟩
        · rintro ⟨k, hlow, hhigh, hslot⟩
          exact ⟨k, by omega, hhigh, hslot⟩ }

end Submission

section Completion

variable {q : QueuePair C R} {acked : ℕ}

theorem phase_lt_two (cqe : NvmeCompletion R) : cqe.phase < 2 := by
  rw [NvmeCompletion.phase, UInt16.toNat_and]
  show cqe.status.toNat &&& 1 < 2
  rw [Nat.and_one_is_mod]
  exact Nat.mod_lt _ (by decide)

/-- The phase bit tells the entries that were posted from those of the lap
before, at every position the reader can be at. -/
theorem CqTracks.phase_eq_iff (hcq : q.CqTracks acked) {k : ℕ} (hle : k ≤ q.posted.length)
    (hlow : q.posted.length ≤ k + q.queue.depth) :
    (q.cq (k % q.queue.depth)).phase = lapPhase q.queue.depth k ↔ k < q.posted.length := by
  have hpos := q.queue.depth_pos
  rcases hle.lt_or_eq with hlt | rfl
  · have hentry := getElem?_eq_getElem hlt
    have hcell := hcq.entries k _ (by omega) hentry
    rw [hcell]
    simp only [id, hcq.phases k _ hentry, hlt]
  · simp only [lt_irrefl, iff_false]
    by_cases hfirst : q.posted.length < q.queue.depth
    · -- the first lap: the slot still has the zero of the cleared queue
      rw [Nat.mod_eq_of_lt hfirst, hcq.blank _ le_rfl hfirst, lapPhase, Nat.div_eq_of_lt hfirst]
      decide
    · obtain ⟨k, hk⟩ := Nat.exists_eq_add_of_le (not_lt.mp hfirst)
      have hlt : k < q.posted.length := by omega
      have hentry := getElem?_eq_getElem hlt
      have hcell := hcq.entries k _ (by omega) hentry
      have hslot : q.posted.length % q.queue.depth = k % q.queue.depth := by
        rw [hk, Nat.add_mod_left]
      have hphase : lapPhase q.queue.depth q.posted.length = lapPhase q.queue.depth k ^^^ 1 := by
        rw [hk, add_comm, lapPhase_add_depth hpos]
      rw [hslot, hcell, hphase, id, hcq.phases k _ hentry]
      exact (phase_flip_ne _ _).symm

theorem CqTracks.consumed_le (hcq : q.CqTracks acked) : q.consumed.length ≤ q.posted.length :=
  hcq.taken.length_le

theorem CqTracks.pending_iff (hcq : q.CqTracks acked) :
    q.cqePending = true ↔ q.consumed.length < q.posted.length := by
  have hroom := hcq.room
  have hacked := hcq.acked_le
  rw [cqePending_iff, hcq.head_eq, hcq.phase_eq]
  exact hcq.phase_eq_iff hcq.consumed_le (by omega)

theorem CqTracks.inOrder {rung : ℕ} (hsq : q.SqTracks rung)
    (hcq : q.CqTracks acked) : q.InOrder := by
  have hroom := hcq.room
  have hacked := hcq.acked_le
  exact ⟨hsq.no_overruns, hcq.taken, by omega, hcq.pending_iff⟩

theorem updateCqHead_eq (nvmeq : NvmeQueue) {k : ℕ} (hhead : nvmeq.cqHead = k % nvmeq.depth)
    (hphase : nvmeq.cqPhase = lapPhase nvmeq.depth k)
    (hlast : ¬(nvmeq.depth = 65536 ∧ nvmeq.cqHead = 65535)) :
    nvmeq.updateCqHead = { nvmeq with
      cqHead := (k + 1) % nvmeq.depth
      cqPhase := lapPhase nvmeq.depth (k + 1) } := by
  have hlt := Nat.mod_lt k nvmeq.depth_pos
  have hle := nvmeq.depth_le
  have hsucc : (nvmeq.cqHead + 1) % 65536 = k % nvmeq.depth + 1 := by
    rw [← hhead]
    exact Nat.mod_eq_of_lt (by omega)
  rw [NvmeQueue.updateCqHead, hsucc, succ_slot nvmeq.depth_pos,
    lapPhase_succ nvmeq.depth_pos, ← hphase]
  split_ifs <;> rfl

/-- In a ring of 65536 slots the 16-bit successor of the last one is zero, not
the depth, and the phase is left as it is. -/
theorem updateCqHead_last (nvmeq : NvmeQueue) (hdepth : nvmeq.depth = 65536)
    (hhead : nvmeq.cqHead = 65535) : nvmeq.updateCqHead = { nvmeq with cqHead := 0 } := by
  rw [NvmeQueue.updateCqHead, hhead]
  exact if_neg (by rw [hdepth]; decide)

variable (hcq : q.CqTracks acked)
include hcq

theorem CqTracks.head_entry (hlt : q.consumed.length < q.posted.length) :
    q.consumed ++ [q.cq q.queue.cqHead] <+: q.posted := by
  obtain ⟨rest, hrest⟩ := hcq.taken
  have hroom := hcq.room
  have hacked := hcq.acked_le
  cases rest with
  | nil =>
    rw [append_nil] at hrest
    rw [hrest] at hlt
    exact absurd hlt (lt_irrefl _)
  | cons cqe rest =>
    have hentry : q.posted[q.consumed.length]? = some cqe := by
      rw [← hrest, getElem?_append_right le_rfl, Nat.sub_self]
      rfl
    have hcell := hcq.entries _ cqe (by omega) hentry
    rw [← hcq.head_eq] at hcell
    refine ⟨rest, ?_⟩
    rw [hcell, ← hrest]
    exact append_assoc _ _ _

theorem CqTracks.take (hpending : q.cqePending = true) (found : ℕ)
    (hlast : ¬(q.queue.depth = 65536 ∧ q.queue.cqHead = 65535)) :
    (q.nvmeIrqRound found).CqTracks acked := by
  have hacked := hcq.acked_le
  rw [nvmeIrqRound, if_pos hpending, updateCqHead_eq q.queue hcq.head_eq hcq.phase_eq hlast]
  exact {
    hcq with
    head_eq := by
      simp only [length_append, length_singleton]
    phase_eq := by
      simp only [length_append, length_singleton]
    acked_le := by
      simp only [length_append]
      omega
    taken := hcq.head_entry (hcq.pending_iff.mp hpending) }

theorem CqTracks.finish (hpending : q.cqePending = false) (found : ℕ) :
    ∃ acked', (q.nvmeIrqRound found).CqTracks acked' := by
  have hroom := hcq.room
  have hacked := hcq.acked_le
  have hdone : ¬q.cqePending = true := by
    rw [hpending]
    exact Bool.false_ne_true
  rw [nvmeIrqRound, if_neg hdone]
  split
  · exact ⟨acked, { hcq with }⟩
  · refine ⟨q.consumed.length, ?_⟩
    exact {
      hcq with
      doorbell_eq := hcq.head_eq
      acked_le := le_rfl
      room := lt_of_lt_of_le hroom (Nat.add_le_add_right hacked _) }

/-- The phase bit of the slot after the last one is read with the phase of the
lap before, so the test of the loop gives the wrong answer. -/
theorem CqTracks.not_inOrder_of_last (hpending : q.cqePending = true) (found : ℕ)
    (hdepth : q.queue.depth = 65536) (hhead : q.queue.cqHead = 65535) :
    ¬(q.nvmeIrqRound found).InOrder := by
  have hlt := hcq.pending_iff.mp hpending
  have hroom := hcq.room
  have hacked := hcq.acked_le
  have hwrap : q.consumed.length % q.queue.depth + 1 = q.queue.depth := by
    rw [← hcq.head_eq, hhead, hdepth]
  have hslot := (succ_slot_of_eq hwrap).2
  have hphase := lapPhase_succ q.queue.depth_pos q.consumed.length
  rw [if_pos hwrap] at hphase
  have hnext := hcq.phase_eq_iff (k := q.consumed.length + 1) hlt (by omega)
  rw [hslot, hphase] at hnext
  rw [nvmeIrqRound, if_pos hpending, updateCqHead_last q.queue hdepth hhead]
  rintro ⟨_, _, _, hiff⟩
  rw [cqePending_iff] at hiff
  simp only [length_append, length_singleton, hcq.phase_eq, ← hnext] at hiff
  have hbit := phase_lt_two (q.cq 0)
  rcases Nat.mod_two_eq_zero_or_one (q.consumed.length / q.queue.depth + 1) with hlap | hlap <;>
  · simp only [lapPhase, hlap] at hiff
    generalize (q.cq 0).phase = bit at hiff hbit
    interval_cases bit <;> simp at hiff

theorem CqTracks.post {cqe : NvmeCompletion R}
    (hfree : (q.cqTail + 1) % q.queue.depth ≠ q.cqDoorbell) (hphase : cqe.phase = q.postPhase) :
    (q.post cqe).CqTracks acked := by
  have hroom := hcq.room
  have hpos := q.queue.depth_pos
  have hlength : (q.post cqe).posted.length = q.posted.length + 1 := length_append
  have htail : (q.cqTail + 1) % q.queue.depth = (q.posted.length + 1) % q.queue.depth := by
    rw [hcq.tail_eq, Nat.mod_add_mod]
  have hspace : q.posted.length + 1 < acked + q.queue.depth := by
    rw [htail, hcq.doorbell_eq] at hfree
    have hne : q.posted.length + 1 ≠ acked + q.queue.depth := by
      intro heq
      rw [heq, Nat.add_mod_right] at hfree
      exact hfree rfl
    omega
  exact {
    hcq with
    tail_eq := by
      rw [hlength]
      exact htail
    postPhase_eq := by
      rw [hlength]
      simp only [QueuePair.post]
      rw [lapPhase_succ hpos, hcq.tail_eq, hcq.postPhase_eq]
    room := by
      rw [hlength]
      exact hspace
    entries := by
      rw [hlength]
      have hkept := hcq.entries.mono (by omega : q.posted.length -
        q.queue.depth ≤ q.posted.length + 1 - q.queue.depth)
      have hpush := hkept.push (by omega) cqe
      rw [← hcq.tail_eq] at hpush
      exact hpush
    phases := by
      intro k entry hentry
      simp only [QueuePair.post] at hentry ⊢
      rcases lt_trichotomy k q.posted.length with hlt | heq | hgt
      · rw [getElem?_append_left hlt] at hentry
        exact hcq.phases k entry hentry
      · subst heq
        rw [getElem?_append_right le_rfl, Nat.sub_self] at hentry
        rw [← some.inj hentry, hphase, hcq.postPhase_eq]
      · rw [getElem?_eq_none (by simpa using hgt)] at hentry
        cases hentry
    blank := by
      rw [hlength]
      intro slot hslot hlt
      have hne : slot ≠ q.cqTail := by
        rw [hcq.tail_eq, Nat.mod_eq_of_lt (by
          have : slot < q.queue.depth := hlt
          omega)]
        omega
      simp only [QueuePair.post, update_of_ne hne]
      exact hcq.blank slot (by omega) hlt
    taken := hcq.taken.trans (prefix_append _ _) }

end Completion

/-- What every queue pair used with care satisfies. -/
def Tracked (q : QueuePair C R) : Prop := ∃ rung acked, q.SqTracks rung ∧ q.CqTracks acked

theorem Tracked.inOrder {q : QueuePair C R} (htracked : q.Tracked) : q.InOrder := by
  obtain ⟨rung, acked, hsq, hcq⟩ := htracked
  exact CqTracks.inOrder hsq hcq

theorem initQueue_tracked (depth : ℕ) (hpos : 0 < depth) (hle : depth ≤ 65536) (zero : R) :
    (initQueue depth hpos hle zero : QueuePair C R).Tracked := by
  refine ⟨0, 0, ?_, ?_⟩
  · constructor <;> simp [initQueue, RingHolds]
  · constructor <;>
      simp [initQueue, RingHolds, NvmeCompletion.phase, lapPhase, hpos]

end QueuePair

open QueuePair

theorem queueStep_submit_frame (q : QueuePair C R) (cmd : C) (writeSq : Bool)
    {acked : ℕ} (hcq : q.CqTracks acked) : (q.submitSqCommand cmd writeSq).CqTracks acked := by
  simp only [submitSqCommand, writeSqDoorbell]
  split <;> exact { hcq with }

theorem nvmeIrqRound_frame (q : QueuePair C R) (found : ℕ) {rung : ℕ}
    (hsq : q.SqTracks rung) : (q.nvmeIrqRound found).SqTracks rung := by
  simp only [nvmeIrqRound, NvmeQueue.updateCqHead]
  split_ifs <;> exact { hsq with }

theorem queueStep_tracked (q : QueuePair C R) (action : QueueAction C R)
    (next : QueuePair C R) (htracked : q.Tracked) (hcare : q.Careful action)
    (hstep : queueStep q action = some next) : next.Tracked := by
  obtain ⟨rung, acked, hsq, hcq⟩ := htracked
  cases action with
  | submit cmd writeSq =>
    cases hstep
    obtain ⟨rung', hsq'⟩ := hsq.submit cmd writeSq hcare
    exact ⟨rung', acked, hsq', queueStep_submit_frame q cmd writeSq hcq⟩
  | fetch =>
    obtain ⟨hguard, rfl⟩ := unless_some hstep
    exact ⟨rung, acked, hsq.fetch hguard, { hcq with }⟩
  | post cqe =>
    obtain ⟨hguard, rfl⟩ := guard_some hstep
    exact ⟨rung, acked, { hsq with }, hcq.post hguard.1 hguard.2⟩
  | irq =>
    simp only [queueStep] at hstep
    split at hstep
    · cases hstep
      exact ⟨rung, acked, { hsq with }, { hcq with }⟩
    · cases hstep
  | irqRound =>
    obtain ⟨found, _, rfl⟩ := map_eq_some_iff.mp hstep
    have hsq' := nvmeIrqRound_frame q found hsq
    cases hpending : q.cqePending with
    | true =>
      have hlast : ¬(q.queue.depth = 65536 ∧ q.queue.cqHead = 65535) :=
        fun hlast => hcare ⟨hpending, hlast⟩
      exact ⟨rung, acked, hsq', hcq.take hpending found hlast⟩
    | false =>
      obtain ⟨acked', hcq'⟩ := hcq.finish hpending found
      exact ⟨rung, acked', hsq', hcq'⟩

/-- A step that is not careful leaves a queue pair that is not in order. -/
theorem careful_of_inOrder (q : QueuePair C R) (action : QueueAction C R)
    (next : QueuePair C R) (htracked : q.Tracked)
    (hstep : queueStep q action = some next) (hnext : next.InOrder) : q.Careful action := by
  obtain ⟨rung, acked, hsq, hcq⟩ := htracked
  cases action with
  | submit cmd writeSq =>
    cases hstep
    have hoverruns := hnext.1
    rw [submitSqCommand_overruns] at hoverruns
    exact (writeSlot_overruns hsq cmd).mp hoverruns
  | fetch | post cqe | irq => trivial
  | irqRound =>
    obtain ⟨found, _, rfl⟩ := map_eq_some_iff.mp hstep
    rintro ⟨hpending, hdepth, hhead⟩
    exact hcq.not_inOrder_of_last hpending found hdepth hhead hnext

/-- For every depth and every sequence of submissions, fetches, posts and
interrupts: no submission slot is overwritten before it is fetched, and every
completion entry is taken once and in order, all along the run, if and only if
each of its steps is careful. -/
theorem queue_inOrder_iff_careful (depth : ℕ) (hpos : 0 < depth)
    (hle : depth ≤ 65536) (zero : R) {actions : List (QueueAction C R)} {last : QueuePair C R}
    (hrun : FreeRun queueStep (initQueue depth hpos hle zero) actions last) :
    Run queueStep Careful (initQueue depth hpos hle zero) actions last ↔
      Always queueStep InOrder (initQueue depth hpos hle zero) actions := by
  have hinit := initQueue_tracked (C := C) depth hpos hle zero
  refine hrun.meets_iff_always_of_kept queueStep_tracked ?_ hinit hinit.inOrder
  intro q action next htracked _ hstep
  constructor
  · intro hcare
    exact (queueStep_tracked q action next htracked hcare hstep).inOrder
  · exact careful_of_inOrder q action next htracked hstep

/-- A command that is fetched and answered, in a ring of two slots. -/
theorem queue_inOrder_iff_careful_answered :
    ∃ last : QueuePair ℕ ℕ, runActions queueStep (initQueue 2 (by decide) (by decide) 0)
        [.submit 7 true, .fetch, .post ⟨5, 0, 1⟩, .irq, .irqRound, .irqRound] = some last ∧
      last.consumed.map NvmeCompletion.result = [5] ∧
      (Run queueStep Careful (initQueue 2 (by decide) (by decide) 0)
          [.submit 7 true, .fetch, .post ⟨5, 0, 1⟩, .irq, .irqRound, .irqRound] last ↔
        Always queueStep InOrder (initQueue 2 (by decide) (by decide) 0)
          [.submit 7 true, .fetch, .post ⟨5, 0, 1⟩, .irq, .irqRound, .irqRound]) := by
  obtain ⟨last, hlast, hconsumed⟩ : ∃ last : QueuePair ℕ ℕ,
      runActions queueStep (initQueue 2 (by decide) (by decide) 0)
        [.submit 7 true, .fetch, .post ⟨5, 0, 1⟩, .irq, .irqRound, .irqRound] = some last ∧
      last.consumed.map NvmeCompletion.result = [5] := ⟨_, rfl, rfl⟩
  have hrun := freeRun_of_runActions hlast
  exact ⟨last, hlast, hconsumed, queue_inOrder_iff_careful 2 (by decide) (by decide) 0 hrun⟩

/-- Three submissions to a ring of two slots before the first is fetched: the
third is written over the first. -/
theorem not_queue_inOrder :
    ¬∀ (actions : List (QueueAction ℕ ℕ)) (last : QueuePair ℕ ℕ),
      FreeRun queueStep (initQueue 2 (by decide) (by decide) 0) actions last → last.InOrder := by
  intro hall
  obtain ⟨last, hlast, hoverruns⟩ : ∃ last : QueuePair ℕ ℕ,
      runActions queueStep (initQueue 2 (by decide) (by decide) 0)
        [.submit 7 true, .submit 8 true, .submit 9 true] = some last ∧
      last.overruns = [7] := ⟨_, rfl, rfl⟩
  have hgood := hall _ last (freeRun_of_runActions hlast)
  rw [hgood.1] at hoverruns
  cases hoverruns

end Soda.Unvme
