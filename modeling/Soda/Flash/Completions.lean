import Soda.Flash.Dispatching

/-!
# Acceptance and completions

A task that is accepted joins a queue of its chip.  What the hardware reports
moves one die to its next phase and then lets the scheduler fill the bus again.
`Account` is the bookkeeping of a channel between two calls: the tasks it
accepted are in its queues, on its dies or reported, those on the dies or
reported are the ones dispatched, and the request counters agree with the queues.
-/

namespace Soda

open Function ChannelData DiePhase ChipData List Bool FilTask

section Account

/-- The books of a channel that accepted the tasks `accepted`. -/
structure Account (g : Geometry) (accepted : List FilTask) (ch : ChannelData) : Prop where
  held : queued g ch + active g ch + completed ch = accepted
  dispatched : (ch.dispatched : Multiset FilTask) = active g ch + completed ch
  counted : ahead ch = 0
  inLine : ∀ chip queue die, lineup ch chip queue die = accepted.filter (isFor chip queue die)

variable {g : Geometry} {accepted : List FilTask} {moved : Multiset FilTask} {ch ch' : ChannelData}

theorem Flow.account (hflow : Flow g moved 0 ch ch')
    (haccount : Account g accepted ch) : Account g accepted ch' where
  held := by
    rw [← haccount.held, hflow.queued_eq, hflow.active_eq, completed, completed, hflow.reported_eq]
    abel
  dispatched := by
    rw [hflow.dispatched_eq, haccount.dispatched, hflow.active_eq, completed,
      completed, hflow.reported_eq, add_assoc]
  counted := by
    rw [hflow.ahead_eq, haccount.counted, add_zero]
  inLine := by
    rw [hflow.lineup_eq]
    exact haccount.inLine

variable {txn : FilTask} {queue : TxnQueue}

/-- The task of a die is reported and leaves the die. -/
theorem Account.report (haccount : Account g accepted ch) {chip die : ℕ}
    {error : Bool} (hchip : chip < g.chipsPerChannel) (hdie : die < g.diesPerChip)
    (htxn : ((ch.chips chip).dies die).activeTxns = [txn])
    (hchange : DieChange chip die idle.data ch ch')
    (hqueues : ch'.queues = ch.queues) (hcount : ch'.requestCount = ch.requestCount)
    (hdispatched : ch'.dispatched = ch.dispatched)
    (hreported : ch'.reported = ch.reported ++ [(txn, error)]) : Account g accepted ch' := by
  have hactive : active g ch' + {txn} = active g ch := by
    have hset := active_setDie hchip hdie hchange
    rw [htxn] at hset
    exact hset.trans (add_zero _)
  have hcompleted : completed ch' = completed ch + {txn} := by
    rw [completed, completed, hreported, map_append, ← Multiset.coe_add]
    rfl
  constructor
  · rw [← haccount.held, hcompleted, ← hactive, queued, queued, hqueues]
    abel
  · rw [hdispatched, haccount.dispatched, hcompleted, ← hactive]
    abel
  · rw [← haccount.counted]
    unfold ahead
    rw [hqueues, hcount]
  · intro other queue otherDie
    rw [← haccount.inLine, lineup, lineup, hqueues, hdispatched]

/-- A task joins a queue of its chip. -/
theorem Account.enqueue (haccount : Account g accepted ch)
    (hchip : txn.chip < g.chipsPerChannel) (hkey : txn.queue = some queue) :
    Account g (accepted ++ [txn])
      ((ch.setQueue txn.chip queue (ch.queues txn.chip queue ++ [txn])).addRequests
        txn.chip 1) := by
  have hcounter := Flow.addRequests g
    (ch.setQueue txn.chip queue (ch.queues txn.chip queue ++ [txn])) txn.chip 1
  have hqueued : queued g ((ch.setQueue txn.chip queue
        (ch.queues txn.chip queue ++ [txn])).addRequests txn.chip 1) = {txn} + queued g ch := by
    have hset := queued_setQueue ch hchip queue (ch.queues txn.chip queue ++ [txn])
    rw [← Multiset.coe_add, Multiset.coe_singleton, ← add_assoc, add_right_comm] at hset
    rw [add_comm]
    exact add_right_cancel hset
  constructor
  · rw [hqueued, ← Multiset.coe_add, ← haccount.held, Multiset.coe_singleton]
    abel
  · exact haccount.dispatched
  · rw [hcounter.ahead_eq, ahead_setQueue, haccount.counted, zero_add,
      length_append, length_singleton, ← Pi.single_add]
    push_cast
    rw [show ((ch.queues txn.chip queue).length : ℤ) -
      ((ch.queues txn.chip queue).length + 1) + 1 = 0 by ring, Pi.single_zero]
  · intro chip other die
    rw [filter_append, ← haccount.inLine, ← lineup_enqueue hkey]
    rfl

theorem Good.enqueue {channel chip : ℕ} (hgood : Good g channel ch) (hkey : txn.queue = some queue)
    (hon : txn.On g channel chip txn.die) :
    Good g channel ((ch.setQueue chip queue (ch.queues chip queue ++ [txn])).addRequests
        chip 1) := by
  obtain ⟨phases, bus, hsound⟩ := hgood
  have hset : Sound g channel phases bus
      (ch.setQueue chip queue (ch.queues chip queue ++ [txn])) := by
    apply hsound.setQueue
    intro other hother
    rcases mem_append.mp hother with hbefore | hnew
    · exact hsound.queued chip queue other hbefore
    · rw [mem_singleton.mp hnew]
      exact ⟨hkey, hon⟩
  exact ⟨phases, bus, hset.requeue hset.queued _ hset.rr_lt⟩

end Account

section Steps

variable {g : Geometry} {channel depth : ℕ} {calls : Callbacks} {phases : Phases}
  {bus : Option Transfer} {ch ch' : ChannelData}

/-- A die changes its phase and keeps its task. -/
theorem Flow.of_phase {chip die : ℕ} {dieData : DieData}
    (hchip : chip < g.chipsPerChannel) (hdie : die < g.diesPerChip)
    (htxns : dieData.activeTxns = ((ch.chips chip).dies die).activeTxns)
    (hchange : DieChange chip die dieData ch ch') (hwaits : (ch'.chips chip).nrWaitingReadXfers +
        BitVec.ofNat 32 ((ch.chips chip).dies die).readsOut.toNat =
      (ch.chips chip).nrWaitingReadXfers + BitVec.ofNat 32 dieData.readsOut.toNat)
    (hqueues : ch'.queues = ch.queues) (hcount : ch'.requestCount = ch.requestCount)
    (hdispatched : ch'.dispatched = ch.dispatched)
    (hreported : ch'.reported = ch.reported) : Flow g 0 0 ch ch' where
  queued_eq := by
    rw [zero_add]
    unfold queued
    rw [hqueues]
  active_eq := by
    have hset := active_setDie hchip hdie hchange
    rw [htxns] at hset
    rw [zero_add]
    exact add_right_cancel hset
  dispatched_eq := by rw [zero_add, hdispatched]
  reported_eq := hreported
  ahead_eq := by
    rw [add_zero]
    unfold ahead
    rw [hqueues, hcount]
  lineup_eq := by
    funext other queue otherDie
    rw [lineup, lineup, hqueues, hdispatched]
  excess_eq other := by
    by_cases hother : other = chip
    · rw [hother, ← BitVec.add_zero ((ch.chips chip).excess g)]
      apply excess_of_change hdie hchange.dies
      rw [hwaits, BitVec.add_zero]
    · rw [hchange.others other hother]

theorem Settles.refl (hgood : Good g channel ch) : Settles g channel ch (.ok ch) :=
  ⟨ch, 0, rfl, hgood, Flow.refl g ch⟩

variable {result : SchedulerResult ChannelData}

theorem Settles.after {next : ChannelData} {moved : Multiset FilTask}
    (hflow : Flow g moved 0 ch next) (hsettles : Settles g channel next result) :
    Settles g channel ch result := by
  obtain ⟨ch', moved', hresult, hgood, hrest⟩ := hsettles
  have hboth := hflow.trans hrest
  exact ⟨ch', moved + moved', hresult, hgood, hboth⟩

variable (hcalls : Serves g channel depth calls.tsuNotifyChannelIdle)
include hcalls

/-- The test before a call of `tsu_notify_channel_idle`. -/
theorem settles_notifyIfIdle (hgood : Good g channel ch) (hdepth : queueLength g ch < depth) :
    Settles g channel ch (notifyIfIdle calls ch) := by
  unfold notifyIfIdle
  split
  next hidle => exact hcalls ch hgood hidle hdepth
  next => exact Settles.refl hgood

theorem settles_tsuNotifyChipIdle (chip : ℕ)
    (hgood : Good g channel ch) (hdepth : queueLength g ch < depth) :
    Settles g channel ch (tsuNotifyChipIdle g calls chip ch) := by
  unfold tsuNotifyChipIdle
  split
  next => exact Settles.refl hgood
  next hidle =>
    exact serves_dispatchRequest hcalls chip ch hgood (not_not.mp hidle) (Nat.lt_succ_of_lt hdepth)

theorem settles_notifyIdle (chip : ℕ)
    (hgood : Good g channel ch) (hdepth : queueLength g ch < depth) :
    Settles g channel ch (notifyIdle g calls chip ch) := by
  obtain ⟨next, moved, hcall, hnext, hflow⟩ := settles_notifyIfIdle hcalls hgood hdepth
  unfold notifyIdle
  rw [hcall]
  simp only [bind, Except.bind]
  apply Settles.after hflow
  split
  · apply settles_tsuNotifyChipIdle hcalls chip hnext
    have hlength := hflow.queueLength_eq
    omega
  · exact Settles.refl hnext

omit hcalls

/-- The data of a read goes out on the bus. -/
def ChannelData.sending (ch : ChannelData) (txn : FilTask) (waiting : List FilTask) : ChannelData :=
  { ch.setChip txn.chip
      { (ch.chips txn.chip).setDie txn.die (dataOut txn).data with
        status := .dataOut } with
    status := .busBusy
    waitingReadXfer := waiting }

theorem ChannelData.dieChange_sending (ch : ChannelData) (txn : FilTask) (waiting : List FilTask) :
    DieChange txn.chip txn.die (dataOut txn).data ch (ch.sending txn waiting) :=
  .of_update rfl rfl

section Sending

variable {txn : FilTask} {waiting : List FilTask}

/-- The first read that waits no longer does, and the others still do. -/
theorem Sound.waiting_tail (hsound : Sound g channel phases bus ch)
    (hwaiting : ch.waitingReadXfer = txn :: waiting)
    (hphase : phases txn.chip txn.die = .waiting txn) (other : FilTask) :
    other ∈ waiting ↔ phases.set txn.chip txn.die (.dataOut txn) other.chip
      other.die = .waiting other := by
  have hnodup := hsound.nodup
  rw [hwaiting, nodup_cons] at hnodup
  have hmem := hsound.waiting other
  rw [hwaiting, mem_cons] at hmem
  rw [Phases.set_apply]
  split
  next hsame =>
    rw [hsame.1, hsame.2, hphase] at hmem
    refine iff_of_false ?_ (by simp)
    intro hother
    cases hmem.mp (.inr hother)
    exact hnodup.1 hother
  next hne =>
    rw [← hmem]
    constructor
    · exact .inr
    · rintro (rfl | hother)
      · exact absurd ⟨rfl, rfl⟩ hne
      · exact hother

theorem Sound.sending (hsound : Sound g channel phases none ch)
    (hwaiting : ch.waitingReadXfer = txn :: waiting)
    (hphase : phases txn.chip txn.die = .waiting txn)
    (hon : txn.On g channel txn.chip txn.die) (hread : txn.type = .read) :
    Sound g channel (phases.set txn.chip txn.die (.dataOut txn))
      (some (.dataOut txn.chip txn.die)) (ch.sending txn waiting) := by
  apply hsound.move
  case hplaced =>
    intro other hother
    rw [mem_singleton.mp hother]
    exact hon
  case hallowed => exact hread
  case huses => exact hsound.uses_take (.inl rfl)
  case hchange => exact ch.dieChange_sending txn waiting
  case htallied =>
    apply (hsound.tallied txn.chip).change hon.die_lt (ch.dieChange_sending txn waiting).dies
    · simp [ChannelData.sending, ChannelData.setChip, setDie, hsound.dies, hphase, data]
    · simp [data]
  case hnone =>
    simp [ChannelData.sending, ChannelData.setChip, setDie, hsound.noneQueued]
  case hcurrent =>
    intro other
    simp [ChannelData.sending, ChannelData.setChip, setDie, hsound.current_iff]
  case hstatus => simp [ChannelData.sending]
  case hwaiting => exact hsound.waiting_tail hwaiting hphase
  case hnodup =>
    have hnodup := hsound.nodup
    rw [hwaiting, nodup_cons] at hnodup
    exact hnodup.2
  case hqueues => rfl
  case hprograms => exact hsound.programs
  case hrr => rfl

end Sending

/-- A read that waits gets the bus if it is free.  If the bus is still free
afterwards then none waits. -/
theorem startDataOutTransfer_spec (hsound : Sound g channel phases bus ch) :
    ∃ ch', startDataOutTransfer ch = .ok ch' ∧ Good g channel ch' ∧ Flow g 0 0 ch ch' ∧
      (ch'.status = .busIdle → ch' = ch ∧ ch.waitingReadXfer = []) := by
  unfold startDataOutTransfer
  by_cases hidle : ch.status = .busIdle
  · rw [if_neg (not_not.mpr hidle)]
    cases hwaiting : ch.waitingReadXfer with
    | nil => exact ⟨ch, rfl, ⟨phases, bus, hsound⟩, Flow.refl g ch, fun _ => ⟨rfl, rfl⟩⟩
    | cons txn waiting =>
      obtain rfl := hsound.bus_eq_none hidle
      have hphase : phases txn.chip txn.die = .waiting txn := by
        rw [← hsound.waiting, hwaiting]
        exact mem_cons_self
      have hon : txn.On g channel txn.chip txn.die := by
        apply hsound.placed
        rw [hphase]
        exact mem_singleton_self txn
      have hread : txn.type = .read := (hsound.at_phase hphase).2
      have hdata : (ch.chips txn.chip).dies txn.die = (DiePhase.waiting txn).data :=
        (hsound.at_phase hphase).1
      simp only [hdata]
      rw [if_neg (by simp [DiePhase.data]), if_neg (not_not.mpr hread)]
      refine ⟨ch.sending txn waiting, rfl, ⟨_, _, hsound.sending hwaiting hphase hon hread⟩, ?_, ?_⟩
      · apply Flow.of_phase hon.chip_lt hon.die_lt _ (ch.dieChange_sending txn waiting)
        · rw [hdata, DiePhase.readsOut_data (.dataOut txn) hread,
            readsOut_data (.waiting txn) hread]
          simp [sending, setChip, setDie, DiePhase.readsOut]
        · rfl
        · rfl
        · rfl
        · rfl
        · rw [hdata]
          rfl
      · intro hstatus
        cases hstatus
  · rw [if_pos hidle]
    exact ⟨ch, rfl, ⟨phases, bus, hsound⟩, Flow.refl g ch, fun hstatus => absurd hstatus hidle⟩

/-- A call returned and the books of the channel still balance, up to reads that
the counters of their chips keep. -/
def Handled (g : Geometry) (channel : ℕ) (leak : ℕ → BitVec 32) (ch : ChannelData)
    (result : SchedulerResult ChannelData) : Prop :=
  ∃ ch', result = .ok ch' ∧ Good g channel ch' ∧
    (∀ accepted, Account g accepted ch → Account g accepted ch') ∧
    ∀ chip, (ch'.chips chip).excess g = (ch.chips chip).excess g + leak chip

theorem Settles.keeps (hsettles : Settles g channel ch result) : Handled g channel 0 ch result := by
  obtain ⟨ch', moved, hresult, hgood, hflow⟩ := hsettles
  refine ⟨ch', hresult, hgood, fun accepted => hflow.account, fun chip => ?_⟩
  rw [hflow.excess_eq, Pi.zero_apply, add_zero]

theorem Settles.keeps_after {next : ChannelData} {leak : ℕ → BitVec 32}
    (hsettles : Settles g channel next result)
    (haccount : ∀ accepted, Account g accepted ch → Account g accepted next)
    (hleak : ∀ chip, (next.chips chip).excess g = (ch.chips chip).excess g + leak chip) :
    Handled g channel leak ch result := by
  obtain ⟨ch', moved, hresult, hgood, hflow⟩ := hsettles
  refine ⟨ch', hresult, hgood, fun accepted hbefore => hflow.account (haccount accepted hbefore),
    fun chip => ?_⟩
  rw [hflow.excess_eq, hleak]

/-- The task of a die that is not at rest. -/
theorem Sound.on_of_txns (hsound : Sound g channel phases bus ch) {chip die : ℕ} {txn : FilTask}
    (htxns : (phases chip die).data.activeTxns = [txn]) : txn.On g channel chip die := by
  apply hsound.placed
  rw [htxns]
  exact mem_singleton_self txn

/-- The data of a program is in. -/
theorem keeps_completeChipTransfer (hcalls : Serves g channel depth calls.tsuNotifyChannelIdle)
    (hgood : Good g channel ch) (hdepth : queueLength g ch < depth) {chip : ℕ}
    (hsome : (ch.chips chip).currentXfer.isSome) :
    Handled g channel 0 ch (completeChipTransfer calls chip ch) := by
  obtain ⟨phases, bus, hsound⟩ := hgood
  obtain ⟨die, hcurrent⟩ := Option.isSome_iff_exists.mp hsome
  have hbus := (hsound.current_iff chip die).mp hcurrent
  have hin := (hsound.current chip die).mp hcurrent
  cases hphase : phases chip die with
  | dataIn txn =>
    have hon : txn.On g channel chip die := hsound.on_of_txns (by rw [hphase]; rfl)
    have hwrite : txn.type = .write := (hsound.at_phase hphase).2
    obtain rfl := hon.chip_eq
    obtain rfl := hon.die_eq
    have hdump : txn.type ≠ .dump := by
      rw [hwrite]
      exact nofun
    have hdata : (ch.chips txn.chip).dies txn.die = (dataIn txn).data := (hsound.at_phase hphase).1
    have hconfirmed : Good g channel (ch.confirmed txn.chip txn) := by
      have hsame : DieChange txn.chip txn.die ((ch.chips txn.chip).dies txn.die) ch ch :=
        ⟨fun _ _ => rfl, (update_eq_self _ _).symm⟩
      refine ⟨_, _, hsound.confirmed hon hdump ?_ (.inr hphase) hsame rfl (hsound.noneQueued _)
        rfl rfl rfl rfl⟩
      rw [hbus, hphase]
      exact .inr rfl
    have hflow : Flow g 0 0 ch (ch.confirmed txn.chip txn) := by
      apply Flow.of_phase hon.chip_lt hon.die_lt _
        (.of_update (ch.confirmed_chips txn.chip txn) rfl)
      · rw [hdata, DiePhase.readsOut_data (.executing txn) hdump,
          readsOut_data (.dataIn txn) hwrite]
        simp [setDie, DiePhase.readsOut]
      · rfl
      · rfl
      · rfl
      · rfl
      · rw [hdata]
        rfl
    rw [completeChipTransfer_eq hcurrent hdata (hsound.noneQueued _)]
    apply Settles.keeps
    apply Settles.after hflow
    apply hcalls _ hconfirmed rfl
    have hlength := hflow.queueLength_eq
    omega
  | _ =>
    rw [hphase] at hin
    exact hin.elim

/-- The array operation of a read is over and its data waits for the bus. -/
def ChannelData.fetched (ch : ChannelData) (chip : ℕ) (txn : FilTask) : ChannelData :=
  let data := ch.chips chip
  { ch.setChip chip
      { data.setDie txn.die (waiting txn).data with
        activeDies := data.activeDies - 1
        status :=
          if data.activeDies - 1 = 0 then .waitForDataOut else data.status
        nrWaitingReadXfers := data.nrWaitingReadXfers + 1 } with
    waitingReadXfer := ch.waitingReadXfer ++ [txn] }

/-- The array operation of a program or an erase is over. -/
def ChannelData.finished (ch : ChannelData) (chip : ℕ) (txn : FilTask)
    (error : Bool) : ChannelData :=
  let data := ch.chips chip
  { ch.setChip chip
      { data.setDie txn.die idle.data with
        activeDies := data.activeDies - 1
        status := if data.activeDies - 1 = 0 then .idle else data.status } with
    reported := ch.reported ++ [(txn, error)] }

theorem ChannelData.dieChange_fetched (ch : ChannelData) (chip : ℕ) (txn : FilTask) :
    DieChange chip txn.die (waiting txn).data ch (ch.fetched chip txn) :=
  .of_update rfl rfl

theorem ChannelData.dieChange_finished (ch : ChannelData) (chip : ℕ) (txn : FilTask)
    (error : Bool) : DieChange chip txn.die idle.data ch (ch.finished chip txn error) :=
  .of_update rfl rfl

section Done

variable {txn : FilTask} {chip : ℕ}

theorem completeDieCommand_read (error : Bool)
    (hdata : (ch.chips chip).dies txn.die = (executing txn).data) (hread : txn.type = .read) :
    completeDieCommand g calls chip txn.die error ch =
      (startDataOutTransfer (ch.fetched chip txn)).bind (notifyIdle g calls chip) := by
  have hcode : txn.command.code.isRead = true := by
    simp [command, hread, flashCommandCode, FlashCommandCode.isRead]
  unfold completeDieCommand
  simp only [hdata, data, hcode, Bool.not_true, Bool.and_false, Bool.not_false, Bool.and_true]
  rfl

theorem completeDieCommand_other (error : Bool)
    (hdata : (ch.chips chip).dies txn.die = (executing txn).data)
    (hdump : txn.type ≠ .dump) (hread : txn.type ≠ .read) :
    completeDieCommand g calls chip txn.die error ch =
      notifyIdle g calls chip (ch.finished chip txn error) := by
  have hcode : txn.command.code.isRead = false := by
    unfold command
    cases hcase : txn.type <;>
      simp_all [flashCommandCode, FlashCommandCode.isRead]
  unfold completeDieCommand
  simp only [hdata, data, hcode, Bool.not_false, Bool.and_true, Bool.false_and]
  rfl

def ChannelData.sent (ch : ChannelData) (chip : ℕ) (txn : FilTask) : ChannelData :=
  let data := ch.chips chip
  let done := data.setDie txn.die idle.data
  { ch.setChip chip
      (if data.activeDies = 0 then
        { done with
          nrWaitingReadXfers := data.nrWaitingReadXfers - 1
          status :=
            if data.nrWaitingReadXfers - 1 = 0 then .idle
            else .waitForDataOut }
      else done) with
    status := .busIdle
    reported := ch.reported ++ [(txn, false)] }

theorem ChannelData.dieChange_sent (ch : ChannelData) (chip : ℕ) (txn : FilTask) :
    DieChange chip txn.die idle.data ch (ch.sent chip txn) := by
  refine .of_update rfl ?_
  split <;> rfl

theorem ChannelData.sent_chip (ch : ChannelData) (chip : ℕ) (txn : FilTask) :
    ((ch.sent chip txn).chips chip).cmdXferQueue = (ch.chips chip).cmdXferQueue ∧
      ((ch.sent chip txn).chips chip).currentXfer = (ch.chips chip).currentXfer ∧
      ((ch.sent chip txn).chips chip).activeDies = (ch.chips chip).activeDies := by
  simp only [sent, setChip, update_self]
  split
  · exact ⟨rfl, rfl, rfl⟩
  · exact ⟨rfl, rfl, rfl⟩

theorem completeDataOutTransfer_eq (hdata : (ch.chips chip).dies txn.die = (dataOut txn).data) :
    completeDataOutTransfer calls chip txn.die ch =
      calls.tsuNotifyChannelIdle (ch.sent chip txn) := by
  unfold completeDataOutTransfer
  simp only [hdata, data, erase_cons_head]
  rfl

variable (hsound : Sound g channel phases bus ch)
include hsound

theorem Sound.fetched {chip : ℕ} (hphase : phases chip txn.die = .executing txn)
    (hon : txn.On g channel chip txn.die) (hread : txn.type = .read) :
    Sound g channel (phases.set chip txn.die (.waiting txn)) bus (ch.fetched chip txn) := by
  obtain rfl := hon.chip_eq
  have hnew : txn ∉ ch.waitingReadXfer := by
    rw [hsound.waiting, hphase]
    exact nofun
  apply hsound.move
  case hplaced =>
    intro other hother
    rw [mem_singleton.mp hother]
    exact hon
  case hallowed => exact hread
  case huses => exact hsound.uses_keep (by rw [hphase]; rfl) rfl
  case hchange => exact ch.dieChange_fetched _ txn
  case htallied =>
    apply (hsound.tallied _).change hon.die_lt (ch.dieChange_fetched _ txn).dies
    · simp [ChannelData.fetched, ChannelData.setChip, setDie, hsound.dies, hphase, data]
    · simp [data]
  case hnone =>
    simp [ChannelData.fetched, ChannelData.setChip, setDie, hsound.noneQueued]
  case hcurrent =>
    intro other
    simp [ChannelData.fetched, ChannelData.setChip, setDie, hsound.current_iff]
  case hstatus => exact hsound.status
  case hwaiting =>
    intro other
    have hmem := hsound.waiting other
    rw [Phases.set_apply]
    split
    next hsame =>
      rw [hsame.1, hsame.2, hphase] at hmem
      have hnone : other ∉ ch.waitingReadXfer := by simp [hmem]
      simp [ChannelData.fetched, hnone, eq_comm]
    next hne =>
      have hother : other ≠ txn := by
        rintro rfl
        exact hne ⟨rfl, rfl⟩
      rw [← hmem]
      simp [ChannelData.fetched, hother]
  case hnodup =>
    apply List.Nodup.append hsound.nodup (nodup_singleton txn)
    rw [disjoint_singleton]
    exact hnew
  case hqueues => rfl
  case hprograms => exact hsound.programs
  case hrr => rfl

theorem Sound.finished {chip : ℕ} (error : Bool) (hphase : phases chip txn.die = .executing txn)
    (hon : txn.On g channel chip txn.die) :
    Sound g channel (phases.set chip txn.die .idle) bus (ch.finished chip txn error) := by
  apply hsound.move
  case hplaced =>
    intro other hother
    exact absurd hother not_mem_nil
  case hallowed => trivial
  case huses => exact hsound.uses_keep (by rw [hphase]; rfl) rfl
  case hchange => exact ch.dieChange_finished chip txn error
  case htallied =>
    have hactive := (hsound.tallied chip).active_of_change hon.die_lt
      (ch.dieChange_finished chip txn error).dies (by
        simp [ChannelData.finished, ChannelData.setChip, setDie, hsound.dies, hphase, data])
    refine ⟨hactive, fun _ hidle => ?_⟩
    rw [hsound.count_of_allIdle (ch.dieChange_finished chip txn error) hidle rfl] at hactive
    simp only [ChannelData.finished, ChannelData.setChip, update_self] at hactive ⊢
    exact if_pos hactive
  case hnone =>
    simp [ChannelData.finished, ChannelData.setChip, setDie, hsound.noneQueued]
  case hcurrent =>
    intro other
    simp [ChannelData.finished, ChannelData.setChip, setDie, hsound.current_iff]
  case hstatus => exact hsound.status
  case hwaiting => exact hsound.waiting_keep (by simp [hphase]) (by simp)
  case hnodup => exact hsound.nodup
  case hqueues => rfl
  case hprograms => exact hsound.programs
  case hrr => rfl

theorem Sound.sent {chip : ℕ}
    (hphase : phases chip txn.die = .dataOut txn) (hon : txn.On g channel chip txn.die) :
    Sound g channel (phases.set chip txn.die .idle) none (ch.sent chip txn) := by
  have hchange := ch.dieChange_sent chip txn
  have hbus : bus = some (.dataOut chip txn.die) := by
    apply hsound.transfer_eq
    rw [hphase]
    rfl
  apply hsound.move
  case hplaced =>
    intro other hother
    exact absurd hother not_mem_nil
  case hallowed => trivial
  case huses =>
    apply hsound.uses_take
    rw [hphase]
    exact .inr hbus
  case hchange => exact hchange
  case htallied =>
    have hactive := (hsound.tallied chip).active_of_change hon.die_lt hchange.dies (by
      rw [(ch.sent_chip chip txn).2.2, hsound.dies, hphase]
      rfl)
    refine ⟨hactive, fun hexcess hidle => ?_⟩
    rw [hsound.count_of_allIdle hchange hidle rfl, (ch.sent_chip chip txn).2.2] at hactive
    rw [ChipData.excess, ChipData.readsOut, hsound.count_of_allIdle hchange hidle rfl] at hexcess
    simp only [ChannelData.sent, setChip, update_self] at hexcess ⊢
    have hnone : (ch.chips chip).activeDies = 0 := hactive
    rw [if_pos hnone] at hexcess ⊢
    exact if_pos (by simpa using hexcess)
  case hnone =>
    rw [(ch.sent_chip chip txn).1]
    exact hsound.noneQueued chip
  case hcurrent =>
    intro other
    rw [(ch.sent_chip chip txn).2.1, hsound.current_iff, hbus]
    simp
  case hstatus => simp [ChannelData.sent]
  case hwaiting => exact hsound.waiting_keep (by simp [hphase]) (by simp)
  case hnodup => exact hsound.nodup
  case hqueues => rfl
  case hprograms => exact hsound.programs
  case hrr => rfl

omit hsound

/-- The array operation of a die is over. -/
theorem keeps_completeDieCommand (hcalls : Serves g channel depth calls.tsuNotifyChannelIdle)
    (hgood : Good g channel ch) (hdepth : queueLength g ch < depth) {chip die : ℕ} (error : Bool)
    (hsome : ((ch.chips chip).dies die).currentCmd.isSome) :
    Handled g channel 0 ch (completeDieCommand g calls chip die error ch) := by
  obtain ⟨phases, bus, hsound⟩ := hgood
  rw [hsound.dies] at hsome
  cases hphase : phases chip die with
  | executing txn =>
    have hon : txn.On g channel chip die := hsound.on_of_txns (by rw [hphase]; rfl)
    have hdump : txn.type ≠ .dump := (hsound.at_phase hphase).2
    obtain rfl := hon.die_eq
    have hdata : (ch.chips chip).dies txn.die = (executing txn).data := (hsound.at_phase hphase).1
    by_cases hread : txn.type = .read
    · rw [completeDieCommand_read error hdata hread]
      have hflow : Flow g 0 0 ch (ch.fetched chip txn) := by
        apply Flow.of_phase hon.chip_lt hon.die_lt _ (ch.dieChange_fetched chip txn)
        · rw [hdata, DiePhase.readsOut_data (.waiting txn) hread,
            readsOut_data (.executing txn) hdump]
          simp [fetched, setChip, setDie, DiePhase.readsOut]
        · rfl
        · rfl
        · rfl
        · rfl
        · rw [hdata]
          rfl
      obtain ⟨next, hstart, hnext, hsend, -⟩ :=
        startDataOutTransfer_spec (hsound.fetched hphase hon hread)
      rw [hstart]
      apply Settles.keeps
      apply Settles.after hflow
      apply Settles.after hsend
      apply settles_notifyIdle hcalls chip hnext
      have hlength := (hflow.trans hsend).queueLength_eq
      omega
    · rw [completeDieCommand_other error hdata hdump hread]
      have hfinished : Good g channel (ch.finished chip txn error) :=
        ⟨_, _, hsound.finished error hphase hon⟩
      have hchange := ch.dieChange_finished chip txn error
      apply (settles_notifyIdle hcalls chip hfinished hdepth).keeps_after
      · intro accepted haccount
        apply haccount.report hon.chip_lt hon.die_lt _ hchange
        · rfl
        · rfl
        · rfl
        · rfl
        · rw [hdata]
          rfl
      · intro other
        by_cases hother : other = chip
        · subst hother
          apply excess_of_change hon.die_lt hchange.dies
          rw [hdata, readsOut_data (.executing txn) hdump]
          simp [finished, setChip, setDie, DiePhase.readsOut, readsOut_data .idle trivial]
        · rw [hchange.others other hother, Pi.zero_apply, add_zero]
  | _ =>
    rw [hphase] at hsome
    cases hsome

/-- The counter keeps a read whose data goes out while other dies are active. -/
theorem keeps_completeDataOutTransfer (hcalls : Serves g channel depth calls.tsuNotifyChannelIdle)
    (hgood : Good g channel ch) (hdepth : queueLength g ch < depth)
    {chip die : ℕ} (hsome : ((ch.chips chip).dies die).activeXfer.isSome) :
    Handled g channel (Pi.single chip (if (ch.chips chip).activeDies = 0 then 0 else 1)) ch
      (completeDataOutTransfer calls chip die ch) := by
  obtain ⟨phases, bus, hsound⟩ := hgood
  rw [hsound.dies] at hsome
  cases hphase : phases chip die with
  | dataOut txn =>
    have hon : txn.On g channel chip die := hsound.on_of_txns (by rw [hphase]; rfl)
    obtain rfl := hon.die_eq
    have hdata : (ch.chips chip).dies txn.die = (dataOut txn).data := (hsound.at_phase hphase).1
    have hread : txn.type = .read := (hsound.at_phase hphase).2
    have hsent : Good g channel (ch.sent chip txn) := ⟨_, _, hsound.sent hphase hon⟩
    have hchange := ch.dieChange_sent chip txn
    rw [completeDataOutTransfer_eq hdata]
    apply (hcalls _ hsent rfl hdepth).keeps_after
    · intro accepted haccount
      apply haccount.report hon.chip_lt hon.die_lt _ hchange
      · rfl
      · rfl
      · rfl
      · rfl
      · rw [hdata]
        rfl
    · intro other
      by_cases hother : other = chip
      · subst hother
        apply excess_of_change hon.die_lt hchange.dies
        rw [hdata, readsOut_data (.dataOut txn) hread,
          readsOut_data .idle trivial, Pi.single_eq_same]
        simp only [sent, setChip, update_self]
        split <;> simp [DiePhase.readsOut, setDie]
      · rw [hchange.others other hother, Pi.single_eq_of_ne hother, add_zero]
  | _ =>
    rw [hphase] at hsome
    cases hsome

end Done

/-- The pass over the channels at the end of a tick. -/
theorem settles_pollChannel (hcalls : Serves g channel depth calls.tsuNotifyChannelIdle)
    (hgood : Good g channel ch) (hdepth : queueLength g ch < depth) :
    Settles g channel ch (pollChannel calls ch) := by
  obtain ⟨phases, bus, hsound⟩ := hgood
  obtain ⟨next, hstart, hnext, hflow, -⟩ := startDataOutTransfer_spec hsound
  unfold pollChannel
  rw [hstart]
  apply Settles.after hflow
  apply settles_notifyIfIdle hcalls hnext
  have hlength := hflow.queueLength_eq
  omega

end Steps

end Soda
