import Soda.Flash.Completions

/-!
# Runs of the flash processor

In every run every task is where it should be, the bus and the dies are used
as the flash allows, and no assertion fails.  A pass over the channels leaves
no task behind: if no die has work afterwards then every task that was
accepted has been reported.
-/

namespace Soda

open Function Scheduler List Multiset Finset Option DiePhase FilTask DieData

section Drain

variable {g : Geometry} {channel depth : ℕ} {phases : Phases} {bus : Option Transfer}
  {ch ch' : ChannelData}

theorem Sound.idle_of_active (hsound : Sound g channel phases bus ch)
    (hactive : active g ch = 0) (chip die : ℕ) : phases chip die = .idle := by
  have hnone : (phases chip die).data.activeTxns = [] := by
    by_contra hsome
    obtain ⟨txn, htxn⟩ := exists_mem_of_ne_nil _ hsome
    have hon := hsound.placed chip die txn htxn
    have hchip := Finset.sum_eq_zero_iff.mp hactive chip (Finset.mem_range.mpr hon.chip_lt)
    have hdie := Finset.sum_eq_zero_iff.mp hchip die (Finset.mem_range.mpr hon.die_lt)
    rw [hsound.dies, coe_eq_zero] at hdie
    exact hsome hdie
  cases hphase : phases chip die with
  | idle => rfl
  | _ =>
    rw [hphase] at hnone
    cases hnone

/-- No die is busy when none has a task. -/
theorem Sound.not_busy_of_active (hsound : Sound g channel phases bus ch)
    (hactive : active g ch = 0) (chip die : ℕ) (isProgram : Bool) :
    filIsDieBusy g (ch.chips chip) die isProgram = false := by
  have hdies : ∀ die, (ch.chips chip).dies die = idle.data := by
    intro die
    rw [hsound.dies, hsound.idle_of_active hactive]
  simp [filIsDieBusy, hdies, data, blocksProgram]

variable {queues : TxnQueue → List FilTask} {chip : ℕ}

/-- Queues are chosen only if they have a task. -/
theorem queues_ne_nil {choice : Option (TxnQueue × Option TxnQueue)}
    (hchoice : choice = readQueues queues ∨ choice = writeQueues queues ∨
      choice = eraseQueues queues) {prim : TxnQueue} {sec : Option TxnQueue}
    (hsome : choice = some (prim, sec)) : queues prim ≠ [] := by
  rcases hchoice with rfl | rfl | rfl
  · unfold readQueues at hsome
    split_ifs at hsome <;> cases hsome <;> assumption
  · unfold writeQueues at hsome
    split_ifs at hsome <;> cases hsome <;> assumption
  · unfold eraseQueues at hsome
    split_ifs at hsome
    cases hsome
    assumption

/-- If no queues are chosen then there are no tasks. -/
theorem eq_nil_of_queues (hread : readQueues queues = none) (hwrite : writeQueues queues = none)
    (herase : eraseQueues queues = none) (queue : TxnQueue) : queues queue = [] := by
  simp only [readQueues, writeQueues, eraseQueues] at hread hwrite herase
  cases queue <;> grind

/-- A chip whose dies are all idle is stuck only with empty queues. -/
theorem Stuck.queues_eq_nil (hstuck : Stuck g ch chip) (hsound : Sound g channel phases bus ch)
    (hactive : active g ch = 0) (queue : TxnQueue) : ch.queues chip queue = [] := by
  have hempty : ∀ queue, FrontBusy g ch chip queue → ch.queues chip queue = [] := by
    intro queue hfront
    cases hqueue : ch.queues chip queue with
    | nil => rfl
    | cons txn rest =>
      have hbusy := hfront txn (by rw [hqueue]; rfl)
      rw [hsound.not_busy_of_active hactive] at hbusy
      cases hbusy
  apply eq_nil_of_queues
  · cases hchoice : readQueues (ch.queues chip) with
    | none => rfl
    | some choice =>
      exact absurd (hempty _ (hstuck.read choice.1 choice.2 hchoice))
        (queues_ne_nil (.inl rfl) hchoice)
  · cases hchoice : writeQueues (ch.queues chip) with
    | none => rfl
    | some choice =>
      exact absurd (hempty _ (hstuck.write choice.1 choice.2 hchoice))
        (queues_ne_nil (.inr (.inl rfl)) hchoice)
  · cases hchoice : eraseQueues (ch.queues chip) with
    | none => rfl
    | some choice =>
      exact absurd (hempty _ (hstuck.erase choice.1 choice.2 hchoice))
        (queues_ne_nil (.inr (.inr rfl)) hchoice)

/-- A chip whose counter is zero has empty queues. -/
theorem queues_eq_nil_of_count (hahead : ahead ch = 0)
    (hcount : ch.requestCount chip = 0) (queue : TxnQueue) : ch.queues chip queue = [] := by
  have hzero := congrFun hahead chip
  rw [ahead, hcount, Pi.zero_apply, zero_sub, neg_eq_zero] at hzero
  have hlength := (sum_eq_zero_iff_of_nonneg
    (fun _ _ => Int.natCast_nonneg _)).mp hzero queue (mem_univ queue)
  exact length_eq_zero_iff.mp (by exact_mod_cast hlength)

/-- One round visits every chip. -/
theorem exists_roundChip (hrr : ch.rrIndex < g.chipsPerChannel) (hchip : chip < g.chipsPerChannel) :
    ∃ turn < g.chipsPerChannel, roundChip g ch turn = chip := by
  by_cases hle : ch.rrIndex ≤ chip
  · refine ⟨chip - ch.rrIndex, by omega, ?_⟩
    rw [roundChip, Nat.add_sub_cancel' hle, Nat.mod_eq_of_lt hchip]
  · refine ⟨chip + g.chipsPerChannel - ch.rrIndex, by omega, ?_⟩
    have hsum : ch.rrIndex + (chip + g.chipsPerChannel - ch.rrIndex) =
        chip + g.chipsPerChannel := by
      omega
    rw [roundChip, hsum, Nat.add_mod_right, Nat.mod_eq_of_lt hchip]

/-- A call of `tsu_notify_channel_idle` that leaves every die at rest leaves
the queues empty. -/
theorem tsuFlushChannel_drains {calls : Callbacks}
    (hcalls : Serves g channel depth calls.tsuNotifyChannelIdle)
    (hgood : Good g channel ch) (hahead : ahead ch = 0)
    (hidle : ch.status = .busIdle) (hdepth : queueLength g ch ≤ depth)
    (hflush : tsuFlushChannel g calls ch = .ok ch')
    (hactive : active g ch' = 0) : queued g ch' = 0 := by
  obtain ⟨phases, bus, hsound⟩ := hgood
  obtain ⟨last, moved, hcall, -, hflow, hstuck⟩ :=
    flushChips_spec hcalls g.chipsPerChannel ⟨phases, bus, hsound⟩ hidle hdepth
  rw [tsuFlushChannel, hcall] at hflush
  cases hflush
  have hnone := hflow.active_eq
  rw [hactive] at hnone
  obtain ⟨rfl, hrest⟩ := add_eq_zero.mp hnone.symm
  have hempty : queued g ch = 0 := by
    apply Finset.sum_eq_zero
    intro chip hchip
    apply Finset.sum_eq_zero
    intro queue _
    rw [coe_eq_zero]
    obtain ⟨turn, hturn, rfl⟩ := exists_roundChip hsound.rr_lt (Finset.mem_range.mp hchip)
    rcases hstuck rfl turn hturn with hcount | hbusy
    · exact queues_eq_nil_of_count hahead hcount queue
    · exact hbusy.queues_eq_nil hsound hrest queue
  have hqueued := hflow.queued_eq
  rw [hempty, zero_add] at hqueued
  exact hqueued.symm

/-- A pass over a channel that leaves every die at rest leaves its queues
empty. -/
theorem pollChannel_drains (hgood : Good g channel ch) (hahead : ahead ch = 0)
    (hdepth : queueLength g ch ≤ depth) (hpoll : pollChannel (callbacks g (depth + 1)) ch = .ok ch')
    (hactive : active g ch' = 0) : queued g ch' = 0 := by
  obtain ⟨phases, bus, hsound⟩ := hgood
  obtain ⟨next, hstart, ⟨phases', bus', hnext⟩, -, hidle⟩ := startDataOutTransfer_spec hsound
  rw [pollChannel, hstart] at hpoll
  change notifyIfIdle (callbacks g (depth + 1)) next = .ok ch' at hpoll
  unfold notifyIfIdle at hpoll
  split at hpoll
  next hstatus =>
    obtain ⟨rfl, -⟩ := hidle hstatus
    exact tsuFlushChannel_drains (serves_callbacks g channel depth)
      ⟨phases, bus, hsound⟩ hahead hstatus hdepth hpoll hactive
  next hstatus =>
    -- A busy bus has a die with a task at one end.
    cases hpoll
    cases hbus : bus' with
    | none => exact absurd (hnext.idle_iff.mpr hbus) hstatus
    | some transfer =>
      obtain ⟨chip, die, htransfer⟩ :=
        (Phases.uses_iff transfer).mp ((hnext.uses transfer).mpr hbus)
      rw [hnext.idle_of_active hactive] at htransfer
      cases htransfer

end Drain

section Runs

variable (g : Geometry)

namespace Scheduler

def queued (s : Scheduler) : Multiset FilTask :=
  ∑ channel ∈ range g.nrChannels, Soda.queued g (s.channels channel)

def active (s : Scheduler) : Multiset FilTask :=
  ∑ channel ∈ range g.nrChannels, Soda.active g (s.channels channel)

def completed (s : Scheduler) : Multiset FilTask :=
  ∑ channel ∈ range g.nrChannels, Soda.completed (s.channels channel)

def dispatched (s : Scheduler) : Multiset FilTask :=
  ∑ channel ∈ range g.nrChannels, ((s.channels channel).dispatched : Multiset FilTask)

def tasksOn (tasks : List FilTask) (channel : ℕ) : List FilTask :=
  tasks.filter fun txn => txn.channel = channel

/-- The invariant of the flash processor, with the excess of each counter of
waiting reads. -/
structure Inv (excess : ℕ → ℕ → BitVec 32) (s : Scheduler) : Prop where
  good : ∀ channel, Good g channel (s.channels channel)
  account : ∀ channel, Account g (tasksOn s.accepted channel) (s.channels channel)
  serials : s.accepted.map serial = List.range s.accepted.length
  channel_lt : ∀ txn ∈ s.accepted, txn.channel < g.nrChannels
  excess_eq : ∀ channel chip, ((s.channels channel).chips chip).excess g = excess channel chip

variable {g} {s s' : Scheduler} {excess : ℕ → ℕ → BitVec 32}

theorem inv_init : init.Inv g 0 where
  good _ := ⟨_, _, Sound.init⟩
  account _ :=
    { held := by
        simp [tasksOn, Soda.queued, Soda.active, Soda.completed, init,
          ChannelData.init, ChipData.init, DieData.init]
      dispatched := by
        simp [Soda.active, Soda.completed, init, ChannelData.init,
          ChipData.init, DieData.init]
      counted := by
        funext chip
        simp [ahead, init, ChannelData.init]
      inLine := fun _ _ _ => rfl }
  serials := rfl
  channel_lt _ htxn := absurd htxn not_mem_nil
  excess_eq _ _ := by
    simp [ChipData.excess, ChipData.readsOut, ChipData.count, DieData.readsOut, init,
      ChannelData.init, ChipData.init, DieData.init]

variable (hinv : s.Inv g excess)
include hinv

/-- Each accepted task belongs to one channel. -/
theorem sum_tasksOn :
    ∑ channel ∈ range g.nrChannels, (tasksOn s.accepted channel : Multiset FilTask) =
      s.accepted := by
  have hsum : ∀ tasks : Multiset FilTask, (∀ txn ∈ tasks, txn.channel < g.nrChannels) →
      ∑ channel ∈ range g.nrChannels, filter (fun txn => txn.channel = channel) tasks = tasks := by
    intro tasks
    induction tasks using Multiset.induction with
    | empty => simp
    | cons txn tasks ih =>
      intro hlt
      have hhead : txn.channel ∈ Finset.range g.nrChannels :=
        Finset.mem_range.mpr (hlt txn (mem_cons_self txn tasks))
      have htail := ih fun other hother => hlt other (mem_cons_of_mem hother)
      simp only [Multiset.filter_cons, sum_add_distrib, htail,
        sum_ite_eq, if_pos hhead, Multiset.singleton_add]
  exact hsum s.accepted hinv.channel_lt

/-- The books of all the channels together. -/
theorem Inv.held : s.queued g + s.active g + s.completed g = s.accepted := by
  rw [← sum_tasksOn hinv, queued, active, completed, ← sum_add_distrib, ← sum_add_distrib]
  exact sum_congr rfl fun channel _ => (hinv.account channel).held

theorem Inv.dispatched_eq : s.dispatched g = s.active g + s.completed g := by
  rw [dispatched, active, completed, ← sum_add_distrib]
  exact sum_congr rfl fun channel _ => (hinv.account channel).dispatched

theorem Inv.nodup : s.accepted.Nodup := by
  apply List.Nodup.of_map serial
  rw [hinv.serials]
  exact nodup_range

variable {channel : ℕ} {call : Callbacks → ChannelData → SchedulerResult ChannelData}
  {event : SchedulerEvent}

/-- One channel was served. -/
theorem Inv.onChannel {leak : ℕ → BitVec 32}
    (hkeeps : Handled g channel leak (s.channels channel)
      (call (callbacks g (queueLength g (s.channels channel) + 1)) (s.channels channel))) :
    ∃ s', Soda.onChannel g channel call s = .ok s' ∧
      s'.Inv g (excess + Pi.single channel leak) := by
  obtain ⟨next, hcall, hgood, haccount, hleak⟩ := hkeeps
  refine ⟨{ s with channels := update s.channels channel next }, ?_, ?_⟩
  · simp only [Soda.onChannel, hcall]
    rfl
  · constructor
    · intro other
      by_cases hother : other = channel
      · subst hother
        simpa using hgood
      · simpa [hother] using hinv.good other
    · intro other
      by_cases hother : other = channel
      · subst hother
        simpa using haccount _ (hinv.account other)
      · simpa [hother] using hinv.account other
    · exact hinv.serials
    · exact hinv.channel_lt
    · intro other chip
      by_cases hother : other = channel
      · subst hother
        simp [hleak, hinv.excess_eq]
      · simp [hother, hinv.excess_eq]

theorem Inv.onChannel_settles
    (hkeeps : Handled g channel 0 (s.channels channel)
      (call (callbacks g (queueLength g (s.channels channel) + 1)) (s.channels channel))) :
    ∃ s', Soda.onChannel g channel call s = .ok s' ∧ s'.Inv g excess := by
  have hserved := hinv.onChannel hkeeps
  rw [Pi.single_zero, add_zero] at hserved
  exact hserved

/-- A pass over channels, each of which can be served. -/
theorem Inv.foldlM {serve : Scheduler → ℕ → SchedulerResult Scheduler}
    (hserve : ∀ s channel, s.Inv g excess → ∃ s', serve s channel = .ok s' ∧ s'.Inv g excess)
    (channels : List ℕ) : ∃ s', channels.foldlM serve s = .ok s' ∧ s'.Inv g excess := by
  induction channels generalizing s with
  | nil => exact ⟨s, rfl, hinv⟩
  | cons channel channels ih =>
    obtain ⟨next, hnext, hinv'⟩ := hserve s channel hinv
    rw [foldlM_cons, hnext]
    exact ih hinv'

theorem Inv.tsuFlushQueues : ∃ s', Soda.tsuFlushQueues g s = .ok s' ∧ s'.Inv g excess := by
  apply hinv.foldlM
  intro s channel hinv
  by_cases hidle : (s.channels channel).status = .busIdle
  · rw [if_neg (not_not.mpr hidle)]
    apply hinv.onChannel_settles
    apply Settles.keeps
    apply serves_tsuFlushChannel (serves_callbacks g channel _) _ (hinv.good channel) hidle
    omega
  · rw [if_pos hidle]
    exact ⟨s, rfl, hinv⟩

theorem Inv.pollChannel (channel : ℕ) :
    ∃ s', Soda.onChannel g channel Soda.pollChannel s = .ok s' ∧ s'.Inv g excess := by
  apply hinv.onChannel_settles
  apply Settles.keeps
  apply settles_pollChannel (serves_callbacks g channel _) (hinv.good channel)
  omega

theorem Inv.pollChannels : ∃ s', Soda.pollChannels g s = .ok s' ∧ s'.Inv g excess :=
  hinv.foldlM (fun _ channel hinv => hinv.pollChannel channel) _

omit hinv

theorem exists_txnQueue {type : FilTaskType} (source : FilTaskSource)
    (hdump : type ≠ .dump) : ∃ queue, txnQueue type source = some queue := by
  cases type <;> cases source <;> first | exact ⟨_, rfl⟩ | contradiction

theorem tasksOn_append (tasks : List FilTask) (txn : FilTask) (channel : ℕ) :
    tasksOn (tasks ++ [txn]) channel =
      if txn.channel = channel then tasksOn tasks channel ++ [txn] else tasksOn tasks channel := by
  split <;> simp_all [tasksOn]

/-- The reads that an event takes off their dies and not off the counters. -/
def leak (s : Scheduler) : SchedulerEvent → ℕ → ℕ → BitVec 32
  | .dataOutDone channel chip _ => Pi.single channel (Pi.single chip
      (if ((s.channels channel).chips chip).activeDies = 0 then 0 else 1))
  | _ => 0

/-- What a pass over distinct channels does to each of them. -/
theorem channels_of_foldlM
    {channels : List ℕ} (hnodup : channels.Nodup) (hfold : channels.foldlM
      (fun s channel => Soda.onChannel g channel call s) s = .ok s') :
    (∀ channel ∉ channels, s'.channels channel = s.channels channel) ∧ ∀ channel ∈ channels,
        call (callbacks g (queueLength g (s.channels channel) + 1))
          (s.channels channel) = .ok (s'.channels channel) := by
  induction channels generalizing s with
  | nil =>
    cases hfold
    exact ⟨fun _ _ => rfl, fun _ hmem => absurd hmem not_mem_nil⟩
  | cons first channels ih =>
    obtain ⟨hfirst, hrest⟩ := nodup_cons.mp hnodup
    rw [foldlM_cons] at hfold
    cases hcall : call (callbacks g (queueLength g (s.channels first) + 1)) (s.channels first) with
    | error fault =>
      simp only [Soda.onChannel, hcall] at hfold
      cases hfold
    | ok next =>
      simp only [Soda.onChannel, hcall] at hfold
      obtain ⟨houtside, hinside⟩ := ih hrest hfold
      constructor
      · intro channel hmem
        rw [List.mem_cons, not_or] at hmem
        rw [houtside channel hmem.2]
        exact update_of_ne hmem.1 _ _
      · intro channel hmem
        rcases mem_cons.mp hmem with rfl | hlater
        · rw [houtside channel hfirst, hcall]
          simp only [update_self]
        · have hne : channel ≠ first := by
            rintro rfl
            exact hfirst hlater
          have hlast := hinside channel hlater
          simp only [update_of_ne hne] at hlast
          exact hlast

variable (hinv : s.Inv g excess)
include hinv

theorem Inv.tsuProcessTask {request : FilRequest} (hdump : request.type ≠ .dump)
    (hdie : request.addr.planeAddr.die < g.diesPerChip) :
    ∃ s', Soda.tsuProcessTask g request s = .ok s' ∧ s'.Inv g excess := by
  unfold Soda.tsuProcessTask
  dsimp only
  split
  next =>
    exact ⟨_, rfl, hinv.good, hinv.account, hinv.serials, hinv.channel_lt, hinv.excess_eq⟩
  next hrange =>
    rw [not_or, not_le, not_le] at hrange
    obtain ⟨queue, hqueue⟩ := exists_txnQueue request.source hdump
    rw [hqueue]
    refine ⟨_, rfl, ?_, ?_, ?_, ?_, ?_⟩
    · intro channel
      by_cases hchannel : channel = request.addr.planeAddr.channel
      · subst hchannel
        simp only [update_self]
        exact (hinv.good _).enqueue hqueue ⟨rfl, rfl, rfl, hrange.2, hdie⟩
      · simp only [update_of_ne hchannel]
        exact hinv.good channel
    · intro channel
      have hself : (⟨s.accepted.length, request⟩ : FilTask).channel =
          request.addr.planeAddr.channel := rfl
      rw [tasksOn_append, hself]
      by_cases hchannel : channel = request.addr.planeAddr.channel
      · subst hchannel
        simp only [update_self]
        exact (hinv.account _).enqueue hrange.2 hqueue
      · rw [if_neg (Ne.symm hchannel)]
        simp only [update_of_ne hchannel]
        exact hinv.account channel
    · simp [hinv.serials, List.range_succ]
    · intro txn htxn
      rcases mem_append.mp htxn with hbefore | hnew
      · exact hinv.channel_lt txn hbefore
      · rw [List.mem_singleton.mp hnew]
        exact hrange.1
    · intro channel chip
      rw [← hinv.excess_eq]
      by_cases hchannel : channel = request.addr.planeAddr.channel
      · subst hchannel
        simp only [update_self]
        rfl
      · simp only [update_of_ne hchannel]

/-- Whatever happens next is handled without a fault. -/
theorem Inv.handle (hpossible : event.Possible g s) :
    ∃ s', event.handle g s = .ok s' ∧ s'.Inv g (excess + s.leak event) := by
  have hsame : ∀ result : SchedulerResult Scheduler, (∃ s', result = .ok s' ∧ s'.Inv g excess) →
      ∃ s', result = .ok s' ∧ s'.Inv g (excess + 0) := by
    intro result hserved
    rw [add_zero]
    exact hserved
  unfold SchedulerEvent.handle
  cases event with
  | accept request => exact hsame _ (hinv.tsuProcessTask hpossible.1 hpossible.2)
  | flush => exact hsame _ hinv.tsuFlushQueues
  | transferDone channel chip =>
    apply hsame
    apply hinv.onChannel_settles
    apply keeps_completeChipTransfer (serves_callbacks g channel _) (hinv.good channel) _ hpossible
    omega
  | commandDone channel chip die error =>
    apply hsame
    apply hinv.onChannel_settles
    apply keeps_completeDieCommand (serves_callbacks g channel _)
      (hinv.good channel) _ error hpossible
    omega
  | dataOutDone channel chip die =>
    apply hinv.onChannel
    apply keeps_completeDataOutTransfer (serves_callbacks g channel _)
      (hinv.good channel) _ hpossible
    omega
  | poll => exact hsame _ hinv.pollChannels

theorem Inv.step
    (hstep : schedulerStep g s event = some s') : s'.Inv g (excess + s.leak event) := by
  obtain ⟨hpossible, hhandle⟩ := ite_none_right_eq_some.mp hstep
  obtain ⟨next, hnext, hinv'⟩ := hinv.handle hpossible
  rw [hnext] at hhandle
  cases hhandle
  exact hinv'

/-- After a pass over the channels with no work left on any die, every
accepted task has been reported. -/
theorem Inv.completed_of_poll (hpoll : Soda.pollChannels g s = .ok s') (hactive : s'.active g = 0) :
    s'.completed g = s'.accepted := by
  have hinv' : s'.Inv g excess := by
    obtain ⟨next, hnext, hinv'⟩ := hinv.pollChannels
    rw [hnext] at hpoll
    cases hpoll
    exact hinv'
  have hchannels := (channels_of_foldlM nodup_range hpoll).2
  have hqueued : s'.queued g = 0 := by
    apply Finset.sum_eq_zero
    intro channel hchannel
    have hnone := sum_eq_zero_iff.mp hactive channel hchannel
    exact pollChannel_drains (hinv.good channel) (hinv.account channel).counted le_rfl
      (hchannels channel (List.mem_range.mpr (Finset.mem_range.mp hchannel))) hnone
  have hheld := hinv'.held
  rw [hqueued, hactive, zero_add, zero_add] at hheld
  exact hheld

omit hinv

theorem inv_of_run {events : List SchedulerEvent}
    (hrun : FreeRun (schedulerStep g) init events s) : ∃ excess, s.Inv g excess := by
  have hkeeps : ∀ s event s', (∃ excess, Inv g excess s) → True →
      schedulerStep g s event = some s' → ∃ excess, s'.Inv g excess := by
    rintro s event s' ⟨excess, hinv⟩ - hstep
    exact ⟨_, hinv.step hstep⟩
  exact hrun.invariant hkeeps ⟨0, inv_init⟩

/-! ## Where a task is -/

/-- A queue of a chip of a channel, or a die of a chip of a channel. -/
abbrev TaskPlace := (ℕ × ℕ × TxnQueue) ⊕ (ℕ × ℕ × ℕ)

variable (g) in
def places : Finset TaskPlace :=
  (Finset.range g.nrChannels ×ˢ Finset.range g.chipsPerChannel ×ˢ Finset.univ).disjSum
  (Finset.range g.nrChannels ×ˢ Finset.range g.chipsPerChannel ×ˢ Finset.range g.diesPerChip)

def tasksAt (s : Scheduler) : TaskPlace → List FilTask
  | .inl (channel, chip, queue) => (s.channels channel).queues chip queue
  | .inr (channel, chip, die) => (((s.channels channel).chips chip).dies die).activeTxns

theorem sum_places (s : Scheduler) :
    ∑ place ∈ places g, (s.tasksAt place : Multiset FilTask) = s.queued g + s.active g := by
  unfold places
  rw [sum_disjSum]
  simp only [sum_product]
  rfl

end Scheduler

/-- A member of a sum without repetitions is a member of one summand. -/
theorem existsUnique_of_mem_sum {ι α : Type} [DecidableEq ι]
    {places : Finset ι} {content : ι → Multiset α} {x : α}
    (hnodup : (∑ place ∈ places, content place).Nodup)
    (hmem : x ∈ ∑ place ∈ places, content place) :
    ∃! place, place ∈ places ∧ x ∈ content place := by
  obtain ⟨place, hplace, hx⟩ := mem_sum.mp hmem
  refine ⟨place, ⟨hplace, hx⟩, ?_⟩
  rintro other ⟨hother, hx'⟩
  by_contra hne
  rw [← add_sum_erase places content hplace, nodup_add] at hnodup
  have hrest : x ∈ ∑ place ∈ places.erase place, content place :=
    mem_sum.mpr ⟨other, mem_erase.mpr ⟨hne, hother⟩, hx'⟩
  exact disjoint_left.mp hnodup.2.2 hx hrest

/-- In every run each accepted task is in one queue, on one die or reported;
it is dispatched once and reported once, and the counter of each chip is the
length of its queues.  Nothing is left behind: when a pass over the channels
finds no die at work, all the accepted tasks have been reported. -/
theorem scheduler_exactly_once (g : Geometry) (events : List SchedulerEvent) (s : Scheduler)
    (hrun : FreeRun (schedulerStep g) init events s) :
    s.accepted.Nodup ∧ s.queued g + s.active g + s.completed g = s.accepted ∧
    (∀ txn ∈ s.accepted, txn ∉ s.completed g → ∃! place, place ∈ places g ∧ txn ∈ s.tasksAt place) ∧
    s.dispatched g = s.active g + s.completed g ∧
    (∀ channel < g.nrChannels, ∀ chip < g.chipsPerChannel, (s.channels channel).requestCount chip =
        ∑ queue, (((s.channels channel).queues chip queue).length : ℤ)) ∧
    ∀ s', pollChannels g s = .ok s' → s'.active g = 0 → s'.completed g = s'.accepted := by
  obtain ⟨excess, hinv⟩ := inv_of_run hrun
  have hheld := hinv.held
  have hnodup : (s.queued g + s.active g + s.completed g).Nodup := by
    rw [hheld]
    exact hinv.nodup
  refine ⟨hinv.nodup, hheld, ?_, hinv.dispatched_eq, ?_, ?_⟩
  · intro txn htxn hopen
    rw [← Multiset.mem_coe, ← hheld, Multiset.mem_add] at htxn
    have hplaces := sum_places (g := g) s
    have hmem := htxn.resolve_right hopen
    rw [← hplaces] at hmem hnodup
    exact existsUnique_of_mem_sum (nodup_add.mp hnodup).1 hmem
  · intro channel _ chip _
    have hcounted := congrFun (hinv.account channel).counted chip
    exact sub_eq_zero.mp hcounted
  · intro s' hpoll hactive
    exact hinv.completed_of_poll hpoll hactive

/-- In every run the tasks of a queue for one die are dispatched in the order in
which they were put into the queue: those dispatched are the first of them. -/
theorem scheduler_in_order (g : Geometry) (events : List SchedulerEvent) (s : Scheduler)
    (hrun : FreeRun (schedulerStep g) init events s) (channel chip : ℕ)
    (queue : TxnQueue) (die : ℕ) :
    (s.channels channel).dispatched.filter (isFor chip queue die) <+:
      (s.accepted.filter fun txn => txn.channel = channel).filter (isFor chip queue die) := by
  obtain ⟨excess, hinv⟩ := inv_of_run hrun
  rw [← tasksOn, ← (hinv.account channel).inLine]
  exact prefix_append _ _

def benchRequest (type : FilTaskType) (chip die : ℕ) : FilRequest :=
  { FilRequest.dump with
    addr := ⟨⟨0, chip, die, 0⟩, 0, 0⟩
    type := type
    length := 4096 }

/-- Reads of both dies of a chip are dispatched inside each other, and a
program for the other chip inside the second. -/
def nestedRun : List SchedulerEvent :=
  [.accept (benchRequest .read 0 0), .accept (benchRequest .read 0 1),
    .accept (benchRequest .write 1 0), .flush]

/-- The completions of `nestedRun`, out of order. -/
def drainedRun : List SchedulerEvent :=
  nestedRun ++ [.transferDone 0 1, .commandDone 0 0 1 false, .commandDone 0 0 0 false,
      .dataOutDone 0 0 1, .poll, .dataOutDone 0 0 0, .commandDone 0 1 0 true]

theorem scheduler_exactly_once_drained :
    ∃ s s', FreeRun (schedulerStep deviceGeometry) init drainedRun s ∧
      pollChannels deviceGeometry s = .ok s' ∧ s'.accepted.length = 3 ∧
      s'.completed deviceGeometry = s'.accepted := by
  obtain ⟨s, s', hs, hpoll, hactive, hlength⟩ : ∃ s s',
      runActions (schedulerStep deviceGeometry) init drainedRun = some s ∧
      pollChannels deviceGeometry s = .ok s' ∧
      s'.active deviceGeometry = 0 ∧ s'.accepted.length = 3 :=
    ⟨_, _, rfl, rfl, rfl, rfl⟩
  have hrun := freeRun_of_runActions hs
  obtain ⟨-, -, -, -, -, hdrained⟩ := scheduler_exactly_once deviceGeometry drainedRun s hrun
  exact ⟨s, s', hrun, hpoll, hlength, hdrained s' hpoll hactive⟩

/-- Two reads of one die and one of the other, of which the first two dispatched
are reads of different dies. -/
theorem scheduler_in_order_sameDie :
    ∃ s, FreeRun (schedulerStep deviceGeometry) init
        [.accept (benchRequest .read 0 0), .accept (benchRequest .read 0 0),
          .accept (benchRequest .read 0 1), .flush] s ∧
      (s.channels 0).dispatched.map serial = [0, 2] ∧
      (s.channels 0).dispatched.filter (isFor 0 .read 0) <+:
        (s.accepted.filter fun txn => txn.channel = 0).filter (isFor 0 .read 0) := by
  obtain ⟨s, hs, hserials⟩ : ∃ s, runActions (schedulerStep deviceGeometry) init
        [.accept (benchRequest .read 0 0), .accept (benchRequest .read 0 0),
          .accept (benchRequest .read 0 1), .flush] = some s ∧
      (s.channels 0).dispatched.map serial = [0, 2] := ⟨_, rfl, rfl⟩
  have hrun := freeRun_of_runActions hs
  exact ⟨s, hrun, hserials, scheduler_in_order deviceGeometry _ s hrun 0 0 .read 0⟩

/-! ## Chips and their dies -/

/-- The counter of the waiting read transfers of each chip is their number, and
a chip whose dies are all idle is in the idle state. -/
def Scheduler.ChipsFollow (g : Geometry) (s : Scheduler) : Prop :=
  ∀ channel chip,
    let data := (s.channels channel).chips chip
    data.nrWaitingReadXfers = BitVec.ofNat 32 (data.readsOut g) ∧
      (data.AllIdle g → data.status = .idle)

/-- Data-out transfers end while no die of the chip is active. -/
def SchedulerEvent.EndsAlone (s : Scheduler) : SchedulerEvent → Prop
  | dataOutDone channel chip _ => ((s.channels channel).chips chip).activeDies = 0
  | _ => True

instance (s : Scheduler) : (event : SchedulerEvent) → Decidable (event.EndsAlone s)
  | .dataOutDone _ _ _ => inferInstanceAs (Decidable (_ = _))
  | .accept _ | .flush | .transferDone _ _ | .commandDone _ _ _ _ | .poll =>
    inferInstanceAs (Decidable True)

theorem SchedulerEvent.leak_eq_zero_iff {s : Scheduler} {event : SchedulerEvent} :
    s.leak event = 0 ↔ event.EndsAlone s := by
  cases event <;> simp [leak, EndsAlone, Pi.single_eq_zero_iff]

theorem Scheduler.Inv.chipsFollow_iff {g : Geometry} {s : Scheduler}
    {excess : ℕ → ℕ → BitVec 32} (hinv : s.Inv g excess) : s.ChipsFollow g ↔ excess = 0 := by
  constructor
  · intro hfollow
    funext channel chip
    rw [← hinv.excess_eq]
    exact sub_eq_zero.mpr (hfollow channel chip).1
  · rintro rfl channel chip
    have hzero := hinv.excess_eq channel chip
    obtain ⟨phases, bus, hsound⟩ := hinv.good channel
    exact ⟨sub_eq_zero.mp hzero, (hsound.tallied chip).resting hzero⟩

/-- The chips follow their dies through a run exactly if each data-out transfer
ends while no die of its chip is active. -/
theorem chips_follow_iff (g : Geometry) (events : List SchedulerEvent) (s : Scheduler)
    (hrun : FreeRun (schedulerStep g) init events s) :
    Run (schedulerStep g) (fun s event => event.EndsAlone s) init events s ↔
      Always (schedulerStep g) (Scheduler.ChipsFollow g) init events := by
  have hstep : ∀ s event next, Scheduler.Inv g 0 s → schedulerStep g s event = some next →
      next.Inv g (s.leak event) := by
    intro s event next hinv hstep
    have hnext := hinv.step hstep
    rwa [zero_add] at hnext
  have hkept : ∀ (s : Scheduler) (event : SchedulerEvent) next, Scheduler.Inv g 0 s →
      event.EndsAlone s → schedulerStep g s event = some next → next.Inv g 0 := by
    intro s event next hinv halone hnext
    rw [← SchedulerEvent.leak_eq_zero_iff.mpr halone]
    exact hstep s event next hinv hnext
  refine hrun.meets_iff_always_of_kept hkept ?_ inv_init (inv_init.chipsFollow_iff.mpr rfl)
  intro s event next hinv _ hnext
  rw [(hstep s event next hinv hnext).chipsFollow_iff, SchedulerEvent.leak_eq_zero_iff]

/-- In `drainedRun` the reads go out when both are over in the array. -/
theorem chips_follow_iff_drained :
    Always (schedulerStep deviceGeometry) (Scheduler.ChipsFollow deviceGeometry) init
      drainedRun := by
  obtain ⟨s, hs⟩ : ∃ s, runActionsIf (schedulerStep deviceGeometry)
      (fun s event => event.EndsAlone s) init drainedRun = some s := ⟨_, rfl⟩
  have hrun := run_of_runActionsIf hs
  exact (chips_follow_iff deviceGeometry drainedRun s (hrun.weaken fun _ _ _ => trivial)).mp hrun

/-- The data of a read goes out while the other die of its chip still reads: the
counter stays at one with no read left. -/
theorem not_chips_follow :
    ¬ ∀ events s, FreeRun (schedulerStep deviceGeometry) init events s →
      s.ChipsFollow deviceGeometry := by
  intro hall
  obtain ⟨s, hs, hcount, hreads⟩ : ∃ s, runActions (schedulerStep deviceGeometry) init
        [.accept (benchRequest .read 0 0), .accept (benchRequest .read 0 1), .flush,
          .commandDone 0 0 0 false, .dataOutDone 0 0 0] = some s ∧
      ((s.channels 0).chips 0).nrWaitingReadXfers = 1 ∧
      ((s.channels 0).chips 0).readsOut deviceGeometry = 0 := ⟨_, rfl, rfl, rfl⟩
  have hfollow := (hall _ s (freeRun_of_runActions hs) 0 0).1
  rw [hcount, hreads] at hfollow
  exact absurd hfollow (by decide)

def ChannelData.InProgress (ch : ChannelData) : Transfer → Prop
  | .dataIn chip die => (ch.chips chip).currentXfer = some die
  | .dataOut chip die => ((ch.chips chip).dies die).activeXfer.isSome

theorem Sound.inProgress_iff {g : Geometry} {channel : ℕ} {phases : Phases}
    {bus : Option Transfer} {ch : ChannelData}
    (hsound : Sound g channel phases bus ch) (transfer : Transfer) :
    ch.InProgress transfer ↔ bus = some transfer := by
  rw [← hsound.uses]
  cases transfer with
  | dataIn chip die => exact hsound.current chip die
  | dataOut chip die =>
    simp only [ChannelData.InProgress, Transfer.Uses, hsound.dies]
    cases phases chip die <;>
      simp [data, DiePhase.IsDataOut]

/-- In every reachable state a die has at most one command, a channel has at
most one transfer and is busy exactly while it has one, every program went out
while the other dies of its chip allowed it, and whatever happens next is
handled without a failed assertion. -/
theorem scheduler_bus_rules (g : Geometry) (events : List SchedulerEvent) (s : Scheduler)
    (hrun : FreeRun (schedulerStep g) init events s) :
    (∀ channel chip die,
      let data := ((s.channels channel).chips chip).dies die
      data.activeTxns.length ≤ 1 ∧ (data.activeCmd = none ↔ data.activeTxns = []) ∧
        (data.currentCmd = none ∨ data.currentCmd = data.activeCmd)) ∧
    (∀ channel, (∀ left right, (s.channels channel).InProgress left →
        (s.channels channel).InProgress right → left = right) ∧
      ((s.channels channel).status = .busBusy ↔
        ∃ transfer, (s.channels channel).InProgress transfer)) ∧
    (∀ channel, ∀ entry ∈ (s.channels channel).programs, MayProgram g entry) ∧
    ∀ event : SchedulerEvent, event.Possible g s → ∃ s', event.handle g s = .ok s' := by
  obtain ⟨excess, hinv⟩ := inv_of_run hrun
  refine ⟨?_, ?_, ?_, ?_⟩
  · intro channel chip die
    obtain ⟨phases, bus, hsound⟩ := hinv.good channel
    rw [hsound.dies]
    cases phases chip die <;> simp [data]
  · intro channel
    obtain ⟨phases, bus, hsound⟩ := hinv.good channel
    constructor
    · intro left right hleft hright
      rw [hsound.inProgress_iff] at hleft hright
      exact some.inj (hleft.symm.trans hright)
    · rw [hsound.status, isSome_iff_exists]
      exact exists_congr fun transfer => (hsound.inProgress_iff transfer).symm
  · intro channel
    obtain ⟨_, _, hsound⟩ := hinv.good channel
    exact hsound.programs
  · intro event hpossible
    obtain ⟨s', hhandle, -⟩ := hinv.handle hpossible
    exact ⟨s', hhandle⟩

/-- After `nestedRun` the program of the second chip has the bus. -/
theorem scheduler_bus_rules_nested :
    ∃ s, FreeRun (schedulerStep deviceGeometry) init nestedRun s ∧
      (s.channels 0).InProgress (.dataIn 1 0) ∧ (s.channels 0).status = .busBusy := by
  obtain ⟨s, hs, hprogress⟩ : ∃ s,
      runActions (schedulerStep deviceGeometry) init nestedRun = some s ∧
      (s.channels 0).InProgress (.dataIn 1 0) := ⟨_, rfl, rfl⟩
  have hrun := freeRun_of_runActions hs
  obtain ⟨-, hbus, -, -⟩ := scheduler_bus_rules deviceGeometry nestedRun s hrun
  exact ⟨s, hrun, hprogress, (hbus 0).2.mpr ⟨_, hprogress⟩⟩

end Runs

end Soda
