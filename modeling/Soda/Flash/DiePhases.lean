import Soda.Core.Counts
import Soda.Flash.Tsu

/-!
# What the dies of a channel are doing

Each die that has a transaction is in one of four phases, and its phase fixes
the fields of `struct die_data`.  At most one transfer is under way in a
channel, the one that keeps its bus busy.  `Sound` is the invariant that ties
the records of `fil.c` and the queues of `tsu.c` to the phases and the bus;
every change of a phase goes through `Sound.move`.
-/

namespace Soda

open Function List BitVec ChannelData

/-- The command for a transaction that is dispatched alone. -/
def FilTask.command (txn : FilTask) : FlashCommand :=
  ⟨(flashCommandCode 1 txn.type).getD .readPage, [txn.addr]⟩

/-- The phases of a die: at rest, data of a program going in, array operation
running, read waiting for the bus, data of a read going out. -/
inductive DiePhase
  | idle
  | dataIn (txn : FilTask)
  | executing (txn : FilTask)
  | waiting (txn : FilTask)
  | dataOut (txn : FilTask)

namespace DiePhase

def data : DiePhase → DieData
  | idle => ⟨none, none, [], none⟩
  | dataIn txn => ⟨some txn.command, none, [txn], none⟩
  | executing txn => ⟨some txn.command, some txn.command, [txn], none⟩
  | waiting txn => ⟨some txn.command, none, [txn], none⟩
  | dataOut txn => ⟨some txn.command, none, [txn], some txn⟩

def Allowed : DiePhase → Prop
  | idle => True
  | dataIn txn => txn.type = .write
  | executing txn => txn.type ≠ .dump
  | waiting txn => txn.type = .read
  | dataOut txn => txn.type = .read

def IsDataIn : DiePhase → Prop
  | dataIn _ => True
  | _ => False

def IsDataOut : DiePhase → Prop
  | dataOut _ => True
  | _ => False

end DiePhase

/-- A use of the bus: the chip and the die whose data goes over it. -/
inductive Transfer
  | dataIn (chip die : ℕ)
  | dataOut (chip die : ℕ)
  deriving DecidableEq

def DiePhase.transfer (chip die : ℕ) : DiePhase → Option Transfer
  | dataIn _ => some (.dataIn chip die)
  | dataOut _ => some (.dataOut chip die)
  | _ => none

theorem DiePhase.eq_of_transfer {chip die other otherDie : ℕ}
    {left right : DiePhase} {transfer : Transfer} (hleft : left.transfer chip die = some transfer)
    (hright : right.transfer other otherDie = some transfer) : other = chip ∧ otherDie = die := by
  cases left <;> cases hleft <;> cases right <;> cases hright <;>
    exact ⟨rfl, rfl⟩

abbrev Phases := ℕ → ℕ → DiePhase

def Phases.set (phases : Phases) (chip die : ℕ) (phase : DiePhase) : Phases :=
  update phases chip (update (phases chip) die phase)

def Transfer.Uses (phases : Phases) : Transfer → Prop
  | dataIn chip die => (phases chip die).IsDataIn
  | dataOut chip die => (phases chip die).IsDataOut

structure FilTask.On (g : Geometry) (channel chip die : ℕ) (txn : FilTask) : Prop where
  channel_eq : txn.channel = channel
  chip_eq : txn.chip = chip
  die_eq : txn.die = die
  chip_lt : chip < g.chipsPerChannel
  die_lt : die < g.diesPerChip

def TxnQueue.type : TxnQueue → FilTaskType
  | read | mappingRead | gcRead => .read
  | write | mappingWrite | gcWrite => .write
  | gcErase => .erase

def FilTask.queue (txn : FilTask) : Option TxnQueue := txnQueue txn.type txn.request.source

/-- The queue a task is put in holds tasks of its kind. -/
theorem FilTask.type_of_queue {txn : FilTask} {queue : TxnQueue} (hqueue : txn.queue = some queue) :
    txn.type = queue.type := by
  rw [FilTask.queue] at hqueue
  cases htype : txn.type <;> cases hsource : txn.request.source <;>
    rw [htype, hsource] at hqueue <;> cases hqueue <;> rfl

/-- No other die of the chip had a read active, or a command that was not
confirmed, when the program for `entry.1` went out. -/
def MayProgram (g : Geometry) (entry : ℕ × ChipData) : Prop :=
  ∀ other < g.diesPerChip, other ≠ entry.1 → ∀ cmd, (entry.2.dies other).activeCmd = some cmd →
      cmd.code.isRead = false ∧ (entry.2.dies other).currentCmd ≠ none

theorem DieData.blocksProgram_eq_false {die : DieData}
    (hblocks : die.blocksProgram = false) {cmd : FlashCommand} (hcmd : die.activeCmd = some cmd) :
    cmd.code.isRead = false ∧ die.currentCmd ≠ none := by
  unfold blocksProgram at hblocks
  rw [hcmd] at hblocks
  obtain ⟨hread, hnone⟩ := Bool.or_eq_false_iff.mp hblocks
  refine ⟨hread, ?_⟩
  intro hcurrent
  rw [hcurrent] at hnone
  cases hnone

/-- The active read of a die is over in the array: its data waits for the bus or
goes out on it. -/
def DieData.readsOut (die : DieData) : Bool :=
  die.currentCmd.isNone && die.activeCmd.any fun cmd => cmd.code.isRead

def DiePhase.readsOut : DiePhase → Bool
  | waiting _ => true
  | dataOut _ => true
  | _ => false

theorem DiePhase.readsOut_data (phase : DiePhase) (hallowed : phase.Allowed) :
    phase.data.readsOut = phase.readsOut := by
  cases phase <;> simp_all [Allowed, data, DieData.readsOut, readsOut, FilTask.command,
    flashCommandCode, FlashCommandCode.isRead]

namespace ChipData

def count (g : Geometry) (chip : ChipData) (p : DieData → Bool) : ℕ :=
  ∑ die ∈ Finset.range g.diesPerChip, (p (chip.dies die)).toNat

/-- How many reads of a chip wait for their data-out transfer or are in it. -/
def readsOut (g : Geometry) (chip : ChipData) : ℕ := chip.count g DieData.readsOut

def AllIdle (g : Geometry) (chip : ChipData) : Prop :=
  ∀ die < g.diesPerChip, (chip.dies die).activeCmd = none

/-- By how much the counter of these reads is too high. -/
def excess (g : Geometry) (chip : ChipData) : BitVec 32 :=
  chip.nrWaitingReadXfers - BitVec.ofNat 32 (chip.readsOut g)

/-- The counter of the active dies is right.  If the one of the waiting reads is
right as well then a chip with idle dies only is idle. -/
structure Tallied (g : Geometry) (chip : ChipData) : Prop where
  active : chip.activeDies = BitVec.ofNat 32 (chip.count g fun die => die.currentCmd.isSome)
  resting : chip.excess g = 0 → chip.AllIdle g → chip.status = .idle

end ChipData

structure DieChange (chip die : ℕ) (dieData : DieData) (ch ch' : ChannelData) : Prop where
  others : ∀ other, other ≠ chip → ch'.chips other = ch.chips other
  dies : (ch'.chips chip).dies = update (ch.chips chip).dies die dieData

/-- The records of a channel agree with the phases of its dies and with the
use of its bus. -/
structure Sound (g : Geometry) (channel : ℕ) (phases : Phases)
    (bus : Option Transfer) (ch : ChannelData) : Prop where
  dies : ∀ chip die, (ch.chips chip).dies die = (phases chip die).data
  noneQueued : ∀ chip, (ch.chips chip).cmdXferQueue = []
  current : ∀ chip die, (ch.chips chip).currentXfer = some die ↔ (phases chip die).IsDataIn
  placed : ∀ chip die, ∀ txn ∈ (phases chip die).data.activeTxns, txn.On g channel chip die
  allowed : ∀ chip die, (phases chip die).Allowed
  uses : ∀ transfer : Transfer, transfer.Uses phases ↔ bus = some transfer
  status : ch.status = .busBusy ↔ bus.isSome
  waiting : ∀ txn, txn ∈ ch.waitingReadXfer ↔ phases txn.chip txn.die = .waiting txn
  nodup : ch.waitingReadXfer.Nodup
  queued : ∀ chip queue, ∀ txn ∈ ch.queues chip queue,
    txn.queue = some queue ∧ txn.On g channel chip txn.die
  tallied : ∀ chip, (ch.chips chip).Tallied g
  programs : ∀ entry ∈ ch.programs, MayProgram g entry
  rr_lt : ch.rrIndex < g.chipsPerChannel

theorem DieChange.of_update {chip die : ℕ} {dieData : DieData} {data : ChipData}
    {ch ch' : ChannelData} (hchips : ch'.chips = update ch.chips chip data)
    (hdies : data.dies = update (ch.chips chip).dies die dieData) :
    DieChange chip die dieData ch ch' where
  others other hother := by rw [hchips, update_of_ne hother]
  dies := by rw [hchips, update_self, hdies]

theorem ChannelData.setQueue_apply (ch : ChannelData) (chip other : ℕ)
    (queue otherQueue : TxnQueue) (txns : List FilTask) :
    (ch.setQueue chip queue txns).queues other otherQueue =
      if other = chip ∧ otherQueue = queue then txns
      else ch.queues other otherQueue := by
  unfold setQueue
  by_cases hchip : other = chip
  · subst hchip
    simp [update_apply]
  · simp [hchip]

namespace Phases

variable {phases : Phases} {chip die : ℕ} {phase : DiePhase}

@[simp]
theorem set_self : phases.set chip die phase chip die = phase := by
  simp [set]

theorem set_of_ne {other otherDie : ℕ} (hne : other = chip → otherDie ≠ die) :
    phases.set chip die phase other otherDie = phases other otherDie := by
  unfold set
  by_cases hchip : other = chip
  · subst hchip
    rw [update_self, update_of_ne (hne rfl)]
  · rw [update_of_ne hchip]

theorem set_apply (other otherDie : ℕ) :
    phases.set chip die phase other otherDie = if other = chip ∧ otherDie = die then phase
      else phases other otherDie := by
  by_cases hsame : other = chip ∧ otherDie = die
  · obtain ⟨rfl, rfl⟩ := hsame
    simp
  · rw [if_neg hsame]
    apply set_of_ne
    intro hchip hdie
    exact hsame ⟨hchip, hdie⟩

theorem uses_iff (transfer : Transfer) :
    transfer.Uses phases ↔ ∃ chip die, (phases chip die).transfer chip die = some transfer := by
  constructor
  · intro huses
    cases transfer with
    | dataIn chip die =>
      refine ⟨chip, die, ?_⟩
      cases hphase : phases chip die <;>
        simp_all [Transfer.Uses, DiePhase.IsDataIn, DiePhase.transfer]
    | dataOut chip die =>
      refine ⟨chip, die, ?_⟩
      cases hphase : phases chip die <;>
        simp_all [Transfer.Uses, DiePhase.IsDataOut, DiePhase.transfer]
  · rintro ⟨chip, die, htransfer⟩
    cases hphase : phases chip die <;> rw [hphase] at htransfer <;>
      cases htransfer <;> simp only [Transfer.Uses, hphase] <;> trivial

/-- The bus is used by the die that changes or by one that does not. -/
theorem uses_set_iff (transfer : Transfer) :
    transfer.Uses (phases.set chip die phase) ↔ phase.transfer chip die = some transfer ∨
      ∃ other otherDie, (other = chip → otherDie ≠ die) ∧
        (phases other otherDie).transfer other otherDie = some transfer := by
  rw [uses_iff]
  constructor
  · rintro ⟨other, otherDie, htransfer⟩
    by_cases hsame : other = chip ∧ otherDie = die
    · obtain ⟨rfl, rfl⟩ := hsame
      rw [set_self] at htransfer
      exact .inl htransfer
    · have hne : other = chip → otherDie ≠ die := by
        intro hchip hdie
        exact hsame ⟨hchip, hdie⟩
      rw [set_of_ne hne] at htransfer
      exact .inr ⟨other, otherDie, hne, htransfer⟩
  · rintro (htransfer | ⟨other, otherDie, hne, htransfer⟩)
    · exact ⟨chip, die, by rw [set_self]; exact htransfer⟩
    · exact ⟨other, otherDie, by rw [set_of_ne hne]; exact htransfer⟩

end Phases

section Tallies

variable {g : Geometry} {die : ℕ} {dieData : DieData} {data data' : ChipData}

theorem ChipData.count_update (p : DieData → Bool) (hdie : die < g.diesPerChip)
    (hdies : data'.dies = update data.dies die dieData) :
    data'.count g p + (p (data.dies die)).toNat = data.count g p + (p dieData).toNat := by
  rw [count, count, hdies]
  exact sum_update_add (fun value => (p value).toNat) (Finset.mem_range.mpr hdie)

theorem ChipData.count_eq_zero {p : DieData → Bool}
    (hnone : ∀ die < g.diesPerChip, p (data.dies die) = false) : data.count g p = 0 :=
  Finset.sum_eq_zero fun die hdie => by rw [hnone die (Finset.mem_range.mp hdie)]; rfl

/-- A change of a die and of the counter of the waiting reads. -/
theorem ChipData.excess_of_change (hdie : die < g.diesPerChip)
    (hdies : data'.dies = update data.dies die dieData) {leak : BitVec 32}
    (hcount : data'.nrWaitingReadXfers + BitVec.ofNat 32 (data.dies die).readsOut.toNat =
      data.nrWaitingReadXfers + BitVec.ofNat 32 dieData.readsOut.toNat + leak) :
    data'.excess g = data.excess g + leak := by
  have hreads := congrArg (BitVec.ofNat 32) (count_update DieData.readsOut hdie hdies)
  rw [ofNat_add, ofNat_add] at hreads
  rw [excess, excess, readsOut, readsOut]
  linear_combination hcount - hreads

/-- A change of a die that is noted in the counter of the active dies. -/
theorem ChipData.Tallied.active_of_change (htallied : data.Tallied g) (hdie : die < g.diesPerChip)
    (hdies : data'.dies = update data.dies die dieData)
    (hactive : data'.activeDies + BitVec.ofNat 32 (data.dies die).currentCmd.isSome.toNat =
      data.activeDies + BitVec.ofNat 32 dieData.currentCmd.isSome.toNat) :
    data'.activeDies = BitVec.ofNat 32 (data'.count g fun die => die.currentCmd.isSome) := by
  have hcount := congrArg (BitVec.ofNat 32)
    (count_update (fun die => die.currentCmd.isSome) hdie hdies)
  rw [ofNat_add, ofNat_add, ← htallied.active] at hcount
  linear_combination hactive - hcount

/-- The same for a die that is not idle afterwards. -/
theorem ChipData.Tallied.change (htallied : data.Tallied g) (hdie : die < g.diesPerChip)
    (hdies : data'.dies = update data.dies die dieData)
    (hactive : data'.activeDies + BitVec.ofNat 32 (data.dies die).currentCmd.isSome.toNat =
      data.activeDies + BitVec.ofNat 32 dieData.currentCmd.isSome.toNat)
    (hbusy : dieData.activeCmd ≠ none) : data'.Tallied g where
  active := htallied.active_of_change hdie hdies hactive
  resting _ hidle := by
    have hnone := hidle die hdie
    rw [hdies, update_self] at hnone
    exact absurd hnone hbusy

end Tallies

namespace Sound

variable {g : Geometry} {channel : ℕ} {phases : Phases} {bus : Option Transfer} {ch : ChannelData}

theorem init : Sound g channel (fun _ _ => .idle) none init where
  dies _ _ := rfl
  noneQueued _ := rfl
  current _ _ := by simp [ChannelData.init, ChipData.init, DiePhase.IsDataIn]
  placed _ _ _ htxn := absurd htxn not_mem_nil
  allowed _ _ := trivial
  tallied _ := ⟨by simp [ChipData.count, ChannelData.init, ChipData.init, DieData.init],
    fun _ _ => rfl⟩
  uses transfer := by
    cases transfer <;>
      simp [Transfer.Uses, DiePhase.IsDataIn, DiePhase.IsDataOut]
  status := by simp [ChannelData.init]
  waiting _ := by simp [ChannelData.init]
  nodup := nodup_nil
  queued _ _ _ htxn := absurd htxn not_mem_nil
  programs _ hentry := absurd hentry not_mem_nil
  rr_lt := g.chips_pos

variable (hsound : Sound g channel phases bus ch)
include hsound

theorem at_phase {chip die : ℕ} {phase : DiePhase} (hphase : phases chip die = phase) :
    (ch.chips chip).dies die = phase.data ∧ phase.Allowed := by
  rw [hsound.dies, ← hphase]
  exact ⟨rfl, hsound.allowed chip die⟩

theorem idle_iff : ch.status = .busIdle ↔ bus = none := by
  have hstatus := hsound.status
  cases hcase : ch.status <;> cases bus <;> simp_all

theorem bus_eq_none (hidle : ch.status = .busIdle) : bus = none := hsound.idle_iff.mp hidle

variable {chip die : ℕ} {ch' : ChannelData} {phase : DiePhase}

theorem transfer_eq {transfer : Transfer}
    (htransfer : (phases chip die).transfer chip die = some transfer) : bus = some transfer :=
  (hsound.uses transfer).mp ((Phases.uses_iff transfer).mpr ⟨chip, die, htransfer⟩)

/-- A chip whose dies are all idle after one of them became so. -/
theorem count_of_allIdle (hchange : DieChange chip die DiePhase.idle.data ch ch')
    (hidle : (ch'.chips chip).AllIdle g) {p : DieData → Bool}
    (hp : p DiePhase.idle.data = false) : (ch'.chips chip).count g p = 0 := by
  apply ChipData.count_eq_zero
  intro other hother
  have hnone := hidle other hother
  rw [hchange.dies, update_apply] at hnone ⊢
  split
  · exact hp
  next hne =>
    rw [if_neg hne, hsound.dies] at hnone
    rw [hsound.dies]
    cases hphase : phases chip other <;> rw [hphase] at hnone <;> cases hnone
    exact hp

/-- A die takes the bus, or leaves it, when no other die has it. -/
theorem uses_take
    (hfree : bus = none ∨ bus = (phases chip die).transfer chip die) (transfer : Transfer) :
    transfer.Uses (phases.set chip die phase) ↔ phase.transfer chip die = some transfer := by
  rw [Phases.uses_set_iff]
  constructor
  · rintro (htransfer | ⟨other, otherDie, hne, htransfer⟩)
    · exact htransfer
    · exfalso
      have hbus := hsound.transfer_eq htransfer
      rcases hfree with hnone | hself
      · rw [hnone] at hbus
        cases hbus
      · rw [hself] at hbus
        obtain ⟨hchip, hdie⟩ := DiePhase.eq_of_transfer hbus htransfer
        exact hne hchip hdie
  · exact .inl

/-- A die changes between two phases that do not need the bus. -/
theorem uses_keep (hold : (phases chip die).transfer chip die = none)
    (hnew : phase.transfer chip die = none) (transfer : Transfer) :
    transfer.Uses (phases.set chip die phase) ↔ bus = some transfer := by
  rw [Phases.uses_set_iff, ← hsound.uses transfer, Phases.uses_iff, hnew]
  constructor
  · rintro (hnone | ⟨other, otherDie, -, htransfer⟩)
    · cases hnone
    · exact ⟨other, otherDie, htransfer⟩
  · rintro ⟨other, otherDie, htransfer⟩
    refine .inr ⟨other, otherDie, ?_, htransfer⟩
    rintro rfl rfl
    rw [hold] at htransfer
    cases htransfer

/-- The transfer into a chip is the one on the bus. -/
theorem current_iff (chip die : ℕ) :
    (ch.chips chip).currentXfer = some die ↔ bus = some (.dataIn chip die) :=
  (hsound.current chip die).trans (hsound.uses (.dataIn chip die))

theorem current_eq_none
    (hbus : ∀ die, bus ≠ some (.dataIn chip die)) : (ch.chips chip).currentXfer = none := by
  cases hcurrent : (ch.chips chip).currentXfer with
  | none => rfl
  | some die => exact absurd ((hsound.current_iff chip die).mp hcurrent) (hbus die)

/-- A die changes between two phases in which it does not wait. -/
theorem waiting_keep (hold : ∀ txn, phases chip die ≠ .waiting txn)
    (hnew : ∀ txn, phase ≠ .waiting txn) (txn : FilTask) :
    txn ∈ ch.waitingReadXfer ↔ phases.set chip die phase txn.chip txn.die = .waiting txn := by
  rw [hsound.waiting, Phases.set_apply]
  split
  next hsame =>
    rw [hsame.1, hsame.2]
    exact iff_of_false (hold txn) (hnew txn)
  next => exact Iff.rfl

/-- One die changes its phase.  What the step does to the other fields of the
chip does not matter, as long as its transfer agrees with the new phase. -/
theorem move {bus' : Option Transfer}
    (hplaced : ∀ txn ∈ phase.data.activeTxns, txn.On g channel chip die) (hallowed : phase.Allowed)
    (huses : ∀ transfer : Transfer,
      transfer.Uses (phases.set chip die phase) ↔ bus' = some transfer)
    (hchange : DieChange chip die phase.data ch ch')
    (hnone : (ch'.chips chip).cmdXferQueue = []) (htallied : (ch'.chips chip).Tallied g)
    (hcurrent : ∀ other, (ch'.chips chip).currentXfer = some other ↔
      bus' = some (.dataIn chip other)) (hstatus : ch'.status = .busBusy ↔ bus'.isSome)
    (hwaiting : ∀ txn, txn ∈ ch'.waitingReadXfer ↔
      phases.set chip die phase txn.chip txn.die = .waiting txn)
    (hnodup : ch'.waitingReadXfer.Nodup) (hqueues : ch'.queues = ch.queues)
    (hprograms : ∀ entry ∈ ch'.programs, MayProgram g entry) (hrr : ch'.rrIndex = ch.rrIndex) :
    Sound g channel (phases.set chip die phase) bus' ch' where
  dies other otherDie := by
    rw [Phases.set_apply]
    by_cases hchip : other = chip
    · subst hchip
      rw [hchange.dies, update_apply]
      by_cases hdie : otherDie = die
      · rw [if_pos hdie, if_pos ⟨rfl, hdie⟩]
      · rw [if_neg hdie, if_neg fun hboth => hdie hboth.2]
        exact hsound.dies other otherDie
    · rw [hchange.others other hchip, if_neg fun hboth => hchip hboth.1]
      exact hsound.dies other otherDie
  noneQueued other := by
    by_cases hchip : other = chip
    · rw [hchip]
      exact hnone
    · rw [hchange.others other hchip]
      exact hsound.noneQueued other
  current other otherDie := by
    by_cases hchip : other = chip
    · subst hchip
      exact (hcurrent otherDie).trans (huses (.dataIn other otherDie)).symm
    · rw [hchange.others other hchip, Phases.set_of_ne fun heq => absurd heq hchip]
      exact hsound.current other otherDie
  placed other otherDie := by
    rw [Phases.set_apply]
    split
    next hsame =>
      rw [hsame.1, hsame.2]
      exact hplaced
    next => exact hsound.placed other otherDie
  allowed other otherDie := by
    rw [Phases.set_apply]
    split
    · exact hallowed
    · exact hsound.allowed other otherDie
  uses := huses
  status := hstatus
  waiting := hwaiting
  nodup := hnodup
  queued := by
    rw [hqueues]
    exact hsound.queued
  tallied other := by
    by_cases hchip : other = chip
    · rw [hchip]
      exact htallied
    · rw [hchange.others other hchip]
      exact hsound.tallied other
  programs := hprograms
  rr_lt := by
    rw [hrr]
    exact hsound.rr_lt

/-- The queues and the counters of the scheduler change. -/
theorem requeue {queues : ℕ → TxnQueue → List FilTask}
    (hqueued : ∀ chip queue, ∀ txn ∈ queues chip queue,
      txn.queue = some queue ∧ txn.On g channel chip txn.die)
    (count : ℕ → ℤ) {rr : ℕ} (hrr : rr < g.chipsPerChannel) :
    Sound g channel phases bus
      { ch with queues := queues, requestCount := count, rrIndex := rr } where
  __ := hsound
  queued := hqueued
  rr_lt := hrr

/-- One queue of the scheduler changes. -/
theorem setQueue
    {queue : TxnQueue} {txns : List FilTask} (htxns : ∀ txn ∈ txns,
      txn.queue = some queue ∧ txn.On g channel chip txn.die) :
    Sound g channel phases bus (ch.setQueue chip queue txns) := by
  have hqueued : ∀ other otherQueue, ∀ txn ∈ (ch.setQueue chip queue txns).queues other otherQueue,
      txn.queue = some otherQueue ∧ txn.On g channel other txn.die := by
    intro other otherQueue txn htxn
    rw [setQueue_apply] at htxn
    split at htxn
    next hsame =>
      rw [hsame.1, hsame.2]
      exact htxns txn htxn
    next => exact hsound.queued other otherQueue txn htxn
  exact hsound.requeue hqueued ch.requestCount hsound.rr_lt

end Sound

end Soda
