import Soda.Flash.TaskLedger

/-!
# Dispatches and the dispatches nested in them

A dispatch puts one task on an idle die.  A program keeps the bus until its
data is in; a read or an erase gives the bus back at once and calls the
scheduler again.  `Serves` is what every call into the scheduler guarantees on
an idle bus: it returns, and all it did to the tasks is to take some of them
from the queues to the dies.  The nesting is bounded by the number of queued
tasks, since each level takes one from the queues.
-/

namespace Soda

open Function ChannelData DiePhase ChipData List Bool FilTask

/-- The invariant of a channel between two calls. -/
def Good (g : Geometry) (channel : ℕ) (ch : ChannelData) : Prop :=
  ∃ phases bus, Sound g channel phases bus ch

/-- A call returned, and took tasks from the queues to the dies. -/
def Settles (g : Geometry) (channel : ℕ) (ch : ChannelData)
    (result : SchedulerResult ChannelData) : Prop :=
  ∃ ch' moved, result = .ok ch' ∧ Good g channel ch' ∧ Flow g moved 0 ch ch'

/-- What a call guarantees when the bus is idle and fewer than `depth` tasks
are queued. -/
def Serves (g : Geometry) (channel depth : ℕ)
    (call : ChannelData → SchedulerResult ChannelData) : Prop :=
  ∀ ch, Good g channel ch → ch.status = .busIdle → queueLength g ch < depth →
    Settles g channel ch (call ch)

namespace ChannelData

variable (ch : ChannelData)

variable (txn : FilTask)

def armed : ChannelData :=
  { ch.setChip txn.chip
      { (ch.chips txn.chip).setDie txn.die (dataIn txn).data with
        cmdXferQueue := [txn.die] } with
    status := .busBusy
    dispatched := ch.dispatched ++ [txn] }

def transferring : ChannelData :=
  ch.setChip txn.chip
    { ch.chips txn.chip with
      cmdXferQueue := []
      status := .cmdDataIn
      currentXfer := some txn.die }

/-- The command of a task is confirmed and the bus is free again. -/
def confirmed (chip : ℕ) (txn : FilTask) : ChannelData :=
  let data := ch.chips chip
  { ch.setChip chip
      { data.setDie txn.die (executing txn).data with
        currentXfer := none
        activeDies := data.activeDies + 1
        status := txn.type.chipStatus data.status } with
    status := .busIdle }

def programming : ChannelData :=
  { (ch.armed txn).transferring txn with
    programs := ch.programs ++ [(txn.die, (ch.armed txn).chips txn.chip)] }

def issued : ChannelData := ((ch.armed txn).transferring txn).confirmed txn.chip txn

@[simp]
theorem transferring_chips :
    ((ch.armed txn).transferring txn).chips = update ch.chips txn.chip
      { (ch.chips txn.chip).setDie txn.die (dataIn txn).data with
        cmdXferQueue := []
        status := .cmdDataIn
        currentXfer := some txn.die } := by
  simp [transferring, armed, setChip]

@[simp]
theorem programming_chips :
    (ch.programming txn).chips = ((ch.armed txn).transferring txn).chips := rfl

@[simp]
theorem confirmed_chips (chip : ℕ) (txn : FilTask) :
    (ch.confirmed chip txn).chips = update ch.chips chip
      { (ch.chips chip).setDie txn.die (executing txn).data with
        currentXfer := none
        activeDies := (ch.chips chip).activeDies + 1
        status := txn.type.chipStatus (ch.chips chip).status } := rfl

end ChannelData

section Transfers

variable {g : Geometry} {channel : ℕ} {phases : Phases} {calls : Callbacks} {ch : ChannelData}
  {txn : FilTask}

theorem flashCommandCode_one (hdump : txn.type ≠ .dump) :
    flashCommandCode 1 txn.type = some txn.command.code := by
  unfold command
  cases htype : txn.type with
  | read | write | erase => rfl
  | dump => exact absurd htype hdump

/-- The end of a transfer starts the array operation and frees the bus. -/
theorem completeChipTransfer_eq {chip : ℕ} (hcurrent : (ch.chips chip).currentXfer = some txn.die)
    (hdie : (ch.chips chip).dies txn.die = (dataIn txn).data)
    (hqueue : (ch.chips chip).cmdXferQueue = []) :
    completeChipTransfer calls chip ch = calls.tsuNotifyChannelIdle (ch.confirmed chip txn) := by
  have hstart : startDieCommand { ch.chips chip with currentXfer := none } txn.command =
      .ok { (ch.chips chip).setDie txn.die (executing txn).data with
        currentXfer := none
        activeDies := (ch.chips chip).activeDies + 1 } := by
    unfold startDieCommand command
    simp only [setDie]
    rw [show txn.addr.planeAddr.die = txn.die from rfl, hdie]
    rfl
  unfold completeChipTransfer
  rw [hcurrent]
  simp only [hdie, data]
  rw [hstart]
  simp only [bind, Except.bind]
  rw [if_neg (by simp [setDie, hqueue])]
  rfl

/-- The data of a program stays on the bus. -/
theorem startCmdDataTransfer_program (hcurrent : (ch.chips txn.chip).currentXfer = none)
    (htype : txn.type = .write) :
    startCmdDataTransfer calls txn.chip (ch.armed txn) = .ok (ch.programming txn) := by
  have hcode : txn.command.code = .programPage := by
    simp [command, htype, flashCommandCode]
  unfold startCmdDataTransfer
  simp only [programming, armed, transferring, setChip, setDie, update_self, hcurrent, data, hcode]
  rfl

/-- The command of a read or an erase is confirmed at once. -/
theorem startCmdDataTransfer_other (hcurrent : (ch.chips txn.chip).currentXfer = none)
    (hdump : txn.type ≠ .dump) (htype : txn.type ≠ .write) :
    startCmdDataTransfer calls txn.chip (ch.armed txn) =
      calls.tsuNotifyChannelIdle (ch.issued txn) := by
  have hcode : txn.command.code = .readPage ∨ txn.command.code = .eraseBlock := by
    unfold command
    cases hcase : txn.type <;> simp_all [flashCommandCode]
  have hcomplete : completeChipTransfer calls txn.chip ((ch.armed txn).transferring txn) =
      calls.tsuNotifyChannelIdle (ch.issued txn) := by
    apply completeChipTransfer_eq
    · simp [transferring, setChip]
    · simp [transferring, armed, setChip, setDie]
    · simp [transferring, setChip]
  rw [← hcomplete]
  unfold startCmdDataTransfer
  simp only [armed, transferring, setChip, setDie, update_self, hcurrent, data]
  rcases hcode with hread | herase
  · simp only [hread]
    rfl
  · simp only [herase]
    rfl

/-- The state in which an array operation has just started, whether the
command went out before or in the same call. -/
theorem Sound.confirmed {bus : Option Transfer} {started : ChannelData} {dieData : DieData}
    (hsound : Sound g channel phases bus ch)
    (hon : txn.On g channel txn.chip txn.die) (hdump : txn.type ≠ .dump) (hfree : bus = none ∨
      bus = (phases txn.chip txn.die).transfer txn.chip txn.die)
    (hphase : phases txn.chip txn.die = .idle ∨ phases txn.chip txn.die = .dataIn txn)
    (hchange : DieChange txn.chip txn.die dieData ch started)
    (hactive : (started.chips txn.chip).activeDies = (ch.chips txn.chip).activeDies)
    (hnone : (started.chips txn.chip).cmdXferQueue = [])
    (hwaiting : started.waitingReadXfer = ch.waitingReadXfer) (hqueues : started.queues = ch.queues)
    (hprograms : started.programs = ch.programs) (hrr : started.rrIndex = ch.rrIndex) :
    Sound g channel (phases.set txn.chip txn.die (.executing txn)) none
      (started.confirmed txn.chip txn) := by
  have hnext : DieChange txn.chip txn.die (executing txn).data ch
      (started.confirmed txn.chip txn) := by
    constructor
    · intro other hother
      simp [hother, hchange.others other hother]
    · simp [setDie, hchange.dies]
  apply hsound.move
  case hplaced =>
    intro other hother
    rw [mem_singleton.mp hother]
    exact hon
  case hallowed => exact hdump
  case huses => exact hsound.uses_take hfree
  case hchange => exact hnext
  case hnone => simp [setDie, hnone]
  case htallied =>
    apply (hsound.tallied txn.chip).change hon.die_lt hnext.dies
    · rw [hsound.dies]
      rcases hphase with hidle | hin
      · simp [hidle, hactive, data]
      · simp [hin, hactive, data]
    · simp [data]
  case hcurrent => simp
  case hstatus => simp [ChannelData.confirmed]
  case hwaiting =>
    intro other
    simp only [ChannelData.confirmed, ChannelData.setChip, hwaiting]
    apply hsound.waiting_keep _ (by simp) other
    rcases hphase with hidle | hin
    · simp [hidle]
    · simp [hin]
  case hnodup =>
    simp only [ChannelData.confirmed, ChannelData.setChip, hwaiting]
    exact hsound.nodup
  case hqueues => exact hqueues
  case hprograms =>
    simp only [ChannelData.confirmed, ChannelData.setChip, hprograms]
    exact hsound.programs
  case hrr => exact hrr

variable (hsound : Sound g channel phases none ch)
include hsound

theorem filDispatch_eq (hphase : phases txn.chip txn.die = .idle) (hdump : txn.type ≠ .dump) :
    filDispatch calls [txn] ch = startCmdDataTransfer calls txn.chip (ch.armed txn) := by
  have hdie : (ch.chips txn.chip).dies txn.die = idle.data := (hsound.at_phase hphase).1
  have hidle : ch.status = .busIdle := hsound.idle_iff.mpr rfl
  have hlength : ¬ maxCmdAddrs < [txn].length := by
    simp [maxCmdAddrs]
  unfold filDispatch
  simp only [hdie]
  rw [if_neg (by simp [data]), if_neg (by simp [hidle]),
    if_neg hlength, length_singleton, flashCommandCode_one hdump]
  simp only [hsound.noneQueued]
  rfl

/-- The state in which a program has just gone out. -/
theorem Sound.programming (hon : txn.On g channel txn.chip txn.die)
    (hphase : phases txn.chip txn.die = .idle) (htype : txn.type = .write)
    (hblocks : ∀ other < g.diesPerChip, ((ch.chips txn.chip).dies other).blocksProgram = false) :
    Sound g channel (phases.set txn.chip txn.die (.dataIn txn))
      (some (.dataIn txn.chip txn.die)) (ch.programming txn) := by
  have hchange : DieChange txn.chip txn.die (dataIn txn).data ch (ch.programming txn) :=
    .of_update (ch.transferring_chips txn) rfl
  apply hsound.move
  case hplaced =>
    intro other hother
    rw [mem_singleton.mp hother]
    exact hon
  case hallowed => exact htype
  case huses => exact hsound.uses_take (.inl rfl)
  case hchange => exact hchange
  case hnone | hcurrent => simp
  case htallied =>
    apply (hsound.tallied txn.chip).change hon.die_lt hchange.dies
    · simp [hsound.dies, hphase, data, setDie]
    · simp [data]
  case hstatus =>
    simp [ChannelData.programming, ChannelData.transferring, ChannelData.armed, ChannelData.setChip]
  case hwaiting =>
    apply hsound.waiting_keep
    · simp [hphase]
    · simp
  case hnodup => exact hsound.nodup
  case hqueues | hrr => rfl
  case hprograms =>
    intro entry hentry
    rcases mem_append.mp hentry with hbefore | hnew
    · exact hsound.programs entry hbefore
    · rw [mem_singleton.mp hnew]
      intro other hother hne
      simp only [ChannelData.armed, ChannelData.setChip, setDie, update_self]
      rw [update_of_ne hne]
      intro cmd
      exact DieData.blocksProgram_eq_false (hblocks other hother)

theorem Sound.issued (hon : txn.On g channel txn.chip txn.die)
    (hphase : phases txn.chip txn.die = .idle) (hdump : txn.type ≠ .dump) :
    Sound g channel (phases.set txn.chip txn.die (.executing txn)) none (ch.issued txn) := by
  apply hsound.confirmed hon hdump (.inl rfl) (.inl hphase)
    (.of_update (ch.transferring_chips txn) rfl)
  · simp [setDie]
  · simp
  · rfl
  · rfl
  · rfl
  · rfl

omit hsound

section Taken

variable {queue : TxnQueue} {rest : List FilTask}

theorem Flow.programming (hon : txn.On g channel txn.chip txn.die) (hkey : txn.queue = some queue)
    (htaken : Taken txn (ch.queues txn.chip queue) rest)
    (hidle : (ch.chips txn.chip).dies txn.die = idle.data) (htype : txn.type = .write) :
    Flow g {txn} (Pi.single txn.chip 1) ch ((ch.setQueue txn.chip queue rest).programming txn) := by
  have hchange : DieChange txn.chip txn.die (dataIn txn).data ch
      ((ch.setQueue txn.chip queue rest).programming txn) :=
    .of_update (transferring_chips _ txn) rfl
  apply Flow.dispatch hon hkey htaken hidle rfl (readsOut_data (.dataIn txn) htype) hchange
  · simp [setDie, setQueue]
  all_goals rfl

theorem Flow.issued (hon : txn.On g channel txn.chip txn.die) (hkey : txn.queue = some queue)
    (htaken : Taken txn (ch.queues txn.chip queue) rest)
    (hidle : (ch.chips txn.chip).dies txn.die = idle.data) (hdump : txn.type ≠ .dump) :
    Flow g {txn} (Pi.single txn.chip 1) ch ((ch.setQueue txn.chip queue rest).issued txn) := by
  have hchange : DieChange txn.chip txn.die (executing txn).data ch
      ((ch.setQueue txn.chip queue rest).issued txn) := by
    constructor
    · intro other hother
      simp [ChannelData.issued, ChannelData.setQueue, hother]
    · simp [ChannelData.issued, ChannelData.setQueue, setDie]
  apply Flow.dispatch hon hkey htaken hidle rfl (readsOut_data (.executing txn) hdump) hchange
  · simp [ChannelData.issued, setDie, ChannelData.setQueue]
  all_goals rfl

end Taken

end Transfers

section Choice

variable {g : Geometry} {channel : ℕ} {phases : Phases} {bus : Option Transfer} {ch : ChannelData}

/-- One task for the die is taken, or the queue has none for it. -/
theorem collect_eq (die page : ℕ) (txns : List FilTask) :
    (∃ txn rest, collect die page txns [] = ([txn], rest) ∧ txn.die = die ∧ Taken txn txns rest) ∨
    collect die page txns [] = ([], txns) ∧ ∀ txn ∈ txns, txn.die ≠ die := by
  induction txns with
  | nil => exact .inr ⟨rfl, fun _ htxn => absurd htxn not_mem_nil⟩
  | cons first txns ih =>
    by_cases hdie : first.die = die
    · left
      refine ⟨first, txns, ?_, hdie, .here txns⟩
      simp [collect, hdie, maxBatchNr]
    · have hskip : collect die page (first :: txns) [] = ((collect die page txns []).1,
            first :: (collect die page txns []).2) := by
        simp [collect, hdie]
      rw [hskip]
      rcases ih with ⟨txn, rest, hcollect, htxn, htaken⟩ | ⟨hcollect, hnone⟩
      · left
        refine ⟨txn, first :: rest, ?_, htxn, .later (htxn ▸ hdie) htaken⟩
        rw [hcollect]
      · right
        refine ⟨by rw [hcollect], ?_⟩
        intro txn htxn
        rcases mem_cons.mp htxn with rfl | hmem
        · exact hdie
        · exact hnone txn hmem

/-- What fills `dispatch_list`: at most one task, out of one of the queues. -/
theorem takeRequests_eq (chip : ℕ) (prim : TxnQueue) (sec : Option TxnQueue)
    (die page : ℕ) (ch : ChannelData) :
    (∃ txn queue rest, takeRequests chip prim sec die page ch =
        ([txn], ch.setQueue chip queue rest) ∧ (queue = prim ∨ sec = some queue) ∧ txn.die = die ∧
      Taken txn (ch.queues chip queue) rest) ∨ takeRequests chip prim sec die page ch = ([], ch) ∧
      ∀ txn ∈ ch.queues chip prim, txn.die ≠ die := by
  have hself : ∀ queue, ch.setQueue chip queue (ch.queues chip queue) = ch := by
    intro queue
    simp [setQueue]
  unfold takeRequests
  rcases collect_eq die page (ch.queues chip prim) with
    ⟨txn, rest, hcollect, hdie, htaken⟩ | ⟨hcollect, hnone⟩
  · left
    refine ⟨txn, prim, rest, ?_, .inl rfl, hdie, htaken⟩
    cases sec <;> simp [hcollect, maxBatchNr]
  · simp only [hcollect, hself]
    cases sec with
    | none => exact .inr ⟨rfl, hnone⟩
    | some queue =>
      have hempty : ([] : List FilTask).length < maxBatchNr := zero_lt_one
      simp only [if_pos hempty]
      rcases collect_eq die page (ch.queues chip queue) with
        ⟨txn, rest, hsecond, hdie, htaken⟩ | ⟨hsecond, -⟩
      · left
        refine ⟨txn, queue, rest, ?_, .inr rfl, hdie, htaken⟩
        rw [hsecond]
      · right
        refine ⟨?_, hnone⟩
        rw [hsecond, hself]

/-- Candidates come from the queue and are kept under their die. -/
theorem selectHeads_mem (txns : List FilTask) (seen : List ℕ)
    (head : ℕ → Option FilTask) {die : ℕ} {txn : FilTask}
    (hselect : selectHeads g ch txns seen head die = some txn) :
    head die = some txn ∨ txn ∈ txns ∧ txn.die = die := by
  have hadmit : ∀ (head : ℕ → Option FilTask) (first : FilTask) txns,
      update head first.die (some first) die = some txn →
      head die = some txn ∨ txn ∈ first :: txns ∧ txn.die = die := by
    intro head first txns hupdate
    rw [update_apply] at hupdate
    split at hupdate
    next hdie =>
      cases hupdate
      exact .inr ⟨mem_cons_self, hdie.symm⟩
    next => exact .inl hupdate
  fun_induction selectHeads g ch txns seen head with
  | case1 seen head => exact .inl hselect
  | case2 first txns seen head _ ih =>
    exact (ih hselect).imp_right fun hmem => ⟨mem_cons_of_mem first hmem.1, hmem.2⟩
  | case3 first txns seen head => exact .inl hselect
  | case4 first txns seen head _ _ _ ih =>
    exact (ih hselect).imp_right fun hmem => ⟨mem_cons_of_mem first hmem.1, hmem.2⟩
  | case5 first txns seen head => exact hadmit head first txns hselect
  | case6 first txns seen head => exact hadmit head first txns hselect
  | case7 first txns seen head _ _ _ _ _ ih =>
    rcases ih hselect with hupdate | hmem
    · exact hadmit head first txns hupdate
    · exact .inr ⟨mem_cons_of_mem first hmem.1, hmem.2⟩

/-- The candidate of a die is not replaced. -/
theorem selectHeads_of_seen (txns : List FilTask) (seen : List ℕ)
    (head : ℕ → Option FilTask) {die : ℕ} (hdie : die ∈ seen) :
    selectHeads g ch txns seen head die = head die := by
  fun_induction selectHeads g ch txns seen head with
  | case1 seen head => rfl
  | case2 first txns seen head _ ih => exact ih hdie
  | case3 first txns seen head => rfl
  | case4 first txns seen head _ _ _ ih => exact ih (.tail _ hdie)
  | case5 first txns seen head hnew => exact update_of_ne (ne_of_mem_of_not_mem hdie hnew) _ _
  | case6 first txns seen head hnew => exact update_of_ne (ne_of_mem_of_not_mem hdie hnew) _ _
  | case7 first txns seen head hnew _ _ _ _ ih =>
    rw [ih (.tail _ hdie)]
    exact update_of_ne (ne_of_mem_of_not_mem hdie hnew) _ _

/-- The first task of a queue is a candidate unless its die is busy. -/
theorem selectHeads_first {txn : FilTask} (txns : List FilTask)
    (hbusy : filIsDieBusy g (ch.chips txn.chip) txn.die (txn.type == .write) = false) :
    selectHeads g ch (txn :: txns) [] (fun _ => none) txn.die = some txn := by
  unfold selectHeads
  rw [if_neg not_mem_nil, if_neg (eq_false_iff.mp hbusy)]
  split
  · rw [update_self]
  · split
    · rw [update_self]
    · rw [selectHeads_of_seen txns _ _ mem_cons_self, update_self]

end Choice

section Calls

variable {g : Geometry} {channel depth : ℕ} {calls : Callbacks} {phases : Phases} {ch : ChannelData}

/-- A die that `fil_is_die_busy` lets through is at rest, and nothing on its
chip is in the way of a program. -/
theorem Sound.of_not_busy {bus : Option Transfer}
    (hsound : Sound g channel phases bus ch) {chip die : ℕ} {isProgram : Bool}
    (hbusy : filIsDieBusy g (ch.chips chip) die isProgram = false) :
    phases chip die = .idle ∧ (isProgram = true → ∀ other < g.diesPerChip,
        ((ch.chips chip).dies other).blocksProgram = false) := by
  unfold filIsDieBusy at hbusy
  rw [or_eq_false_iff] at hbusy
  constructor
  · have hnone := hbusy.2
    rw [hsound.dies] at hnone
    cases hphase : phases chip die <;>
      simp_all [data]
  · intro hprogram other hother
    have hblocks := hbusy.1
    rw [hprogram, Bool.true_and, List.any_eq_false] at hblocks
    simpa using hblocks other (mem_range.mpr hother)

variable {txn : FilTask} {found : ℕ} {stuck stuck' : Prop}
  {result : SchedulerResult (ℕ × ChannelData)} {prim : TxnQueue} {sec : Option TxnQueue}

/-- A task that was taken from its queue for an idle die is dispatched, along
with whatever the nested calls dispatch. -/
theorem filDispatch_taken (hcalls : Serves g channel depth calls.tsuNotifyChannelIdle)
    (hsound : Sound g channel phases none ch) {chip : ℕ} {queue : TxnQueue}
    {rest : List FilTask} (htaken : Taken txn (ch.queues chip queue) rest)
    (hbusy : filIsDieBusy g (ch.chips chip) txn.die (txn.type == .write) = false)
    (hdepth : queueLength g ch ≤ depth) :
    ∃ ch' moved, filDispatch calls [txn] (ch.setQueue chip queue rest) = .ok ch' ∧
      Good g channel ch' ∧ Flow g ({txn} + moved) (Pi.single chip 1) ch ch' := by
  have hmem : ∀ other, other ∈ ch.queues chip queue ↔ other = txn ∨ other ∈ rest := by
    intro other
    rw [← Multiset.mem_coe, htaken.perm, Multiset.mem_cons, Multiset.mem_coe]
  obtain ⟨hkey, hon⟩ := hsound.queued chip queue txn ((hmem txn).mpr (.inl rfl))
  obtain rfl := hon.chip_eq
  obtain ⟨hidle, hprogram⟩ := hsound.of_not_busy hbusy
  have hdump : txn.type ≠ .dump := by
    rw [type_of_queue hkey]
    cases queue <;> simp [TxnQueue.type]
  have hsound' : Sound g channel phases none (ch.setQueue txn.chip queue rest) := by
    apply hsound.setQueue
    intro other hother
    exact hsound.queued txn.chip queue other ((hmem other).mpr (.inr hother))
  have hcurrent : ((ch.setQueue txn.chip queue rest).chips txn.chip).currentXfer = none :=
    hsound'.current_eq_none (by simp)
  have hrest : (ch.chips txn.chip).dies txn.die = idle.data := (hsound.at_phase hidle).1
  rw [filDispatch_eq hsound' hidle hdump]
  by_cases hwrite : txn.type = .write
  · rw [startCmdDataTransfer_program hcurrent hwrite]
    refine ⟨_, 0, rfl, ?_, ?_⟩
    · exact ⟨_, _, hsound'.programming hon hidle hwrite (hprogram (by rw [hwrite]; rfl))⟩
    · exact .programming hon hkey htaken hrest hwrite
  · rw [startCmdDataTransfer_other hcurrent hdump hwrite]
    have hflow := Flow.issued hon hkey htaken hrest hdump
    have hless : queueLength g ((ch.setQueue txn.chip queue rest).issued txn) < depth := by
      have hlength := hflow.queueLength_eq
      rw [Multiset.card_singleton] at hlength
      omega
    obtain ⟨ch', moved, hcall, hgood, hnested⟩ :=
      hcalls _ ⟨_, _, hsound'.issued hon hidle hdump⟩ rfl hless
    refine ⟨ch', moved, hcall, hgood, ?_⟩
    have hboth := hflow.trans hnested
    rw [add_zero] at hboth
    exact hboth

/-- What a search for tasks of a chip did: it found some, on top of `found`
earlier ones, and the counter of the chip still has them.  If it found none
then it did nothing, and `stuck` tells why. -/
def Finds (g : Geometry) (channel chip found : ℕ) (ch : ChannelData)
    (stuck : Prop) (result : SchedulerResult (ℕ × ChannelData)) : Prop :=
  ∃ count ch' moved, result = .ok (found + count, ch') ∧
    Good g channel ch' ∧ Flow g moved (Pi.single chip (count : ℤ)) ch ch' ∧
    count ≤ moved.card ∧ (count = 0 → ch' = ch ∧ stuck)

variable {chip : ℕ}

theorem Finds.mono (hfinds : Finds g channel chip found ch stuck result) (hstuck : stuck → stuck') :
    Finds g channel chip found ch stuck' result := by
  obtain ⟨count, ch', moved, hresult, hgood, hflow, hmoved, hzero⟩ := hfinds
  refine ⟨count, ch', moved, hresult, hgood, hflow, hmoved, ?_⟩
  intro hcount
  exact ⟨(hzero hcount).1, hstuck (hzero hcount).2⟩

theorem Finds.done (found : ℕ) (hgood : Good g channel ch) (hstuck : stuck) :
    Finds g channel chip found ch stuck (.ok (found, ch)) := by
  refine ⟨0, ch, 0, rfl, hgood, ?_, Nat.zero_le _, ?_⟩
  · rw [Nat.cast_zero, Pi.single_zero]
    exact .refl g ch
  · intro _
    exact ⟨rfl, hstuck⟩

/-- One task was dispatched before the rest of the search. -/
theorem Finds.cons {next : ChannelData} {moved : Multiset FilTask}
    (hflow : Flow g ({txn} + moved) (Pi.single chip 1) ch next)
    (hfinds : Finds g channel chip (found + 1) next stuck result) :
    Finds g channel chip found ch stuck' result := by
  obtain ⟨count, ch', moved', hresult, hgood, hrest, hmoved, -⟩ := hfinds
  refine ⟨count + 1, ch', {txn} + moved + moved', ?_, hgood, ?_, ?_, ?_⟩
  · rw [hresult, add_assoc, add_comm 1 count]
  · have hboth := hflow.trans hrest
    rw [← Pi.single_add, add_comm (1 : ℤ)] at hboth
    exact_mod_cast hboth
  · rw [Multiset.card_add, Multiset.card_add, Multiset.card_singleton]
    omega
  · intro hzero
    exact absurd hzero (Nat.succ_ne_zero count)

/-- Nothing can be dispatched to a die from a queue. -/
def Blocked (g : Geometry) (ch : ChannelData) (chip : ℕ) (queue : TxnQueue) (die : ℕ) : Prop :=
  filIsDieBusy g (ch.chips chip) die (queue.type == .write) = true ∨
    ∀ txn ∈ ch.queues chip queue, txn.die ≠ die

variable (hcalls : Serves g channel depth calls.tsuNotifyChannelIdle)
include hcalls

/-- The loop over the dies of a chip. -/
theorem dispatchHeads_finds {chip : ℕ} {head : ℕ → Option FilTask}
    (hsec : ∀ queue, sec = some queue → queue.type = prim.type)
    (hhead : ∀ die txn, head die = some txn → txn.chip = chip ∧ txn.type = prim.type)
    (dies : List ℕ) (found : ℕ) (hgood : Good g channel ch)
    (hidle : ch.status = .busIdle) (hdepth : queueLength g ch ≤ depth) :
    Finds g channel chip found ch (∀ die ∈ dies, head die ≠ none → Blocked g ch chip prim die)
      (dispatchHeads g calls chip prim sec head dies found ch) := by
  induction dies generalizing found ch with
  | nil =>
    apply Finds.done found hgood
    intro _ hdie
    exact absurd hdie not_mem_nil
  | cons die dies ih =>
    -- A die that gets nothing is blocked, or has no candidate.
    have hskip : (head die ≠ none → Blocked g ch chip prim die) → Finds g channel chip found ch
          (∀ other ∈ die :: dies, head other ≠ none → Blocked g ch chip prim other)
          (dispatchHeads g calls chip prim sec head dies found ch) := by
      intro hblocked
      apply (ih found hgood hidle hdepth).mono
      intro hrest other hother
      rcases mem_cons.mp hother with rfl | hmem
      · exact hblocked
      · exact hrest other hmem
    unfold dispatchHeads
    cases hfirst : head die with
    | none =>
      apply hskip
      intro hsome
      exact absurd hfirst hsome
    | some first =>
      obtain ⟨hchip, htype⟩ := hhead die first hfirst
      simp only [hchip, htype]
      by_cases hbusy : filIsDieBusy g (ch.chips chip) die (prim.type == .write) = true
      · rw [if_pos hbusy]
        exact hskip fun _ => .inl hbusy
      · rw [if_neg hbusy]
        rcases takeRequests_eq chip prim sec die first.page ch with
          ⟨txn, queue, rest, htake, hfrom, hdie, htaken⟩ | ⟨htake, hnone⟩
        · obtain ⟨phases, bus, hsound⟩ := hgood
          obtain rfl := hsound.bus_eq_none hidle
          have hmem : txn ∈ ch.queues chip queue := by
            rw [← Multiset.mem_coe, htaken.perm]
            exact Multiset.mem_cons_self txn _
          have hkind : txn.type = prim.type := by
            rw [type_of_queue (hsound.queued chip queue txn hmem).1]
            rcases hfrom with rfl | hsecond
            · rfl
            · exact hsec queue hsecond
          have hfree : filIsDieBusy g (ch.chips chip) txn.die (txn.type == .write) = false := by
            rw [hkind, hdie]
            exact eq_false_iff.mpr hbusy
          obtain ⟨next, moved, hcall, hnext, hflow⟩ :=
            filDispatch_taken hcalls hsound htaken hfree hdepth
          rw [htake]
          simp only [hcall, bind, Except.bind, length_singleton]
          by_cases hstatus : next.status = .busIdle
          · rw [if_neg (not_not.mpr hstatus)]
            apply Finds.cons hflow
            apply ih (found + 1) hnext hstatus
            have hlength := hflow.queueLength_eq
            omega
          · rw [if_pos hstatus]
            exact Finds.cons hflow (Finds.done (found + 1) hnext trivial)
        · rw [htake]
          simp only [filDispatch, bind, Except.bind, hidle]
          exact hskip fun _ => .inr hnone

def FrontBusy (g : Geometry) (ch : ChannelData) (chip : ℕ) (queue : TxnQueue) : Prop :=
  ∀ txn ∈ (ch.queues chip queue).head?,
    filIsDieBusy g (ch.chips chip) txn.die (queue.type == .write) = true

theorem dispatchQueueRequest_finds (chip : ℕ)
    (hsec : ∀ queue, sec = some queue → queue.type = prim.type)
    (hgood : Good g channel ch) (hidle : ch.status = .busIdle) (hdepth : queueLength g ch ≤ depth) :
    Finds g channel chip 0 ch (FrontBusy g ch chip prim)
      (dispatchQueueRequest g calls chip prim sec ch) := by
  obtain ⟨phases, bus, hsound⟩ := hgood
  apply Finds.mono
  · apply dispatchHeads_finds hcalls hsec
    · intro die txn hselect
      rcases selectHeads_mem _ _ _ hselect with hnone | ⟨hmem, -⟩
      · cases hnone
      · obtain ⟨hkey, hon⟩ := hsound.queued chip prim txn hmem
        exact ⟨hon.chip_eq, type_of_queue hkey⟩
    · exact ⟨phases, bus, hsound⟩
    · exact hidle
    · exact hdepth
  · intro hblocked txn hfirst
    obtain ⟨rest, hqueue⟩ := head?_eq_some_iff.mp hfirst
    have hmem : txn ∈ ch.queues chip prim := by
      rw [hqueue]
      exact mem_cons_self
    obtain ⟨hkey, hon⟩ := hsound.queued chip prim txn hmem
    by_contra hbusy
    have hfree : filIsDieBusy g (ch.chips txn.chip) txn.die (txn.type == .write) = false := by
      rw [hon.chip_eq, type_of_queue hkey]
      exact eq_false_iff.mpr hbusy
    have hselect := selectHeads_first rest hfree
    rw [← hqueue] at hselect
    rcases hblocked txn.die (mem_range.mpr hon.die_lt)
      (by rw [hselect]; exact Option.some_ne_none txn) with hbusy' | hnone
    · exact hbusy hbusy'
    · exact hnone txn hmem rfl

/-- A choice of queues that hold the same kind of task. -/
def Uniform (choice : Option (TxnQueue × Option TxnQueue)) : Prop :=
  ∀ prim sec, choice = some (prim, sec) → ∀ queue, sec = some queue → queue.type = prim.type

theorem dispatchFrom_spec {choice : Option (TxnQueue × Option TxnQueue)} (huniform : Uniform choice)
    (chip : ℕ) (hgood : Good g channel ch) (hidle : ch.status = .busIdle)
    (hdepth : queueLength g ch ≤ depth) :
    ∃ found ch' moved, dispatchFrom g calls choice chip ch = .ok (found, ch') ∧
      Good g channel ch' ∧ Flow g moved 0 ch ch' ∧ (found = true → moved ≠ 0) ∧
      (found = false → ch' = ch ∧
        ∀ prim sec, choice = some (prim, sec) → FrontBusy g ch chip prim) := by
  cases choice with
  | none =>
    refine ⟨false, ch, 0, rfl, hgood, .refl g ch, ?_, ?_⟩
    · intro htrue
      cases htrue
    · intro _
      refine ⟨rfl, ?_⟩
      intro _ _ hsome
      cases hsome
  | some queues =>
    obtain ⟨prim, sec⟩ := queues
    obtain ⟨count, next, moved, hcall, hnext, hflow, hmoved, hzero⟩ :=
      dispatchQueueRequest_finds hcalls chip (huniform prim sec rfl) hgood hidle hdepth
    rw [zero_add] at hcall
    refine ⟨decide (0 < count), next.addRequests chip (-count), moved, ?_, ?_, ?_, ?_, ?_⟩
    · simp only [dispatchFrom, hcall]
      rfl
    · obtain ⟨phases, bus, hsound⟩ := hnext
      exact ⟨phases, bus, hsound.requeue hsound.queued _ hsound.rr_lt⟩
    · have hboth := hflow.trans (.addRequests g next chip (-count))
      rw [add_zero, ← Pi.single_add, add_neg_cancel, Pi.single_zero] at hboth
      exact hboth
    · intro hfound hnone
      rw [hnone, Multiset.card_zero] at hmoved
      have hpos := of_decide_eq_true hfound
      omega
    · intro hfound
      have hcount : count = 0 := Nat.eq_zero_of_not_pos (of_decide_eq_false hfound)
      obtain ⟨hsame, hbusy⟩ := hzero hcount
      constructor
      · rw [hsame, hcount]
        simp [addRequests]
      · intro prim' sec' hchoice
        cases hchoice
        exact hbusy

omit hcalls

variable (queues : TxnQueue → List FilTask)

theorem uniform_readQueues : Uniform (readQueues queues) := by
  intro prim sec hchoice queue hsec
  unfold readQueues at hchoice
  split_ifs at hchoice <;> cases hchoice <;> cases hsec <;> rfl

theorem uniform_writeQueues : Uniform (writeQueues queues) := by
  intro prim sec hchoice queue hsec
  unfold writeQueues at hchoice
  split_ifs at hchoice <;> cases hchoice <;> cases hsec <;> rfl

theorem uniform_eraseQueues : Uniform (eraseQueues queues) := by
  intro prim sec hchoice queue hsec
  unfold eraseQueues at hchoice
  split_ifs at hchoice
  cases hchoice
  cases hsec

/-- No kind of task of a chip can be dispatched. -/
structure Stuck (g : Geometry) (ch : ChannelData) (chip : ℕ) : Prop where
  read : ∀ prim sec, readQueues (ch.queues chip) = some (prim, sec) → FrontBusy g ch chip prim
  write : ∀ prim sec, writeQueues (ch.queues chip) = some (prim, sec) → FrontBusy g ch chip prim
  erase : ∀ prim sec, eraseQueues (ch.queues chip) = some (prim, sec) → FrontBusy g ch chip prim

variable (hcalls : Serves g channel depth calls.tsuNotifyChannelIdle)
include hcalls

theorem dispatchRequest_spec (chip : ℕ)
    (hgood : Good g channel ch) (hidle : ch.status = .busIdle) (hdepth : queueLength g ch ≤ depth) :
    ∃ ch' moved, dispatchRequest g calls chip ch = .ok ch' ∧
      Good g channel ch' ∧ Flow g moved 0 ch ch' ∧ (moved = 0 → ch' = ch ∧ Stuck g ch chip) := by
  unfold dispatchRequest dispatchReadRequest dispatchWriteRequest dispatchEraseRequest
  obtain ⟨found, next, moved, hread, hnext, hflow, hsome, hnone⟩ :=
    dispatchFrom_spec hcalls (uniform_readQueues (ch.queues chip)) chip hgood hidle hdepth
  rw [hread]
  cases found with
  | true =>
    refine ⟨next, moved, rfl, hnext, hflow, ?_⟩
    intro hzero
    exact absurd hzero (hsome rfl)
  | false =>
    obtain ⟨rfl, hreadBusy⟩ := hnone rfl
    obtain ⟨found, written, moved, hwrite, hwritten, hflow, hsome, hnone⟩ :=
      dispatchFrom_spec hcalls (uniform_writeQueues (next.queues chip)) chip hnext hidle hdepth
    simp only [bind, Except.bind, false_eq_true, if_false, hwrite]
    cases found with
    | true =>
      refine ⟨written, moved, rfl, hwritten, hflow, ?_⟩
      intro hzero
      exact absurd hzero (hsome rfl)
    | false =>
      obtain ⟨rfl, hwriteBusy⟩ := hnone rfl
      obtain ⟨found, erased, moved, herase, herased, hflow, hsome, hnone⟩ :=
        dispatchFrom_spec hcalls (uniform_eraseQueues (written.queues chip))
          chip hwritten hidle hdepth
      simp only [false_eq_true, if_false, herase]
      refine ⟨erased, moved, rfl, herased, hflow, ?_⟩
      intro hzero
      cases found with
      | true => exact absurd hzero (hsome rfl)
      | false =>
        obtain ⟨rfl, heraseBusy⟩ := hnone rfl
        exact ⟨rfl, hreadBusy, hwriteBusy, heraseBusy⟩

/-- The chips of a channel in the order of one round. -/
def roundChip (g : Geometry) (ch : ChannelData) (turn : ℕ) : ℕ :=
  (ch.rrIndex + turn) % g.chipsPerChannel

/-- The loop over the chips of a channel. -/
theorem flushChips_spec (turns : ℕ)
    (hgood : Good g channel ch) (hidle : ch.status = .busIdle) (hdepth : queueLength g ch ≤ depth) :
    ∃ ch' moved, flushChips g calls turns ch = .ok ch' ∧
      Good g channel ch' ∧ Flow g moved 0 ch ch' ∧ (moved = 0 → ∀ turn < turns,
        ch.requestCount (roundChip g ch turn) = 0 ∨ Stuck g ch (roundChip g ch turn)) := by
  induction turns generalizing ch with
  | zero =>
    refine ⟨ch, 0, rfl, hgood, .refl g ch, ?_⟩
    intro _ turn hturn
    exact absurd hturn (Nat.not_lt_zero turn)
  | succ turns ih =>
    -- The turn of one chip, which does nothing if it moves nothing.
    have hturn : ∃ next moved, flushChip g calls ch.rrIndex ch = .ok next ∧
        Good g channel next ∧ Flow g moved 0 ch next ∧
        (moved = 0 → next = ch ∧ (ch.requestCount ch.rrIndex = 0 ∨ Stuck g ch ch.rrIndex)) := by
      unfold flushChip
      by_cases hcount : ch.requestCount ch.rrIndex = 0
      · rw [if_neg (not_not.mpr hcount)]
        exact ⟨ch, 0, rfl, hgood, .refl g ch, fun _ => ⟨rfl, .inl hcount⟩⟩
      · rw [if_pos hcount]
        obtain ⟨next, moved, hcall, hnext, hflow, hzero⟩ :=
          dispatchRequest_spec hcalls ch.rrIndex hgood hidle hdepth
        exact ⟨next, moved, hcall, hnext, hflow, fun hmoved => (hzero hmoved).imp_right .inr⟩
    obtain ⟨next, moved, hcall, hnext, hflow, hzero⟩ := hturn
    have hturned : Good g channel
        { next with rrIndex := (next.rrIndex + 1) % g.chipsPerChannel } := by
      obtain ⟨phases, bus, hsound⟩ := hnext
      exact ⟨phases, bus, hsound.requeue hsound.queued next.requestCount (Nat.mod_lt _ g.chips_pos)⟩
    have hflow' : Flow g moved 0 ch
        { next with rrIndex := (next.rrIndex + 1) % g.chipsPerChannel } :=
      ⟨hflow.queued_eq, hflow.active_eq, hflow.dispatched_eq, hflow.reported_eq, hflow.ahead_eq,
        hflow.lineup_eq, hflow.excess_eq⟩
    unfold flushChips
    rw [hcall]
    simp only [bind, Except.bind]
    by_cases hstatus : next.status = .busIdle
    · rw [if_neg (not_not.mpr hstatus)]
      obtain ⟨ch', moved', hrest, hgood', hlater, hstuck⟩ :=
        ih hturned hstatus (by
          have hlength := hflow'.queueLength_eq
          omega)
      refine ⟨ch', moved + moved', hrest, hgood', ?_, ?_⟩
      · have hboth := hflow'.trans hlater
        exact hboth
      · intro hnone turn hlt
        obtain ⟨hfirst, hsecond⟩ := add_eq_zero.mp hnone
        obtain ⟨rfl, hnow⟩ := hzero hfirst
        cases turn with
        | zero =>
          obtain ⟨_, _, hsound⟩ := hgood
          rw [roundChip, Nat.add_zero, Nat.mod_eq_of_lt hsound.rr_lt]
          exact hnow
        | succ turn =>
          have hround : roundChip g next (turn + 1) =
              roundChip g { next with
                rrIndex := (next.rrIndex + 1) % g.chipsPerChannel }
                turn := by
            simp only [roundChip, Nat.mod_add_mod]
            ring_nf
          rw [hround]
          rcases hstuck hsecond turn (Nat.lt_of_succ_lt_succ hlt) with
            hcount | hbusy
          · exact .inl hcount
          · exact .inr ⟨hbusy.read, hbusy.write, hbusy.erase⟩
    · rw [if_pos hstatus]
      refine ⟨_, moved, rfl, hturned, hflow', ?_⟩
      intro hnone
      rw [(hzero hnone).1] at hstatus
      exact absurd hidle hstatus

theorem serves_tsuFlushChannel : Serves g channel (depth + 1) (tsuFlushChannel g calls) := by
  intro ch hgood hidle hdepth
  obtain ⟨ch', moved, hcall, hgood', hflow, -⟩ :=
    flushChips_spec hcalls g.chipsPerChannel hgood hidle (Nat.le_of_lt_succ hdepth)
  exact ⟨ch', moved, hcall, hgood', hflow⟩

theorem serves_dispatchRequest (chip : ℕ) :
    Serves g channel (depth + 1) (dispatchRequest g calls chip) := by
  intro ch hgood hidle hdepth
  obtain ⟨ch', moved, hcall, hgood', hflow, -⟩ :=
    dispatchRequest_spec hcalls chip hgood hidle (Nat.le_of_lt_succ hdepth)
  exact ⟨ch', moved, hcall, hgood', hflow⟩

end Calls

/-- Calls nested as deep as there are queued tasks suffice. -/
theorem serves_callbacks (g : Geometry) (channel depth : ℕ) :
    Serves g channel depth (callbacks g depth).tsuNotifyChannelIdle := by
  induction depth with
  | zero =>
    intro ch _ _ hdepth
    exact absurd hdepth (Nat.not_lt_zero _)
  | succ depth ih => exact serves_tsuFlushChannel ih

end Soda
