import Soda.Flash.Fil

/-!
# The transaction scheduling unit and the flash interface layer

The flash processor keeps seven queues of transactions for each chip
(`tsu.c`) and drives the dies through four stages (`fil.c`): the command and
the data of a program go over the bus of the channel, the array operation
runs on the die alone, and the data of a read comes back over the bus.  A
dispatch that ends its bus transfer at once, a read or an erase, calls the
scheduler again before it returns.

The state of a channel is one record, since no call made for one channel
touches another.  Calls that close the recursion, `start_cmd_data_transfer`
for the next queued command and `tsu_notify_channel_idle`, are parameters of
the functions here and are tied together by `callbacks`, whose argument bounds
the depth of the nesting.  A failed assertion and a nesting beyond the bound
are faults.

`chip_in_transfer_list`, `die_command_avl` and `chip_out_transfer_list` hold
the chips whose `current_xfer` is set, the dies whose `current_cmd` is set and
the dies whose `active_xfer` is set; a chip or a die enters and leaves them
together with these fields.
-/

namespace Soda

open Function List

/-- A transaction in the hands of the flash processor.  The serial number is
that of its acceptance, so that two uses of one slot are two tasks. -/
structure FilTask where
  serial : ℕ
  request : FilRequest
  deriving DecidableEq, Repr

namespace FilTask

def type (txn : FilTask) : FilTaskType := txn.request.type
def addr (txn : FilTask) : FlashAddress := txn.request.addr
def channel (txn : FilTask) : ℕ := txn.addr.planeAddr.channel
def chip (txn : FilTask) : ℕ := txn.addr.planeAddr.chip
def die (txn : FilTask) : ℕ := txn.addr.planeAddr.die
def plane (txn : FilTask) : ℕ := txn.addr.planeAddr.plane
def page (txn : FilTask) : ℕ := txn.addr.page

end FilTask

/-- `enum flash_command_code`, the codes that `fil_dispatch` uses. -/
inductive FlashCommandCode
  | readPage | readPageMultiplane
  | programPage | programPageMultiplane
  | eraseBlock | eraseBlockMultiplane
  deriving DecidableEq, Repr

def FlashCommandCode.isRead : FlashCommandCode → Bool
  | readPage | readPageMultiplane => true
  | _ => false

structure FlashCommand where
  code : FlashCommandCode
  addrs : List FlashAddress
  deriving DecidableEq, Repr

structure DieData where
  activeCmd : Option FlashCommand
  currentCmd : Option FlashCommand
  activeTxns : List FilTask
  activeXfer : Option FilTask
  deriving DecidableEq, Repr

def DieData.init : DieData := ⟨none, none, [], none⟩

inductive ChipStatus
  | idle | cmdDataIn | waitForDataOut | dataOut | reading | writing | erasing
  deriving DecidableEq, Repr

/-- `struct chip_data`.  The dies in `cmdXferQueue` and `currentXfer` are
given by their number. -/
structure ChipData where
  status : ChipStatus
  dies : ℕ → DieData
  activeDies : BitVec 32
  cmdXferQueue : List ℕ
  currentXfer : Option ℕ
  nrWaitingReadXfers : BitVec 32

def ChipData.init : ChipData := ⟨.idle, fun _ => DieData.init, 0, [], none, 0⟩

def ChipData.setDie (chip : ChipData) (die : ℕ) (data : DieData) : ChipData :=
  { chip with dies := update chip.dies die data }

inductive TxnQueue
  | read | write | mappingRead | mappingWrite | gcRead | gcWrite | gcErase
  deriving DecidableEq, Repr

instance : Fintype TxnQueue where
  elems := {.read, .write, .mappingRead, .mappingWrite, .gcRead, .gcWrite,
    .gcErase}
  complete := by
    intro queue
    cases queue <;> decide

inductive ChannelStatus
  | busIdle | busBusy
  deriving DecidableEq, Repr

/-- `struct channel_data` with the entries of `channel_status`, `chip_queues`,
`request_count` and `channel_rr_index` for the channel.  The last three fields
are the history: the transactions given to `fil_dispatch`, those given to
`notify_task_complete` with the error flag, and, for each program that went
out on the bus, its die and the chip at that moment. -/
structure ChannelData where
  status : ChannelStatus
  chips : ℕ → ChipData
  waitingReadXfer : List FilTask
  queues : ℕ → TxnQueue → List FilTask
  requestCount : ℕ → ℤ
  rrIndex : ℕ
  dispatched : List FilTask
  reported : List (FilTask × Bool)
  programs : List (ℕ × ChipData)

namespace ChannelData

def init : ChannelData where
  status := .busIdle
  chips := fun _ => ChipData.init
  waitingReadXfer := []
  queues := fun _ _ => []
  requestCount := fun _ => 0
  rrIndex := 0
  dispatched := []
  reported := []
  programs := []

def setChip (ch : ChannelData) (chip : ℕ) (data : ChipData) : ChannelData :=
  { ch with chips := update ch.chips chip data }

def setQueue (ch : ChannelData) (chip : ℕ) (queue : TxnQueue) (txns : List FilTask) : ChannelData :=
  { ch with
    queues := update ch.queues chip (update (ch.queues chip) queue txns) }

def addRequests (ch : ChannelData) (chip : ℕ) (count : ℤ) : ChannelData :=
  { ch with
    requestCount := update ch.requestCount chip (ch.requestCount chip + count) }

end ChannelData

/-- Assertions, dereferences of null pointers and the bound on the nesting. -/
inductive SchedulerFault
  | nesting
  /-- `tsu_process_task`: `queue`. -/
  | noQueue
  /-- `fil_dispatch`: `!die->active_cmd`. -/
  | dieActive
  /-- `fil_dispatch`: the channel is idle or the chip has a transfer. -/
  | channelBusy
  /-- `fil_dispatch`: `txn_count < MAX_CMD_ADDRS`. -/
  | tooManyAddrs
  /-- `start_cmd_data_transfer`: `!chip->current_xfer`. -/
  | transferActive
  /-- `start_data_out_transfer`: `!die->active_xfer`. -/
  | dataOutActive
  /-- `start_data_out_transfer`: `txn->type == TXN_READ`. -/
  | notRead
  /-- `complete_chip_transfer`: `!list_empty(&die->active_txns)`. -/
  | noTransaction
  | noTransfer
  | noCommand
  deriving DecidableEq, Repr

abbrev SchedulerResult := Except SchedulerFault

/-! ## Starting and completing stages -/

section Interface

variable (g : Geometry)

def DieData.blocksProgram (die : DieData) : Bool :=
  match die.activeCmd with
  | none => false
  | some cmd => cmd.code.isRead || die.currentCmd.isNone

/-- Its range assertions hold for every address that was accepted. -/
def filIsDieBusy (chip : ChipData) (die : ℕ) (isProgram : Bool) : Bool :=
  (isProgram && (range g.diesPerChip).any fun other => (chip.dies other).blocksProgram) ||
  (chip.dies die).activeCmd.isSome

/-- The calls that lead back into code that is already running. -/
structure Callbacks where
  startCmdDataTransfer : ℕ → ChannelData → SchedulerResult ChannelData
  tsuNotifyChannelIdle : ChannelData → SchedulerResult ChannelData

variable (calls : Callbacks)

def startDataOutTransfer (ch : ChannelData) : SchedulerResult ChannelData :=
  if ch.status ≠ .busIdle then .ok ch
  else
    match ch.waitingReadXfer with
    | [] => .ok ch
    | txn :: waiting =>
      let chip := ch.chips txn.chip
      let die := chip.dies txn.die
      if die.activeXfer.isSome then .error .dataOutActive
      else if txn.type ≠ .read then .error .notRead
      else
        .ok { ch.setChip txn.chip
            { chip.setDie txn.die { die with activeXfer := some txn } with
              status := .dataOut } with
          status := .busBusy
          waitingReadXfer := waiting }

def startDieCommand (chip : ChipData) (cmd : FlashCommand) : SchedulerResult ChipData :=
  match cmd.addrs with
  | [] => .error .noCommand
  | addr :: _ =>
    let die := addr.planeAddr.die
    .ok { chip.setDie die { chip.dies die with currentCmd := some cmd } with
      activeDies := chip.activeDies + 1 }

/-- The status of a chip whose command just went to the array. -/
def FilTaskType.chipStatus (status : ChipStatus) : FilTaskType → ChipStatus
  | read => .reading
  | write => .writing
  | erase => .erasing
  | dump => status

def completeChipTransfer (chip : ℕ) (ch : ChannelData) : SchedulerResult ChannelData :=
  match (ch.chips chip).currentXfer with
  | none => .error .noTransfer
  | some die =>
    match ((ch.chips chip).dies die).activeTxns, ((ch.chips chip).dies die).activeCmd with
    | [], _ => .error .noTransaction
    | _, none => .error .noCommand
    | head :: _, some cmd => do
        let data ← startDieCommand
          { ch.chips chip with currentXfer := none } cmd
        if data.cmdXferQueue ≠ [] then
          calls.startCmdDataTransfer chip (ch.setChip chip data)
        else
          calls.tsuNotifyChannelIdle
            { ch.setChip chip
                { data with status := head.type.chipStatus data.status } with
              status := .busIdle }

def startCmdDataTransfer (chip : ℕ) (ch : ChannelData) : SchedulerResult ChannelData :=
  let data := ch.chips chip
  if data.currentXfer.isSome then .error .transferActive
  else
    match data.cmdXferQueue with
    | [] => .ok ch
    | die :: queue =>
      let started := ch.setChip chip
        { data with
          cmdXferQueue := queue
          status := .cmdDataIn
          currentXfer := some die }
      match (data.dies die).activeCmd with
      | none => .error .noCommand
      | some cmd =>
        match cmd.code with
        | .readPage | .eraseBlock => completeChipTransfer calls chip started
        | .programPage =>
          .ok { started with
            programs := started.programs ++ [(die, data)] }
        -- Not supported: a message is printed and the transfer stays.
        | _ => .ok started

def maxCmdAddrs : ℕ := 4

/-- The code of a command for `count` transactions.  A dump would leave the
code of the last command in place; none reaches the scheduler. -/
def flashCommandCode (count : ℕ) : FilTaskType → Option FlashCommandCode
  | .read => some (if count = 1 then .readPage else .readPageMultiplane)
  | .write => some (if count = 1 then .programPage else .programPageMultiplane)
  | .erase => some (if count = 1 then .eraseBlock else .eraseBlockMultiplane)
  | .dump => none

def filDispatch (txns : List FilTask) (ch : ChannelData) : SchedulerResult ChannelData :=
  match txns with
  | [] => .ok ch
  | head :: _ =>
    let chip := ch.chips head.chip
    let die := chip.dies head.die
    if die.activeCmd.isSome then .error .dieActive
    else if ch.status ≠ .busIdle ∧ chip.currentXfer = none then
      .error .channelBusy
    else if maxCmdAddrs < txns.length then .error .tooManyAddrs
    else
      match flashCommandCode txns.length head.type with
      | none => .error .noCommand
      | some code =>
        let armed : DieData :=
          { die with
            activeCmd := some ⟨code, txns.map FilTask.addr⟩
            activeTxns := txns ++ die.activeTxns }
        startCmdDataTransfer calls head.chip
          { ch.setChip head.chip
              { chip.setDie head.die armed with
                cmdXferQueue := chip.cmdXferQueue ++ [head.die] } with
            status := .busBusy
            dispatched := ch.dispatched ++ txns }

/-! ## Choosing what to dispatch -/

/-- Without `ENABLE_MULTIPLANE`. -/
def maxBatchNr : ℕ := 1

/-- The first loop of `dispatch_queue_request`, with the dies of `die_bitmap`
as a list: one candidate for each die. -/
def selectHeads (ch : ChannelData) :
    List FilTask → List ℕ → (ℕ → Option FilTask) → ℕ → Option FilTask
  | [], _, head => head
  | txn :: txns, seen, head =>
    if txn.die ∈ seen then selectHeads ch txns seen head
    else if filIsDieBusy g (ch.chips txn.chip) txn.die (txn.type == .write) then
      if ∀ die < g.diesPerChip, die ∈ txn.die :: seen then head
      else selectHeads ch txns (txn.die :: seen) head
    else
      let admitted := update head txn.die (some txn)
      if txn.type = .write then admitted
      else if ∀ die < g.diesPerChip, die ∈ txn.die :: seen then admitted
      else selectHeads ch txns (txn.die :: seen) admitted

/-- The transactions of one queue that join a command, and what is left of the
queue.  `plane_bitmap` is the set of the planes of `taken`. -/
def collect (die page : ℕ) :
    List FilTask → List FilTask → List FilTask × List FilTask
  | [], taken => (taken, [])
  | txn :: txns, taken =>
    if txn.die = die ∧ txn.plane ∉ taken.map FilTask.plane ∧ (taken = [] ∨ txn.page = page) then
      if maxBatchNr ≤ taken.length + 1 then (taken ++ [txn], txns)
      else collect die page txns (taken ++ [txn])
    else
      let rest := collect die page txns taken
      (rest.1, txn :: rest.2)

/-- The two loops that fill `dispatch_list`. -/
def takeRequests (chip : ℕ) (prim : TxnQueue) (sec : Option TxnQueue)
    (die page : ℕ) (ch : ChannelData) : List FilTask × ChannelData :=
  let first := collect die page (ch.queues chip prim) []
  let ch := ch.setQueue chip prim first.2
  match sec with
  | none => (first.1, ch)
  | some queue =>
    if first.1.length < maxBatchNr then
      let second := collect die page (ch.queues chip queue) first.1
      (second.1, ch.setQueue chip queue second.2)
    else (first.1, ch)

/-- The second loop of `dispatch_queue_request`, over the dies of the chip. -/
def dispatchHeads (chip : ℕ) (prim : TxnQueue) (sec : Option TxnQueue) (head : ℕ → Option FilTask) :
    List ℕ → ℕ → ChannelData → SchedulerResult (ℕ × ChannelData)
  | [], found, ch => .ok (found, ch)
  | die :: dies, found, ch =>
    match head die with
    | none => dispatchHeads chip prim sec head dies found ch
    | some first =>
      if filIsDieBusy g (ch.chips first.chip) die (first.type == .write) then
        dispatchHeads chip prim sec head dies found ch
      else do
        let taken := takeRequests chip prim sec die first.page ch
        let next ← filDispatch calls taken.1 taken.2
        if next.status ≠ .busIdle then
          .ok (found + taken.1.length, next)
        else
          dispatchHeads chip prim sec head dies (found + taken.1.length) next

def dispatchQueueRequest (chip : ℕ) (prim : TxnQueue) (sec : Option TxnQueue)
    (ch : ChannelData) : SchedulerResult (ℕ × ChannelData) :=
  dispatchHeads g calls chip prim sec (selectHeads g ch (ch.queues chip prim) [] fun _ => none)
    (range g.diesPerChip) 0 ch

variable (queues : TxnQueue → List FilTask)

/-- The queues that a call of `dispatch_read_request` serves. -/
def readQueues : Option (TxnQueue × Option TxnQueue) :=
  if queues .mappingRead ≠ [] then
    some (.mappingRead, if queues .read ≠ [] then some .read
      else if queues .gcRead ≠ [] then some .gcRead
      else none)
  else if queues .read ≠ [] then
    some (.read, if queues .gcRead ≠ [] then some .gcRead else none)
  else if queues .write ≠ [] then none
  else if queues .gcRead ≠ [] then some (.gcRead, none)
  else none

/-- The queues that a call of `dispatch_write_request` serves. -/
def writeQueues : Option (TxnQueue × Option TxnQueue) :=
  if queues .mappingWrite ≠ [] then
    some (.mappingWrite, if queues .write ≠ [] then some .write
      else if queues .gcWrite ≠ [] then some .gcWrite
      else none)
  else if queues .write ≠ [] then
    some (.write, if queues .gcWrite ≠ [] then some .gcWrite else none)
  else if queues .gcWrite ≠ [] then some (.gcWrite, none)
  else none

/-- The queues that a call of `dispatch_erase_request` serves. -/
def eraseQueues : Option (TxnQueue × Option TxnQueue) :=
  if queues .gcErase = [] then none else some (.gcErase, none)

/-- The common part of the three functions below: dispatch from the chosen
queues and take what was found off the counter. -/
def dispatchFrom (choice : Option (TxnQueue × Option TxnQueue)) (chip : ℕ)
    (ch : ChannelData) : SchedulerResult (Bool × ChannelData) :=
  match choice with
  | none => .ok (false, ch)
  | some (prim, sec) => do
      let (found, next) ← dispatchQueueRequest g calls chip prim sec ch
      .ok (decide (0 < found), next.addRequests chip (-found))

def dispatchReadRequest (chip : ℕ) (ch : ChannelData) : SchedulerResult (Bool × ChannelData) :=
  dispatchFrom g calls (readQueues (ch.queues chip)) chip ch

def dispatchWriteRequest (chip : ℕ) (ch : ChannelData) : SchedulerResult (Bool × ChannelData) :=
  dispatchFrom g calls (writeQueues (ch.queues chip)) chip ch

def dispatchEraseRequest (chip : ℕ) (ch : ChannelData) : SchedulerResult (Bool × ChannelData) :=
  dispatchFrom g calls (eraseQueues (ch.queues chip)) chip ch

def dispatchRequest (chip : ℕ) (ch : ChannelData) : SchedulerResult ChannelData := do
  let (found, ch) ← dispatchReadRequest g calls chip ch
  if found then return ch
  let (found, ch) ← dispatchWriteRequest g calls chip ch
  if found then return ch
  let (_, ch) ← dispatchEraseRequest g calls chip ch
  return ch

/-- The turn of a chip in `tsu_flush_channel`. -/
def flushChip (chip : ℕ) (ch : ChannelData) : SchedulerResult ChannelData :=
  if ch.requestCount chip ≠ 0 then dispatchRequest g calls chip ch else .ok ch

/-- The loop of `tsu_flush_channel`, with the number of turns left. -/
def flushChips : ℕ → ChannelData → SchedulerResult ChannelData
  | 0, ch => .ok ch
  | turns + 1, ch => do
      let next ← flushChip g calls ch.rrIndex ch
      let next :=
        { next with rrIndex := (next.rrIndex + 1) % g.chipsPerChannel }
      if next.status ≠ .busIdle then .ok next
      else flushChips turns next

def tsuFlushChannel (ch : ChannelData) : SchedulerResult ChannelData :=
  flushChips g calls g.chipsPerChannel ch

def tsuNotifyChipIdle (chip : ℕ) (ch : ChannelData) : SchedulerResult ChannelData :=
  if ch.status ≠ .busIdle then .ok ch else dispatchRequest g calls chip ch

end Interface

/-- The scheduler with calls nested at most `depth` deep. -/
def callbacks (g : Geometry) : ℕ → Callbacks
  | 0 => ⟨fun _ _ => .error .nesting, fun _ => .error .nesting⟩
  | depth + 1 => ⟨startCmdDataTransfer (callbacks g depth), tsuFlushChannel g (callbacks g depth)⟩

/-! ## Completions -/

section Completions

variable (g : Geometry) (calls : Callbacks)

/-- `tsu_notify_channel_idle` under the test that guards its calls. -/
def notifyIfIdle (ch : ChannelData) : SchedulerResult ChannelData :=
  if ch.status = .busIdle then calls.tsuNotifyChannelIdle ch else .ok ch

/-- The end of `complete_die_command`. -/
def notifyIdle (chip : ℕ) (ch : ChannelData) : SchedulerResult ChannelData := do
  let next ← notifyIfIdle calls ch
  if (next.chips chip).status = .idle then
    tsuNotifyChipIdle g calls chip next
  else .ok next

/-- Errors of reads are dropped by `die_command_get_completion`. -/
def completeDieCommand (chip die : ℕ) (error : Bool) (ch : ChannelData) :
    SchedulerResult ChannelData :=
  let data := ch.chips chip
  match (data.dies die).currentCmd with
  | none => .error .noCommand
  | some cmd => do
      let error := error && !cmd.code.isRead
      let activeDies := data.activeDies - 1
      let txns := (data.dies die).activeTxns
      if cmd.code.isRead && !error then
        let next ← startDataOutTransfer
          { ch.setChip chip
              { data.setDie die { data.dies die with currentCmd := none } with
                activeDies := activeDies
                status :=
                  if activeDies = 0 then .waitForDataOut else data.status
                nrWaitingReadXfers := data.nrWaitingReadXfers + BitVec.ofNat 32 txns.length } with
            waitingReadXfer := ch.waitingReadXfer ++ txns }
        notifyIdle g calls chip next
      else
        notifyIdle g calls chip
          { ch.setChip chip
              { data.setDie die
                  { data.dies die with
                    currentCmd := none, activeTxns := [], activeCmd := none } with
                activeDies := activeDies
                status := if activeDies = 0 then .idle else data.status } with
            reported := ch.reported ++ txns.map fun txn => (txn, error) }

def completeDataOutTransfer (chip die : ℕ) (ch : ChannelData) : SchedulerResult ChannelData :=
  let data := ch.chips chip
  match (data.dies die).activeXfer with
  | none => .error .noTransfer
  | some txn =>
    let txns := (data.dies die).activeTxns.erase txn
    let waiting := data.nrWaitingReadXfers - 1
    let done := data.setDie die
      { data.dies die with
        activeXfer := none
        activeTxns := txns
        activeCmd := if txns = [] then none else (data.dies die).activeCmd }
    calls.tsuNotifyChannelIdle
      { ch.setChip chip
          (if data.activeDies = 0 then
            { done with
              nrWaitingReadXfers := waiting
              status := if waiting = 0 then .idle else .waitForDataOut }
          else done) with
        status := .busIdle
        reported := ch.reported ++ [(txn, false)] }

/-- The last loop of `check_completion`, for one channel. -/
def pollChannel (ch : ChannelData) : SchedulerResult ChannelData := do
  let next ← startDataOutTransfer ch
  notifyIfIdle calls next

end Completions

/-! ## The main loop -/

/-- The flash processor, with the tasks it accepted so far and those it turned
down for their address. -/
structure Scheduler where
  accepted : List FilTask
  refused : List FilRequest
  channels : ℕ → ChannelData

def Scheduler.init : Scheduler := ⟨[], [], fun _ => ChannelData.init⟩

/-- The queue that `tsu_process_task` picks. -/
def txnQueue : FilTaskType → FilTaskSource → Option TxnQueue
  | .read, .userIo => some .read
  | .read, .mapping => some .mappingRead
  | .read, .gc => some .gcRead
  | .write, .userIo => some .write
  | .write, .mapping => some .mappingWrite
  | .write, .gc => some .gcWrite
  | .erase, _ => some .gcErase
  | .dump, _ => none

/-- What the main loop does next, and what the hardware reports to it.  The
main loop polls in a fixed order; any order is allowed here. -/
inductive SchedulerEvent
  | accept (request : FilRequest)
  | flush
  | transferDone (channel chip : ℕ)
  | commandDone (channel chip die : ℕ) (error : Bool)
  | dataOutDone (channel chip die : ℕ)
  | poll
  deriving DecidableEq, Repr

section MainLoop

variable (g : Geometry)

def tsuProcessTask (request : FilRequest) (s : Scheduler) : SchedulerResult Scheduler :=
  let addr := request.addr.planeAddr
  if g.nrChannels ≤ addr.channel ∨ g.chipsPerChannel ≤ addr.chip then
    .ok { s with refused := s.refused ++ [request] }
  else
    match txnQueue request.type request.source with
    | none => .error .noQueue
    | some queue =>
      let txn : FilTask := ⟨s.accepted.length, request⟩
      let ch := s.channels addr.channel
      .ok { s with
        accepted := s.accepted ++ [txn]
        channels := update s.channels addr.channel
          ((ch.setQueue addr.chip queue
            (ch.queues addr.chip queue ++ [txn])).addRequests addr.chip 1) }

/-- How many transactions the queues of a channel hold.  Calls do not nest
deeper than this. -/
def queueLength (ch : ChannelData) : ℕ :=
  ∑ chip ∈ Finset.range g.chipsPerChannel, ∑ queue, (ch.queues chip queue).length

def onChannel (channel : ℕ) (call : Callbacks → ChannelData → SchedulerResult ChannelData)
    (s : Scheduler) : SchedulerResult Scheduler := do
  let ch := s.channels channel
  let next ← call (callbacks g (queueLength g ch + 1)) ch
  .ok { s with channels := update s.channels channel next }

variable (s : Scheduler)

def tsuFlushQueues : SchedulerResult Scheduler :=
  (range g.nrChannels).foldlM (fun s channel =>
      if (s.channels channel).status ≠ .busIdle then .ok s
      else onChannel g channel (tsuFlushChannel g) s) s

/-- The last loop of `check_completion`. -/
def pollChannels : SchedulerResult Scheduler :=
  (range g.nrChannels).foldlM (fun s channel => onChannel g channel pollChannel s) s

namespace SchedulerEvent

def handle : SchedulerEvent → SchedulerResult Scheduler
  | accept request => tsuProcessTask g request s
  | flush => tsuFlushQueues g s
  | transferDone channel chip =>
    onChannel g channel (fun calls => completeChipTransfer calls chip) s
  | commandDone channel chip die error =>
    onChannel g channel (fun calls => completeDieCommand g calls chip die error) s
  | dataOutDone channel chip die =>
    onChannel g channel (fun calls => completeDataOutTransfer calls chip die) s
  | poll => pollChannels g s

/-- The main loop gives the scheduler no dumps, and an address names a die of
its chip; the hardware completes only what is under way. -/
def Possible : SchedulerEvent → Prop
  | accept request => request.type ≠ .dump ∧ request.addr.planeAddr.die < g.diesPerChip
  | flush => True
  | transferDone channel chip => ((s.channels channel).chips chip).currentXfer.isSome
  | commandDone channel chip die _ => (((s.channels channel).chips chip).dies die).currentCmd.isSome
  | dataOutDone channel chip die => (((s.channels channel).chips chip).dies die).activeXfer.isSome
  | poll => True

instance (s : Scheduler) : (event : SchedulerEvent) →
    Decidable (event.Possible g s)
  | accept _ => inferInstanceAs (Decidable (_ ∧ _))
  | flush => inferInstanceAs (Decidable True)
  | transferDone _ _ => inferInstanceAs (Decidable (_ = true))
  | commandDone _ _ _ _ => inferInstanceAs (Decidable (_ = true))
  | dataOutDone _ _ _ => inferInstanceAs (Decidable (_ = true))
  | poll => inferInstanceAs (Decidable True)

end SchedulerEvent

/-- A run stops at a fault. -/
def schedulerStep (event : SchedulerEvent) : Option Scheduler :=
  if event.Possible g s then (event.handle g s).toOption else none

end MainLoop

end Soda
