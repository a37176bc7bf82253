import Soda.Unvme.NvmeQueue

/-!
# The command table of the host driver

`setup_async_command` registers a command under the next value of a 16-bit
counter, the submission entry carries that id, and `handle_cqe` finds the
command by the id in the completion entry.  A command with a callback is
removed after the callback was made; for one without, `handle_cqe` stores the
status and the result and `AsyncCommand::wait` takes them and removes the
command.  Removal is a step of its own, with the table unlocked in between.

`emplace` leaves an entry in place where the id is taken, so a command that
stays in flight while the counter goes once round shares its entry with a later
one.  The table is shared by all queues, so the queue of a command plays no
part.
-/

namespace Soda.Unvme

open Function

structure AsyncCommand (F R : Type) where
  id : UInt16
  status : ℕ
  result : R
  completed : Bool
  callback : Option F

/-- The submission entry of a command: not written yet, with the controller
under an id, or answered. -/
inductive EntryState
  | prepared
  | inFlight (commandId : UInt16)
  | answered
  deriving DecidableEq

/-- One submission.  `command` is the pointer its caller got, `returned` says
that its caller's `wait` is over, and `released` that the removal which follows
was made. -/
structure Submission (F : Type) where
  callback : Option F
  command : ℕ
  entry : EntryState
  returned : Bool
  released : Bool

/-- Submissions are numbered, and each allocates the command of its number.
`releases` are the removals under way.  The other lists record the completion
entries, the callbacks made with the number of the entry they were made for,
what the waits returned, and the entries no command was found for. -/
structure CommandTable (F R : Type) where
  commandIdCounter : UInt16
  commandMap : UInt16 → Option ℕ
  command : ℕ → AsyncCommand F R
  made : ℕ
  submission : ℕ → Submission F
  releases : List (ℕ × UInt16)
  completions : List (ℕ × NvmeCompletion R)
  callbacks : List (ℕ × F × ℕ × R)
  returns : List (ℕ × ℕ × R)
  strays : List ℕ

variable {F R : Type}

namespace CommandTable

/-- `zero` is what memory holds before a result is stored. -/
def empty (zero : R) : CommandTable F R where
  commandIdCounter := 0
  commandMap := fun _ => none
  command := fun _ => ⟨0, 0, zero, false, none⟩
  made := 0
  submission := fun _ => ⟨none, 0, .answered, true, true⟩
  releases := []
  completions := []
  callbacks := []
  returns := []
  strays := []

def setSubmission (n : ℕ) (sub : Submission F) (d : CommandTable F R) : CommandTable F R :=
  { d with submission := update d.submission n sub }

def setCommand (pointer : ℕ) (cmd : AsyncCommand F R) (d : CommandTable F R) : CommandTable F R :=
  { d with command := update d.command pointer cmd }

/-- `emplace` gives the command that is there already, if there is one. -/
def emplaced (d : CommandTable F R) (id : UInt16) : ℕ := (d.commandMap id).getD d.made

def setupAsyncCommand (callback : Option F) (d : CommandTable F R) : CommandTable F R :=
  let id := d.commandIdCounter
  let cmd := d.emplaced id
  { d with
    commandIdCounter := d.commandIdCounter + 1
    commandMap := update d.commandMap id (some cmd)
    command := update d.command cmd
      { d.command cmd with id := id, completed := false, callback := callback }
    made := d.made + 1
    submission := update d.submission d.made ⟨callback, cmd, .prepared, false, false⟩ }

/-- The entry gets its id through the caller's pointer. -/
def submitCommand (n : ℕ) (d : CommandTable F R) : CommandTable F R :=
  let id := (d.command (d.submission n).command).id
  d.setSubmission n { d.submission n with entry := .inFlight id }

def complete (n pointer : ℕ) (cqe : NvmeCompletion R) (d : CommandTable F R) : CommandTable F R :=
  let status := (cqe.status >>> 1).toNat
  match (d.command pointer).callback with
  | some callback =>
    { d with
      callbacks := d.callbacks ++ [(n, callback, status, cqe.result)]
      releases := d.releases ++ [(n, cqe.commandId)] }
  | none =>
    d.setCommand pointer { d.command pointer with
      status := status, result := cqe.result, completed := true }

def handleCqe (n : ℕ) (cqe : NvmeCompletion R) (d : CommandTable F R) : CommandTable F R :=
  let d := { d.setSubmission n { d.submission n with entry := .answered } with
    completions := d.completions ++ [(n, cqe)] }
  match d.commandMap cqe.commandId with
  | some pointer => d.complete n pointer cqe
  | none => { d with strays := d.strays ++ [n] }

/-- `AsyncCommand::wait` up to the removal. -/
def waitReturns (n : ℕ) (d : CommandTable F R) : CommandTable F R :=
  let cmd := d.command (d.submission n).command
  { d.setSubmission n { d.submission n with returned := true } with
    returns := d.returns ++ [(n, cmd.status, cmd.result)]
    releases := d.releases ++ [(n, cmd.id)] }

def removeAsyncCommand (n : ℕ) (id : UInt16) (d : CommandTable F R) : CommandTable F R :=
  { d.setSubmission n { d.submission n with released := true } with
    commandMap := update d.commandMap id none
    releases := d.releases.erase (n, id) }

end CommandTable

inductive CommandAction (F R : Type)
  | setup (callback : Option F)
  | submit (n : ℕ)
  | handleCqe (n : ℕ) (status : UInt16) (result : R)
  | wait (n : ℕ)
  | remove (n : ℕ) (id : UInt16)

/-- The controller answers each entry once, under the id the entry has. -/
def commandStep (d : CommandTable F R) :
    CommandAction F R → Option (CommandTable F R)
  | .setup callback => some (d.setupAsyncCommand callback)
  | .submit n =>
    if (d.submission n).entry = .prepared then some (d.submitCommand n)
    else none
  | .handleCqe n status result =>
    match (d.submission n).entry with
    | .inFlight id => some (d.handleCqe n ⟨result, id, status⟩)
    | _ => none
  | .wait n =>
    if (d.submission n).callback = none ∧ (d.submission n).returned = false ∧
        (d.submission n).entry ≠ .prepared ∧ (d.command (d.submission n).command).completed then
      some (d.waitReturns n)
    else none
  | .remove n id =>
    if (n, id) ∈ d.releases then some (d.removeAsyncCommand n id) else none

end Soda.Unvme
