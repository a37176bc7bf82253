import Soda.Mirrorfs.FileBlocks

/-!
# A file as an array of bytes

The successful writes of a file, newest first, say what a read should return:
at each place the byte of the last write that covers it, up to the end of the
write that reaches furthest.  The blocks keep that as long as every write starts
at a block at or below the end of the file and does not end inside a block that
has bytes behind it, and every read ends inside the file.
-/

namespace Soda.Mirrorfs

open List

def WriteRequest.Covers (request : WriteRequest) (place : ℕ) : Prop :=
  request.off ≤ place ∧ place < request.limit

instance (request : WriteRequest) (place : ℕ) :
    Decidable (request.Covers place) :=
  inferInstanceAs (Decidable (_ ∧ _))

/-- The byte that the last write left at a place, zero if there is none. -/
def lastWritten : List WriteRequest → ℕ → UInt8
  | [], _ => 0
  | request :: log, place =>
    if request.Covers place then request.data.getD (place - request.off) 0
    else lastWritten log place

def fileSize : List WriteRequest → ℕ
  | [] => 0
  | request :: log => max (fileSize log) request.limit

def arrayRead (log : List WriteRequest) (request : ReadRequest) : List UInt8 :=
  (range (min request.size (fileSize log - request.off))).map fun index =>
    lastWritten log (request.off + index)

inductive Call where
  | write (request : WriteRequest)
  | read (request : ReadRequest)

structure Mounted where
  file : File
  log : List WriteRequest

def callStep (m : Mounted) : Call × Answer → Option Mounted
  | (.write request, answer) =>
    match mfsWrite request answer m.file with
    | (.write _, file) => some ⟨file, request :: m.log⟩
    | _ => none
  | (.read request, answer) =>
    match mfsRead request answer m.file with
    | .buf _ => some m
    | _ => none

/-- The command of a call on so many bytes moves all of their blocks. -/
def FitsCommand (bytes : ℕ) : Prop := bytes ≤ 2 ^ 16 * 4096

instance (bytes : ℕ) : Decidable (FitsCommand bytes) := inferInstanceAs (Decidable (_ ≤ _))

/-- The calls that the blocks answer as an array would. -/
def CallFits (m : Mounted) : Call × Answer → Prop
  | (.write request, answer) =>
    request.data ≠ [] ∧ request.off % 4096 = 0 ∧ request.off ≤ m.file.size ∧
      (request.limit % 4096 = 0 ∨ m.file.size ≤ request.limit) ∧ FitsCommand request.data.length ∧
      (m.file.size < request.limit → answer.Succeeded)
  | (.read request, _) =>
    request.size = 0 ∨ request.off + request.size ≤ m.file.size ∧
      FitsCommand (request.off % 4096 + request.size)

instance (m : Mounted) (action : Call × Answer) :
    Decidable (CallFits m action) :=
  match action with
  | (.write _, _) => inferInstanceAs (Decidable (_ ∧ _))
  | (.read _, _) => inferInstanceAs (Decidable (_ ∨ _))

/-- Below the size of the file, the namespace holds the last writes. -/
structure Holds (m : Mounted) : Prop where
  size_eq : m.file.size = fileSize m.log
  bytes_eq : ∀ place < m.file.size, m.file.bytes place = lastWritten m.log place

/-! ### Blocks of a range -/

variable {x place : ℕ}

theorem roundupBlocks_eq (hx : x ≤ 2 ^ 16 * 4096) : roundupBlocks x = (x + 4095) / 4096 * 4096 := by
  rw [roundupBlocks]
  split
  · omega
  · omega

theorem submitRwCommand_blocks (pos : ℕ) (hpos : 0 < x) (hx : x ≤ 2 ^ 16 * 4096) :
    (submitRwCommand pos (roundupBlocks x)).blocks = (x + 4095) / 4096 := by
  rw [roundupBlocks_eq hx]
  simp only [submitRwCommand]
  omega

variable {request : WriteRequest} {answer : Answer}

/-- What a write of an aligned range leaves: the caller's bytes on the range,
junk up to the end of its last block and the old bytes elsewhere. -/
theorem writtenBytes_eq (pages bytes : ℕ → UInt8)
    (hsucceeded : answer.Succeeded) (hdata : request.data ≠ []) (haligned : request.off % 4096 = 0)
    (hfits : FitsCommand request.data.length) (hplace : place < request.limit ∨
      (request.limit + 4095) / 4096 * 4096 ≤ place) :
    writtenBytes request answer pages bytes place =
      if request.Covers place then request.data.getD (place - request.off) 0
      else bytes place := by
  have hpos : 0 < request.data.length := length_pos_iff.mpr hdata
  have hblocks := submitRwCommand_blocks request.off hpos hfits
  have hslba : (submitRwCommand request.off
      (roundupBlocks request.data.length)).slba * 4096 = request.off := by
    simp only [submitRwCommand]
    omega
  have hstatus := (statusError_status answer).mpr hsucceeded
  simp only [writtenBytes, hstatus, haligned, Nat.sub_zero, Nat.add_zero,
    RwCommand.write, Nat.add_mul, hslba, hblocks, dmaBuffer, Nat.zero_le,
    true_and, Nat.zero_add, Bool.false_eq_true, if_false]
  have hlimit : request.limit = request.off + request.data.length := rfl
  by_cases hin : request.off ≤ place ∧
      place < request.off + (request.data.length + 4095) / 4096 * 4096
  · have hcovers : request.Covers place := ⟨hin.1, by omega⟩
    rw [if_pos hin, if_pos hcovers, if_pos (by omega)]
  · have hcovers : ¬ request.Covers place := by
      rintro ⟨hfirst, hlast⟩
      omega
    rw [if_neg hin, if_neg hcovers]

/-- The bytes of the file behind a write are not in its last block. -/
theorem holds_written {m : Mounted} (pages : ℕ → UInt8) (hholds : Holds m)
    (hfits : CallFits m (.write request, answer)) (hsucceeded : answer.Succeeded) :
    Holds ⟨⟨writtenBytes request answer pages m.file.bytes,
      max m.file.size request.limit⟩, request :: m.log⟩ := by
  obtain ⟨hdata, haligned, hoff, htail, hcommand, -⟩ := hfits
  constructor
  · simp only [fileSize, hholds.size_eq]
  · intro place hplace
    simp only [lt_max_iff] at hplace
    have htorn : place < request.limit ∨ (request.limit + 4095) / 4096 * 4096 ≤ place := by omega
    simp only [writtenBytes_eq pages m.file.bytes hsucceeded hdata haligned
      hcommand htorn, lastWritten]
    split
    next => rfl
    next hcovers =>
      apply hholds.bytes_eq
      rw [WriteRequest.Covers] at hcovers
      omega

theorem holds_write {m next : Mounted} (hholds : Holds m)
    (hfits : CallFits m (.write request, answer))
    (hstep : callStep m (.write request, answer) = some next) : Holds next := by
  rw [callStep, mfsWrite] at hstep
  cases halloc : answer.alloc with
  | none => simp [halloc] at hstep
  | some pages =>
    simp only [halloc] at hstep
    have hwritten := holds_written pages hholds hfits
    by_cases hgrown : m.file.size < request.limit
    · rw [max_eq_right hgrown.le] at hwritten
      simp only [writeCallback_of_grown _ _ _ hgrown] at hstep
      cases hextended : answer.extended with
      | false => simp [hextended] at hstep
      | true =>
        simp only [hextended, if_true, Option.some.injEq] at hstep
        rw [← hstep]
        exact hwritten (hfits.2.2.2.2.2 hgrown)
    · have hle := not_lt.mp hgrown
      rw [max_eq_left hle] at hwritten
      simp only [writeCallback_of_le _ _ _ hle] at hstep
      cases hstatus : statusError answer.status with
      | true => simp [hstatus] at hstep
      | false =>
        simp only [hstatus, Bool.false_eq_true, if_false, Option.some.injEq] at hstep
        rw [← hstep]
        exact hwritten ((statusError_status answer).mp hstatus)

theorem holds_step (m : Mounted) (action : Call × Answer) (next : Mounted) (hholds : Holds m)
    (hfits : CallFits m action) (hstep : callStep m action = some next) : Holds next := by
  obtain ⟨call, answer⟩ := action
  cases call with
  | write request => exact holds_write hholds hfits hstep
  | read request =>
    rw [callStep] at hstep
    split at hstep
    next =>
      cases hstep
      exact hholds
    next => cases hstep

/-- A read of a range inside the file returns the bytes of the namespace. -/
theorem mfsRead_eq {file : File} {request : ReadRequest} {data : List UInt8}
    (hread : mfsRead request answer file = .buf data)
    (hfits : request.size = 0 ∨ FitsCommand (request.off % 4096 + request.size)) :
    data = (range request.size).map fun index =>
      file.bytes (request.off + index) := by
  rw [mfsRead] at hread
  split at hread
  next => cases hread
  next pages _ =>
    split at hread
    next => cases hread
    next =>
      rw [← Reply.buf.inj hread]
      apply map_congr_left
      intro index hindex
      have hlt := mem_range.mp hindex
      have hcommand := hfits.resolve_left (by omega)
      rw [add_comm request.size]
      have hpos : 0 < request.off % 4096 + request.size := by omega
      have hblocks := submitRwCommand_blocks (request.off - request.off % 4096) hpos hcommand
      have hslba : (submitRwCommand (request.off - request.off % 4096)
          (roundupBlocks (request.off % 4096 + request.size))).slba * 4096 =
            request.off - request.off % 4096 := by
        simp only [submitRwCommand]
        omega
      have hplace : request.off - request.off % 4096 +
          (request.off % 4096 + index) = request.off + index := by omega
      rw [RwCommand.read, hblocks, hslba, if_pos (by omega), hplace]

theorem arrayRead_of_le {log : List WriteRequest} {request : ReadRequest}
    (hle : request.size = 0 ∨ request.off + request.size ≤ fileSize log) :
    arrayRead log request = (range request.size).map fun index =>
      lastWritten log (request.off + index) := by
  rw [arrayRead, min_eq_left (by omega)]

/-- A device that serves every command, with nines in the pages that are
allocated. -/
def served : Answer := ⟨some fun _ => 9, 0, fun _ => 0, true⟩

end Soda.Mirrorfs
