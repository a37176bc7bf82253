import Soda.Core.Runs

/-!
# Files of the mirror file system

A file of the mirror file system keeps its bytes in a namespace of the device
and its size in a backing file.  `mfs_write` and `mfs_read` (`mirrorfs.cpp`)
widen a byte range to blocks of 4 KiB and move whole blocks through a buffer
that is allocated for the request and not cleared.  What is outside of the two
functions is given by an `Answer`: the pages that are allocated, the status in
the completion entry, what a failed command leaves in the namespace, and whether
the backing file could be extended.
-/

namespace Soda.Mirrorfs

/-- The file as the two functions see it: the bytes of its namespace and the
size in its inode. -/
structure File where
  bytes : ℕ → UInt8
  size : ℕ

/-- A buffer at an offset; a C object and an `off_t` are below `2 ^ 63`. -/
structure WriteRequest where
  off : ℕ
  data : List UInt8
  off_lt : off < 2 ^ 63
  length_lt : data.length < 2 ^ 63

structure ReadRequest where
  off : ℕ
  size : ℕ
  off_lt : off < 2 ^ 63
  size_lt : size < 2 ^ 63

structure Answer where
  alloc : Option (ℕ → UInt8)
  cqeStatus : ℕ
  failed : ℕ → UInt8
  extended : Bool

inductive Reply where
  | write (size : ℕ)
  | buf (data : List UInt8)
  | err (errno : ℤ)
  deriving DecidableEq

def eio : ℤ := 5

def enomem : ℤ := 12

def roundupBlocks (x : ℕ) : ℕ :=
  if x % 4096 = 0 then x else (x + 4096 - x % 4096) % 2 ^ 64

/-- The blocks that a command moves; their number less one is a field of 16
bits. -/
structure RwCommand where
  slba : ℕ
  blocks : ℕ

def submitRwCommand (pos size : ℕ) : RwCommand where
  slba := pos / 4096
  blocks := (size / 4096 + (2 ^ 16 - 1)) % 2 ^ 16 + 1

/-- The device writes what it finds from the start of the buffer on. -/
def RwCommand.write (cmd : RwCommand) (dma bytes : ℕ → UInt8) : ℕ → UInt8 :=
  fun place =>
    if cmd.slba * 4096 ≤ place ∧ place < (cmd.slba + cmd.blocks) * 4096 then
      dma (place - cmd.slba * 4096)
    else bytes place

def RwCommand.read (cmd : RwCommand) (bytes dma : ℕ → UInt8) : ℕ → UInt8 :=
  fun index =>
    if index < cmd.blocks * 4096 then bytes (cmd.slba * 4096 + index)
    else dma index

/-- The status that `handle_cqe` passes to the callback. -/
def Answer.status (answer : Answer) : ℕ := answer.cqeStatus >>> 1

/-- The callbacks test status code and status code type together. -/
def statusError (status : ℕ) : Bool := status &&& 0x7ff != 0

def writeCallback (size off status : ℕ) (extended : Bool) (file : File) : Reply × File :=
  let ret := if statusError status then eio else 0
  let newSize := (size + off) % 2 ^ 64
  let (ret, file) :=
    if file.size < newSize then
      -- `ret` is overwritten with the result of `ftruncate`.
      if extended then (0, { file with size := newSize }) else (-1, file)
    else (ret, file)
  (if ret = 0 then .write size else .err ret, file)

/-- The buffer after the caller's bytes were copied into it. -/
def dmaBuffer (pages : ℕ → UInt8) (blockOff : ℕ) (data : List UInt8) : ℕ → UInt8 :=
  fun index =>
    if blockOff ≤ index ∧ index < blockOff + data.length then
      data.getD (index - blockOff) 0
    else pages index

variable (request : WriteRequest)

/-- The namespace once the command of `mfs_write` has completed. -/
def writtenBytes (answer : Answer) (pages bytes : ℕ → UInt8) : ℕ → UInt8 :=
  let blockOff := request.off % 4096
  let alignedOff := request.off - blockOff
  let bufSize := roundupBlocks (request.data.length + blockOff)
  let dma := dmaBuffer pages blockOff request.data
  if statusError answer.status then answer.failed
  else (submitRwCommand alignedOff bufSize).write dma bytes

def mfsWrite (answer : Answer) (file : File) : Reply × File :=
  match answer.alloc with
  | none => (.err enomem, file)
  | some pages =>
    writeCallback request.data.length request.off answer.status
      answer.extended ⟨writtenBytes request answer pages file.bytes, file.size⟩

def mfsRead (request : ReadRequest) (answer : Answer) (file : File) : Reply :=
  let blockOff := request.off % 4096
  let alignedOff := request.off - blockOff
  let bufSize := roundupBlocks (request.size + blockOff)
  match answer.alloc with
  | none => .err enomem
  | some pages =>
    if statusError answer.status then .err eio
    else
      let dma := (submitRwCommand alignedOff bufSize).read file.bytes pages
      .buf ((List.range request.size).map fun index => dma (blockOff + index))

/-! ### What a write replies -/

def WriteRequest.limit : ℕ := request.off + request.data.length

/-- Status code and status code type of the completion entry. -/
def Answer.Succeeded (answer : Answer) : Prop :=
  answer.cqeStatus / 2 % 256 = 0 ∧ answer.cqeStatus / 512 % 8 = 0

instance (answer : Answer) : Decidable answer.Succeeded := inferInstanceAs (Decidable (_ ∧ _))

theorem statusError_status (answer : Answer) :
    statusError answer.status = false ↔ answer.Succeeded := by
  have hmask : answer.status &&& 0x7ff = answer.cqeStatus / 2 % 2 ^ 11 := by
    rw [Answer.status, Nat.shiftRight_eq_div_pow, pow_one]
    exact Nat.and_two_pow_sub_one_eq_mod _ 11
  rw [statusError, hmask, bne_eq_false_iff_eq, Answer.Succeeded]
  omega

theorem newSize_eq_limit : (request.data.length + request.off) % 2 ^ 64 = request.limit := by
  have hoff := request.off_lt
  have hlength := request.length_lt
  rw [WriteRequest.limit]
  omega

/-- A reply of success stands for a device that succeeded and a size that was
recorded, and a reply of failure carries a positive error number. -/
def Honest (answer : Answer) (file : File) : Prop :=
  match mfsWrite request answer file with
  | (.write _, file') => answer.Succeeded ∧ (file.size < request.limit → file'.size = request.limit)
  | (.err errno, _) => 0 < errno
  | (.buf _, _) => False

theorem writeCallback_of_grown {request : WriteRequest} {size : ℕ}
    (status : ℕ) (extended : Bool) (bytes : ℕ → UInt8) (hgrown : size < request.limit) :
    writeCallback request.data.length request.off status extended ⟨bytes, size⟩ =
      if extended then (.write request.data.length, ⟨bytes, request.limit⟩)
      else (.err (-1), ⟨bytes, size⟩) := by
  rw [writeCallback]
  simp only [newSize_eq_limit, if_pos hgrown]
  cases extended with
  | true | false => rfl

theorem writeCallback_of_le {request : WriteRequest} {size : ℕ}
    (status : ℕ) (extended : Bool) (bytes : ℕ → UInt8) (hle : request.limit ≤ size) :
    writeCallback request.data.length request.off status extended ⟨bytes, size⟩ =
      (if statusError status then .err eio else .write request.data.length, ⟨bytes, size⟩) := by
  rw [writeCallback]
  simp only [newSize_eq_limit, if_neg (not_lt.mpr hle)]
  cases statusError status with
  | true | false => rfl

/-- A write hides an error exactly where the file grows and the device or the
extension of the backing file fails: the callback then replies with the result
of `ftruncate` alone. -/
theorem mfsWrite_honest_iff (request : WriteRequest) (answer : Answer) (file : File) :
    Honest request answer file ↔ answer.alloc = none ∨ request.limit ≤ file.size ∨
        answer.Succeeded ∧ answer.extended = true := by
  rw [Honest, mfsWrite]
  cases answer.alloc with
  | none => simp [enomem]
  | some pages =>
    by_cases hgrown : file.size < request.limit
    · simp only [writeCallback_of_grown _ _ _ hgrown]
      cases answer.extended with
      | true | false => simp [hgrown]
    · have hle := not_lt.mp hgrown
      simp only [writeCallback_of_le _ _ _ hle]
      cases hstatus : statusError answer.status with
      | true => simp [hle, eio]
      | false => simp [hle, (statusError_status answer).mp hstatus]

/-- One byte at the start of an empty file, the device fails. -/
theorem not_mfsWrite_honest :
    ¬ Honest ⟨0, [7], by norm_num, by norm_num⟩
      ⟨some fun _ => 0, 4, fun _ => 0, true⟩ ⟨fun _ => 0, 0⟩ := by
  rintro ⟨hsucceeded, -⟩
  exact absurd hsucceeded (by decide)

end Soda.Mirrorfs
