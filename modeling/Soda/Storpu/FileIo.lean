import Soda.Ftl.SectorStore

/-!
# File I/O of offloaded functions

`spu_read` and `spu_write` (`file.c`) on a namespace: `vm_vumap` finds the
physical address of the buffer, the transfer becomes a task for the FTL on
another processor, and `process_storpu_flash_task` (`nvme.c`) turns its bytes
into sectors.  The FTL is a parameter that keeps whole sectors; the data cache
over any layer that keeps what is written to it is one.
-/

namespace Soda.Storpu

open Prog

abbrev Sector := Fin 4096 → UInt8

abbrev Memory := ℕ → UInt8

/-! ### The buffer -/

variable (frames : ℕ → Option ℕ)

/-- `pgd_va2pa`; `frames` is the physical address of each virtual page. -/
def pgdVa2pa (vir : ℕ) : Option ℕ := (frames (vir / 4096)).map (· + vir % 4096)

/-- The loop of `pgd_va2pa_range`. -/
def va2paLoop (frames : ℕ → Option ℕ) (bytes : ℕ) : ℕ → ℕ → ℕ → ℕ → ℕ
  | 0, len, _, _ => len
  | rounds + 1, len, vir, nextPhys =>
    if len < bytes then
      match pgdVa2pa frames vir with
      | none => len
      | some phys =>
        if nextPhys ≠ phys then len
        else va2paLoop frames bytes rounds (len + 4096) ((vir + 4096) % 2 ^ 64) (nextPhys + 4096)
    else len

/-- `pgd_va2pa_range`: how many of the bytes are physically contiguous, and
where they are.  Every round of the loop adds a page. -/
def pgdVa2paRange (vir bytes : ℕ) : ℕ × ℕ :=
  match pgdVa2pa frames vir with
  | none => (0, 0)
  | some phys =>
    let len := 4096 - vir % 4096
    (min bytes (va2paLoop frames bytes bytes len ((vir + len) % 2 ^ 64) (phys + len)), phys)

/-- `vm_vumap` for one vector: size and address of its first contiguous
piece. -/
def vmVumap (vir size : ℕ) : Except Errno (ℕ × ℕ) :=
  if size ≤ 0 then .error .einval
  else
    let piece := pgdVa2paRange frames vir size
    if piece.1 = 0 then .error .efault else .ok piece

/-! ### Tasks for the FTL -/

inductive FtlTaskType
  | flashRead | flashWrite | flush | flushData | sync | hostRead | hostWrite
  deriving DecidableEq, Repr

structure FtlTask where
  type : FtlTaskType
  nsid : ℕ
  bufPhys : ℕ
  addr : ℕ
  count : ℕ

/-- An FTL that serves one request after another.  `process` gives no answer
when the processor stops; `Holds` says which sectors a state stands for. -/
structure FlashService (σ : Type) where
  process : Request Sector → σ → Option ((Status × List Sector) × σ)
  Holds : σ → Store Sector → Prop
  process_spec : ∀ {req s store answer s'}, req.InTypes → Holds s store →
    process req s = some (answer, s') → answer.1 = none → Holds s' (store.serve req) ∧
      (req.type = .read → (SectorStore.ofStore store).ReadsBack req answer.2)

/-- What `file.c` runs on. -/
structure FileEnv (σ : Type) where
  frames : ℕ → Option ℕ
  ftl : FlashService σ
  /-- `process_storpu_host_xfer`. -/
  hostXfer : FtlTask → Memory → Status × Memory
  /-- Copies between the buffer and the scratchpad: whether to write, buffer,
  count and offset. -/
  scratchpad : Bool → ℕ → ℕ → ℕ → Memory → Except Errno ℕ × Memory

structure FileWorld (σ : Type) where
  mem : Memory
  ftl : σ

def bufferSectors (mem : Memory) (addr : ℕ) : ℕ → Sector := fun index byte =>
  mem (addr + 4096 * index + byte)

def copyOut (data : List Sector) (addr : ℕ) (mem : Memory) : Memory := fun pa =>
  if addr ≤ pa then
    match data[(pa - addr) / 4096]? with
    | some sector => sector ⟨(pa - addr) % 4096, Nat.mod_lt _ (by decide)⟩
    | none => mem pa
  else mem pa

variable {σ : Type}

/-- The request of `process_storpu_flash_task`; `sector_count` has 32 bits. -/
def FtlTask.request (task : FtlTask) (mem : Memory) : Request Sector where
  type := match task.type with
    | .flashWrite => .write
    | .flush => .flush
    | .flushData => .flushData
    | .sync => .sync
    | _ => .read
  nsid := task.nsid
  startLba := task.addr >>> sectorShift
  sectorCount := (task.count >>> sectorShift) % 2 ^ 32
  data := bufferSectors mem task.bufPhys

/-- `process_storpu_flash_task`; a read copies its sectors to the buffer. -/
def processStorpuFlashTask (ftl : FlashService σ) (task : FtlTask)
    (w : FileWorld σ) : Option (Status × FileWorld σ) :=
  let req := task.request w.mem
  (ftl.process req w.ftl).map fun (answer, s) =>
    (answer.1, {
      mem := if req.type = .read then copyOut answer.2 task.bufPhys w.mem
        else w.mem
      ftl := s })

variable (env : FileEnv σ)

def processStorpuTask (task : FtlTask) (w : FileWorld σ) : Option (Status × FileWorld σ) :=
  match task.type with
  | .hostRead | .hostWrite =>
    let (status, mem) := env.hostXfer task w.mem
    some (status, { w with mem := mem })
  | _ => processStorpuFlashTask env.ftl task w

/-! ### File I/O -/

def fdHostMem : ℤ := -2

def fdScratchpad : ℤ := -3

/-- A `size_t` as the `ssize_t` that is returned. -/
def toSsize (count : ℕ) : ℤ := (BitVec.ofNat 64 count).toInt

def fileTask (fd : ℤ) (write : Bool) (addr count offset : ℕ) : FtlTask where
  type :=
    if fd = fdHostMem then if write then .hostWrite else .hostRead
    else if write then .flashWrite else .flashRead
  nsid := if 0 ≤ fd then fd.toNat + 1 else 0
  bufPhys := addr
  addr := offset
  count := count

def fileReadwrite (write : Bool) (fd : ℤ)
    (buf count offset : ℕ) (w : FileWorld σ) : Option (Except Errno ℤ × FileWorld σ) :=
  match vmVumap env.frames buf count with
  | .error error => some (.error error, w)
  | .ok (size, addr) =>
    if addr = 0 then some (.error .efault, w)
    else if size ≠ count then some (.error .efault, w)
    else
      (processStorpuTask env (fileTask fd write addr count offset) w).map fun (status, w') =>
          match status with
          | some error => (.error error, w')
          | none => (.ok (toSsize count), w')

/-- `spu_read` and `spu_write`, which differ in the direction only. -/
def spuTransfer (write : Bool) (fd : ℤ) (buf count offset : ℕ) (w : FileWorld σ) :
    Option (Except Errno ℤ × FileWorld σ) :=
  if fd = fdScratchpad then
    let (copied, mem) := env.scratchpad write buf count offset w.mem
    some (copied.map toSsize, { w with mem := mem })
  else fileReadwrite env write fd buf count offset w

def spuRead (fd : ℤ) (buf count offset : ℕ) (w : FileWorld σ) :
    Option (Except Errno ℤ × FileWorld σ) :=
  spuTransfer env false fd buf count offset w

def spuWrite (fd : ℤ) (buf count offset : ℕ)
    (w : FileWorld σ) : Option (Except Errno ℤ × FileWorld σ) :=
  spuTransfer env true fd buf count offset w

/-! ### Contiguous buffers -/

section Buffer

variable {frames : ℕ → Option ℕ} {buf count : ℕ}

def bufferByte (frames : ℕ → Option ℕ) (buf index : ℕ) : Option ℕ :=
  pgdVa2pa frames ((buf + index) % 2 ^ 64)

/-- The bytes of one page are contiguous. -/
theorem bufferByte_in_page {vir phys index : ℕ}
    (hphys : pgdVa2pa frames vir = some phys) (hvir : vir < 2 ^ 64)
    (hpage : vir % 4096 + index < 4096) :
    pgdVa2pa frames ((vir + index) % 2 ^ 64) = some (phys + index) := by
  have hsame : (vir + index) % 2 ^ 64 / 4096 = vir / 4096 := by omega
  have hoffset : (vir + index) % 2 ^ 64 % 4096 = vir % 4096 + index := by omega
  obtain ⟨frame, hframe, rfl⟩ := Option.map_eq_some_iff.mp hphys
  rw [pgdVa2pa, hsame, hframe, Option.map_some, hoffset, add_assoc]

/-- Every byte that the loop counts lies right after the one before. -/
theorem va2paLoop_maps {bytes phys rounds len vir : ℕ}
    (hvir : vir = (buf + len) % 2 ^ 64) (halign : vir % 4096 = 0)
    (hmapped : ∀ index < len, bufferByte frames buf index = some (phys + index)) :
    ∀ index < va2paLoop frames bytes rounds len vir (phys + len),
      bufferByte frames buf index = some (phys + index) := by
  induction rounds generalizing len vir with
  | zero => exact hmapped
  | succ rounds ih =>
    rw [va2paLoop]
    split
    · cases hphys : pgdVa2pa frames vir with
      | none => exact hmapped
      | some found =>
        simp only
        split
        · exact hmapped
        · rename_i hnext
          rw [not_not] at hnext
          rw [add_assoc]
          refine ih (by omega) (by omega) ?_
          intro index hindex
          by_cases hold : index < len
          · exact hmapped index hold
          · have hpage := bufferByte_in_page hphys (by omega)
              (show vir % 4096 + (index - len) < 4096 by omega)
            have haddr : (vir + (index - len)) % 2 ^ 64 = (buf + index) % 2 ^ 64 := by omega
            rw [haddr, ← hnext] at hpage
            rw [bufferByte, hpage]
            congr 1
            omega
    · exact hmapped

theorem pgdVa2paRange_maps (hbuf : buf < 2 ^ 64) :
    ∀ index < (pgdVa2paRange frames buf count).1,
      bufferByte frames buf index = some ((pgdVa2paRange frames buf count).2 + index) := by
  intro index hindex
  rw [pgdVa2paRange] at hindex ⊢
  cases hphys : pgdVa2pa frames buf with
  | none =>
    rw [hphys] at hindex
    exact absurd hindex (Nat.not_lt_zero index)
  | some phys =>
    rw [hphys] at hindex
    refine va2paLoop_maps rfl (by omega) ?_ index (hindex.trans_le (min_le_right _ _))
    intro other hother
    exact bufferByte_in_page hphys hbuf (by omega)

/-- A buffer that `vm_vumap` finds in one piece. -/
theorem bufferByte_of_vmVumap {addr : ℕ} (hbuf : buf < 2 ^ 64)
    (hvumap : vmVumap frames buf count = .ok (count, addr)) :
    ∀ index < count, bufferByte frames buf index = some (addr + index) := by
  intro index hindex
  simp only [vmVumap, if_neg (Nat.not_le.mpr (Nat.zero_lt_of_lt hindex))] at hvumap
  split at hvumap
  · cases hvumap
  · have hpiece := Except.ok.inj hvumap
    have hmaps : index < (pgdVa2paRange frames buf count).1 → _ := pgdVa2paRange_maps hbuf index
    rw [hpiece] at hmaps
    exact hmaps hindex

end Buffer

end Soda.Storpu
