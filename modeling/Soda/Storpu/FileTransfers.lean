import Soda.Storpu.FileIo

/-!
# What file I/O moves

`file_readwrite` answers with the number of bytes asked for, whatever
`process_storpu_flash_task` made of them: offset and count are cut down to
whole sectors there.  The answer is what was moved exactly for transfers of
whole sectors.
-/

namespace Soda.Storpu

open Prog SectorStore Option List

/-! ### Bytes of namespaces -/

def namespaceByte (store : Store Sector) (nsid offset : ℕ) : Option UInt8 :=
  (ofStore store nsid (offset / 4096)).map fun sector =>
    sector ⟨offset % 4096, Nat.mod_lt _ (by decide)⟩

variable {σ : Type}

/-- `count` bytes of the namespace from `offset` on are those of the buffer, and
no other byte changed. -/
structure Wrote (frames : ℕ → Option ℕ) (nsid buf count offset : ℕ)
    (mem mem' : Memory) (store store' : Store Sector) : Prop where
  moved : ∀ index < count, ∃ pa, bufferByte frames buf index = some pa ∧
    namespaceByte store' nsid (offset + index) = some (mem pa)
  others : ∀ nsid' offset', ¬(nsid' = nsid ∧ offset ≤ offset' ∧ offset' < offset + count) →
    namespaceByte store' nsid' offset' = namespaceByte store nsid' offset'
  mem_eq : mem' = mem

/-- The first `count` bytes of the buffer are those of the namespace from
`offset` on, and no other byte changed. -/
structure Read (frames : ℕ → Option ℕ) (nsid buf count offset : ℕ)
    (mem mem' : Memory) (store store' : Store Sector) : Prop where
  moved : ∀ index < count, ∃ pa, bufferByte frames buf index = some pa ∧
    ∀ byte, namespaceByte store nsid (offset + index) = some byte → mem' pa = byte
  others : ∀ pa, (∀ index < count, bufferByte frames buf index ≠ some pa) → mem' pa = mem pa
  store_eq : ∀ nsid' offset', namespaceByte store' nsid' offset' = namespaceByte store nsid' offset'

def Moved (write : Bool) : (frames : ℕ → Option ℕ) → (nsid buf count offset : ℕ) →
    (mem mem' : Memory) → (store store' : Store Sector) → Prop :=
  if write then Wrote else Read

/-- Every answer `n ≥ 0` to a transfer of `count` bytes at `offset` of a
namespace means that `n` bytes were moved. -/
def AnswersWhatMoved (write : Bool) (count offset : ℕ) : Prop :=
  ∀ (σ : Type) (env : FileEnv σ) (fd : ℤ) (buf : ℕ) (w w' : FileWorld σ)
    (store : Store Sector) (n : ℤ), 0 ≤ fd → buf < 2 ^ 64 → env.ftl.Holds w.ftl store →
    spuTransfer env write fd buf count offset w = some (.ok n, w') → 0 ≤ n →
    ∃ store', env.ftl.Holds w'.ftl store' ∧
      Moved write env.frames (fd.toNat + 1) buf n.toNat offset w.mem w'.mem store store'

/-- The transfer is refused, its answer is negative, or it is one of whole
sectors whose number fits in 32 bits. -/
def WholeSectors (count offset : ℕ) : Prop :=
  count = 0 ∨ 2 ^ 63 ≤ count ∨ offset % 4096 = 0 ∧ count % 4096 = 0 ∧ count < 2 ^ 44

instance (count offset : ℕ) : Decidable (WholeSectors count offset) :=
  inferInstanceAs (Decidable (_ ∨ _ ∨ _))

/-! ### A transfer that returns -/

section Returns

variable {env : FileEnv σ} {write : Bool} {fd : ℤ} {buf count offset : ℕ}
  {w w' : FileWorld σ} {store : Store Sector} {n : ℤ}

theorem toSsize_of_lt (hcount : count < 2 ^ 63) : toSsize count = count := by
  rw [toSsize, BitVec.toInt_eq_toNat_of_lt]
  · rw [BitVec.toNat_ofNat, Nat.mod_eq_of_lt (by omega)]
  · rw [BitVec.toNat_ofNat, Nat.mod_eq_of_lt (by omega)]
    omega

theorem toSsize_neg (hcount : 2 ^ 63 ≤ count) (hlt : count < 2 ^ 64) : toSsize count < 0 := by
  rw [toSsize, BitVec.toInt_eq_toNat_cond, BitVec.toNat_ofNat,
    Nat.mod_eq_of_lt hlt, if_neg (by omega)]
  omega

def fileRequest (write : Bool) (nsid addr count offset : ℕ) (mem : Memory) : Request Sector where
  type := if write then .write else .read
  nsid := nsid
  startLba := offset >>> sectorShift
  sectorCount := (count >>> sectorShift) % 2 ^ 32
  data := bufferSectors mem addr

variable {addr : ℕ}

theorem fileRequest_inTypes {nsid : ℕ} {mem : Memory} (hoffset : offset < 2 ^ 64) :
    (fileRequest write nsid addr count offset mem).InTypes := by
  refine ⟨?_, Nat.mod_lt _ (by norm_num)⟩
  exact (Nat.shiftRight_le offset sectorShift).trans_lt hoffset

theorem request_fileTask {mem : Memory} (hfd : 0 ≤ fd) :
    (fileTask fd write addr count offset).request mem =
      fileRequest write (fd.toNat + 1) addr count offset mem := by
  have hhost : fd ≠ fdHostMem := by
    rw [fdHostMem]
    omega
  cases write with
  | false | true => simp [FtlTask.request, fileTask, fileRequest, hhost, hfd]

theorem processStorpuTask_fileTask (hfd : 0 ≤ fd) :
    processStorpuTask env (fileTask fd write addr count offset) w =
      (env.ftl.process (fileRequest write (fd.toNat + 1) addr count offset w.mem)
        w.ftl).map fun (answer, s) =>
          (answer.1, ⟨if write then w.mem else copyOut answer.2 addr w.mem, s⟩) := by
  have hhost : fd ≠ fdHostMem := by
    rw [fdHostMem]
    omega
  rw [← request_fileTask hfd]
  cases write with
  | false | true =>
    simp [processStorpuTask, processStorpuFlashTask, fileTask, hhost, FtlTask.request]

/-- What an answer without an error went through. -/
theorem spuTransfer_ok (hfd : 0 ≤ fd)
    (hreturn : spuTransfer env write fd buf count offset w = some (.ok n, w')) :
    ∃ addr data s, vmVumap env.frames buf count = .ok (count, addr) ∧
      env.ftl.process (fileRequest write (fd.toNat + 1) addr count offset w.mem)
        w.ftl = some ((none, data), s) ∧ n = toSsize count ∧
      w' = ⟨if write then w.mem else copyOut data addr w.mem, s⟩ := by
  have hscratch : fd ≠ fdScratchpad := by
    rw [fdScratchpad]
    omega
  rw [spuTransfer, if_neg hscratch, fileReadwrite] at hreturn
  cases hvumap : vmVumap env.frames buf count with
  | error error =>
    rw [hvumap] at hreturn
    exact absurd hreturn (by simp)
  | ok piece =>
    obtain ⟨size, addr⟩ := piece
    rw [hvumap] at hreturn
    simp only [processStorpuTask_fileTask hfd] at hreturn
    split at hreturn
    · exact absurd hreturn (by simp)
    split at hreturn
    · exact absurd hreturn (by simp)
    rename_i hsize
    rw [not_not] at hsize
    subst hsize
    cases hprocess : env.ftl.process
        (fileRequest write (fd.toNat + 1) addr size offset w.mem) w.ftl with
    | none =>
      rw [hprocess] at hreturn
      exact absurd hreturn (by simp)
    | some answered =>
      obtain ⟨⟨status, data⟩, s⟩ := answered
      rw [hprocess] at hreturn
      cases status with
      | some error => exact absurd hreturn (by simp)
      | none =>
        have hpair := some.inj hreturn
        rw [Prod.mk.injEq] at hpair
        exact ⟨addr, data, s, rfl, hprocess, (Except.ok.inj hpair.1).symm, hpair.2.symm⟩

end Returns

/-! ### Whole sectors -/

section Whole

variable {frames : ℕ → Option ℕ} {nsid buf addr count offset : ℕ} {mem : Memory}
  {store : Store Sector}

/-- A byte after a write of sectors. -/
theorem namespaceByte_write {nsid' offset' : ℕ} (hoffset : offset < 2 ^ 64) :
    namespaceByte (store.serve (fileRequest true nsid addr count offset mem)) nsid' offset' =
      if nsid' = nsid ∧ offset / 4096 ≤ offset' / 4096 ∧
          offset' / 4096 < offset / 4096 + count / 4096 % 2 ^ 32 then
        some (mem (addr + (offset' - offset / 4096 * 4096)))
      else namespaceByte store nsid' offset' := by
  rw [namespaceByte, ofStore_serve (fileRequest_inTypes hoffset)]
  have hshift : ∀ value : ℕ, value >>> sectorShift = value / 4096 := fun value =>
    Nat.shiftRight_eq_div_pow value sectorShift
  simp only [apply, write, fileRequest, hshift, if_true]
  by_cases hinside : nsid' = nsid ∧ offset / 4096 ≤ offset' / 4096 ∧
      offset' / 4096 < offset / 4096 + count / 4096 % 2 ^ 32
  · rw [if_pos hinside, if_pos (by omega), map_some, bufferSectors]
    congr 2
    simp only
    omega
  · rw [if_neg hinside, if_neg (by omega), namespaceByte]

theorem wrote_of_whole (hoffset : offset < 2 ^ 64) (haligned : offset % 4096 = 0)
    (hwhole : count % 4096 = 0) (hfits : count < 2 ^ 44) (hbuffer : ∀ index < count,
      bufferByte frames buf index = some (addr + index)) :
    Wrote frames nsid buf count offset mem mem store
      (store.serve (fileRequest true nsid addr count offset mem)) := by
  refine ⟨?_, ?_, rfl⟩
  · intro index hindex
    refine ⟨addr + index, hbuffer index hindex, ?_⟩
    rw [namespaceByte_write hoffset, if_pos (by omega)]
    congr 3
    omega
  · intro nsid' offset' houtside
    rw [namespaceByte_write hoffset, if_neg]
    rintro ⟨rfl, hle, hlt⟩
    exact houtside ⟨rfl, by omega, by omega⟩

variable {data : List Sector}

/-- A byte of memory after sectors were copied there. -/
theorem copyOut_at {index : ℕ} {sector : Sector} (hsector : data[index / 4096]? = some sector) :
    copyOut data addr mem (addr + index) = sector ⟨index % 4096, Nat.mod_lt _ (by decide)⟩ := by
  simp only [copyOut, if_pos (Nat.le_add_right addr index), Nat.add_sub_cancel_left, hsector]

theorem copyOut_off {pa : ℕ} (hoff : addr ≤ pa → addr + 4096 * data.length ≤ pa) :
    copyOut data addr mem pa = mem pa := by
  rw [copyOut]
  split
  · rename_i hle
    rw [getElem?_eq_none (by have := hoff hle; omega)]
  · rfl

theorem read_of_whole (hoffset : offset < 2 ^ 64) (haligned : offset % 4096 = 0)
    (hwhole : count % 4096 = 0) (hfits : count < 2 ^ 44) (hbuffer : ∀ index < count,
      bufferByte frames buf index = some (addr + index)) (hreads : (ofStore store).ReadsBack
      (fileRequest false nsid addr count offset mem) data) :
    Read frames nsid buf count offset mem (copyOut data addr mem) store
      (store.serve (fileRequest false nsid addr count offset mem)) := by
  have hshift : ∀ value : ℕ, value >>> sectorShift = value / 4096 := fun value =>
    Nat.shiftRight_eq_div_pow value sectorShift
  have hcount : (fileRequest false nsid addr count offset mem).sectorCount = count / 4096 := by
    simp only [fileRequest, hshift]
    omega
  refine ⟨?_, ?_, fun _ _ => rfl⟩
  · intro index hindex
    refine ⟨addr + index, hbuffer index hindex, ?_⟩
    intro byte hbyte
    obtain ⟨sector, hsector, rfl⟩ := map_eq_some_iff.mp hbyte
    have hlast := hreads.last (index / 4096) (by rw [hcount]; omega) sector
    simp only [Request.sectorAt, fileRequest, hshift] at hlast
    have hnumber : (offset / 4096 + index / 4096) % 2 ^ 64 = (offset + index) / 4096 := by omega
    rw [hnumber] at hlast
    rw [copyOut_at (hlast hsector)]
    congr 2
    omega
  · intro pa hother
    have hlength : 4096 * data.length = count := by
      rw [hreads.length_eq, hcount]
      omega
    apply copyOut_off
    intro hle
    by_contra hlt
    refine hother (pa - addr) (by omega) ?_
    rw [hbuffer (pa - addr) (by omega)]
    congr 1
    omega

/-- Transfers of whole sectors answer what they moved. -/
theorem answersWhatMoved_of_whole {write : Bool} (hcount : count < 2 ^ 64)
    (hoffset : offset < 2 ^ 64) (hwhole : WholeSectors count offset) :
    AnswersWhatMoved write count offset := by
  intro σ env fd buf w w' store n hfd hbuf hholds hreturn hn
  obtain ⟨addr, data, s, hvumap, hprocess, rfl, rfl⟩ := spuTransfer_ok hfd hreturn
  have hbuffer := bufferByte_of_vmVumap hbuf hvumap
  obtain ⟨hholds', hread⟩ := env.ftl.process_spec (fileRequest_inTypes hoffset) hholds hprocess rfl
  refine ⟨_, hholds', ?_⟩
  rcases hwhole with rfl | hhuge | ⟨haligned, hsectors, hfits⟩
  · exact absurd hvumap nofun
  · exact absurd hn (not_le.mpr (toSsize_neg hhuge hcount))
  · rw [toSsize_of_lt (by omega), Int.toNat_natCast]
    cases write with
    | true => exact wrote_of_whole hoffset haligned hsectors hfits hbuffer
    | false => exact read_of_whole hoffset haligned hsectors hfits hbuffer (hread rfl)

end Whole

/-! ### Other transfers -/

def plainService : FlashService (Store Sector) where
  process := fun req store =>
    some ((none, (range req.sectorCount).map fun index =>
      (ofStore store req.nsid (req.sectorAt index)).getD 0),
      store.serve req)
  Holds := fun s store => s = store
  process_spec := by
    intro req s store answer s' _ hholds hprocess _
    have hpair := some.inj hprocess
    rw [Prod.mk.injEq] at hpair
    rw [← hpair.1, ← hpair.2, hholds]
    refine ⟨rfl, fun _ => ⟨?_, ?_⟩⟩
    · rw [length_map, length_range]
    · intro index hindex value hvalue
      rw [getElem?_map, getElem?_range hindex, map_some, hvalue, getD_some]

/-- Every virtual page is mapped, one frame higher up. -/
def linearFrames (page : ℕ) : Option ℕ := some (4096 * (page + 1))

def plainEnv : FileEnv (Store Sector) where
  frames := linearFrames
  ftl := plainService
  hostXfer := fun _ mem => (none, mem)
  scratchpad := fun _ _ _ _ mem => (.error .efault, mem)

section Plain

variable {write : Bool} {count offset : ℕ} {mem : Memory} {store : Store Sector}

theorem pgdVa2pa_linearFrames (vir : ℕ) : pgdVa2pa linearFrames vir = some (vir + 4096) := by
  rw [pgdVa2pa, linearFrames, map_some]
  congr 1
  omega

theorem le_va2paLoop_linearFrames {bytes rounds len vir : ℕ}
    (hbytes : bytes < 2 ^ 64) (hvir : vir = len % 2 ^ 64) (hrounds : bytes ≤ rounds + len) :
    bytes ≤ va2paLoop linearFrames bytes rounds len vir (len + 4096) := by
  induction rounds generalizing len vir with
  | zero =>
    rw [va2paLoop]
    omega
  | succ rounds ih =>
    rw [va2paLoop]
    by_cases hlt : len < bytes
    · have hsame : len + 4096 = vir + 4096 := by omega
      rw [if_pos hlt, pgdVa2pa_linearFrames]
      simp only [hsame, ne_eq, not_true_eq_false, if_false]
      exact ih (by omega) (by omega)
    · rw [if_neg hlt]
      omega

def plainRead (store : Store Sector) (count offset : ℕ) : List Sector :=
  (range ((count >>> sectorShift) % 2 ^ 32)).map fun index =>
    (ofStore store 1 ((offset >>> sectorShift + index) % 2 ^ 64)).getD 0

/-- A byte of the buffer after a read. -/
theorem copyOut_plainRead (index : ℕ) (hoffset : offset < 2 ^ 64) :
    copyOut (plainRead store count offset) 4096 mem (4096 + index) =
      if index / 4096 < count / 4096 % 2 ^ 32 then
        (namespaceByte store 1 (offset / 4096 * 4096 + index)).getD 0
      else mem (4096 + index) := by
  have hshift : ∀ value : ℕ, value >>> sectorShift = value / 4096 := fun value =>
    Nat.shiftRight_eq_div_pow value sectorShift
  by_cases hlt : index / 4096 < count / 4096 % 2 ^ 32
  · have hsector : (plainRead store count offset)[index / 4096]? =
        some ((ofStore store 1 (offset / 4096 + index / 4096)).getD 0) := by
      simp only [plainRead, hshift]
      rw [getElem?_map, getElem?_range hlt, map_some, Nat.mod_eq_of_lt (by omega)]
    have hdiv : (offset / 4096 * 4096 + index) / 4096 = offset / 4096 + index / 4096 := by omega
    have hmod : (offset / 4096 * 4096 + index) % 4096 = index % 4096 := by omega
    simp only [if_pos hlt, copyOut_at hsector, namespaceByte, hdiv, hmod]
    cases ofStore store 1 (offset / 4096 + index / 4096) with
    | none | some sector => rfl
  · rw [if_neg hlt]
    apply copyOut_off
    intro _
    rw [plainRead, length_map, length_range, hshift]
    omega

def markedStore (offset : ℕ) : Store Sector := fun _ lpa sector =>
  some fun byte =>
    if (lpa * sectorsPerFlashPg + sector) * 4096 + byte = offset then 1 else 0

theorem namespaceByte_markedStore (nsid offset' : ℕ) :
    namespaceByte (markedStore offset) nsid offset' = some (if offset' = offset then 1 else 0) := by
  simp only [namespaceByte, ofStore, markedStore, map_some, Nat.div_add_mod']

variable (hpos : 0 < count)
include hpos

theorem vmVumap_linearFrames (hcount : count < 2 ^ 64) :
    vmVumap linearFrames 0 count = .ok (count, 4096) := by
  have hpiece : pgdVa2paRange linearFrames 0 count = (count, 4096) := by
    have hle : count ≤ va2paLoop linearFrames count count 4096 4096 8192 :=
      le_va2paLoop_linearFrames hcount rfl (Nat.le_add_right count 4096)
    exact Prod.ext (min_eq_left hle) rfl
  rw [vmVumap, if_neg (not_le.mpr hpos), hpiece]
  simp only [if_neg hpos.ne']

theorem spuTransfer_plain (hcount : count < 2 ^ 64) :
    spuTransfer plainEnv write 0 0 count offset ⟨mem, store⟩ = some (.ok (toSsize count),
        ⟨if write then mem else copyOut (plainRead store count offset) 4096 mem,
        store.serve (fileRequest write 1 4096 count offset mem)⟩) := by
  have hvumap : vmVumap plainEnv.frames 0 count = .ok (count, 4096) :=
    vmVumap_linearFrames hpos hcount
  rw [spuTransfer, if_neg (by decide), fileReadwrite, hvumap]
  simp only [processStorpuTask_fileTask le_rfl]
  rw [if_neg (by decide), if_neg (not_not.mpr rfl)]
  rfl

variable (hcount : count < 2 ^ 63)
include hcount

/-- What the simplest FTL moves when it answers what it moved. -/
theorem moved_plain
    (hmoves : AnswersWhatMoved write count offset) (mem : Memory) (store : Store Sector) :
    Moved write linearFrames 1 0 count offset mem
      (if write then mem else copyOut (plainRead store count offset) 4096 mem)
      store (store.serve (fileRequest write 1 4096 count offset mem)) := by
  obtain ⟨store', hholds, hmoved⟩ := hmoves _ plainEnv 0 0 ⟨mem, store⟩ _ store _ le_rfl
    (by norm_num) rfl (spuTransfer_plain hpos (by omega)) (by rw [toSsize_of_lt hcount]; omega)
  rw [toSsize_of_lt hcount, Int.toNat_natCast] at hmoved
  rw [← hholds] at hmoved
  exact hmoved

/-- Ones written over zeroes show which sectors a write touches. -/
theorem whole_of_wrote (hoffset : offset < 2 ^ 64) (hmoves : AnswersWhatMoved true count offset) :
    offset % 4096 = 0 ∧ count % 4096 = 0 ∧ count < 2 ^ 44 := by
  have hwrote : Wrote _ _ _ _ _ _ _ _ _ :=
    moved_plain hpos hcount hmoves (fun _ => 1) fun _ _ _ => some 0
  have hone : ∀ offset', namespaceByte (Store.serve (fun _ _ _ => some 0)
      (fileRequest true 1 4096 count offset fun _ => 1)) 1 offset' =
        some 1 ↔ offset / 4096 ≤ offset' / 4096 ∧
          offset' / 4096 < offset / 4096 + count / 4096 % 2 ^ 32 := by
    intro offset'
    rw [namespaceByte_write hoffset]
    by_cases hinside : offset / 4096 ≤ offset' / 4096 ∧
        offset' / 4096 < offset / 4096 + count / 4096 % 2 ^ 32
    · rw [if_pos ⟨rfl, hinside⟩]
      exact iff_of_true rfl hinside
    · rw [if_neg fun houtside => hinside houtside.2]
      exact iff_of_false (by simp [namespaceByte, ofStore]) hinside
  have hmoved : ∀ index < count, offset / 4096 ≤ (offset + index) / 4096 ∧
      (offset + index) / 4096 < offset / 4096 + count / 4096 % 2 ^ 32 := by
    intro index hindex
    obtain ⟨pa, -, hbyte⟩ := hwrote.moved index hindex
    exact (hone _).mp hbyte
  have hfirst := hmoved 0 hpos
  have hlast := hmoved (count - 1) (by omega)
  by_cases haligned : offset % 4096 = 0
  · omega
  · -- the byte at the start of the sector was to be left alone
    have hbefore := hwrote.others 1 (offset / 4096 * 4096) (by omega)
    rw [(hone _).mpr (by omega)] at hbefore
    exact absurd hbefore (by simp [namespaceByte, ofStore])

/-- What is read to a buffer of zeroes. -/
theorem read_plain (hoffset : offset < 2 ^ 64) (hmoves : AnswersWhatMoved false count offset)
    {index : ℕ} (hindex : index < count) (hone : namespaceByte store 1 (offset + index) = some 1) :
    index / 4096 < count / 4096 % 2 ^ 32 ∧
      (namespaceByte store 1 (offset / 4096 * 4096 + index)).getD 0 = 1 := by
  have hread : Read _ _ _ _ _ _ _ _ _ := moved_plain hpos hcount hmoves (fun _ => 0) store
  obtain ⟨pa, hpa, hmoved⟩ := hread.moved index hindex
  rw [bufferByte, pgdVa2pa_linearFrames, zero_add,
    Nat.mod_eq_of_lt (by omega), Nat.add_comm index] at hpa
  have hbyte := hmoved 1 hone
  rw [← some.inj hpa, if_neg Bool.false_ne_true, copyOut_plainRead index hoffset] at hbyte
  split at hbyte
  · rename_i hlt
    exact ⟨hlt, hbyte⟩
  · exact absurd hbyte (by decide)

/-- A read of a single one among zeroes shows where it starts, a read of ones
how far it goes. -/
theorem whole_of_read (hoffset : offset < 2 ^ 64) (hmoves : AnswersWhatMoved false count offset) :
    offset % 4096 = 0 ∧ count % 4096 = 0 ∧ count < 2 ^ 44 := by
  have hmark : namespaceByte (markedStore offset) 1 (offset + 0) = some 1 := by
    rw [namespaceByte_markedStore, if_pos (add_zero offset)]
  have hstart := (read_plain hpos hcount hoffset hmoves hpos hmark).2
  rw [namespaceByte_markedStore, getD_some] at hstart
  have hsame : offset / 4096 * 4096 + 0 = offset := by
    by_contra hne
    rw [if_neg hne] at hstart
    exact absurd hstart (by decide)
  have hones : namespaceByte (fun _ _ _ => some fun _ => 1) 1 (offset + (count - 1)) = some 1 := rfl
  have hend := (read_plain hpos hcount hoffset hmoves (Nat.sub_lt hpos Nat.one_pos) hones).1
  omega

end Plain

section Cache

variable {μ : Type} {lower : Tid → Wait → Sys Sector μ → Option (Answer Sector × Sys Sector μ)}
  {device : Env Sector} {virgin : Sector → Prop}

/-- The data cache over a layer that keeps what is written to it, as an FTL. -/
def cacheService (layer : MappingLayer lower device (fun _ => True) virgin)
    (hreliable : device.Reliable) (hboundless : layer.Boundless) : FlashService (Sys Sector μ) where
  process := fun req s =>
    match exec (resumeAlone lower device) (serveRequest device layer.dispatch req) s with
    | .done ended => some ended
    | .fault _ | .stuck => none
  Holds := Resting layer
  process_spec := by
    intro req s store answer s' htypes hresting hprocess hnone
    have hserve := wp_serveRequest hreliable hboundless htypes (fun _ _ => trivial) hresting
    rw [wp_alone] at hserve
    cases hexec : exec (resumeAlone lower device) (serveRequest device layer.dispatch req) s with
    | done ended =>
      rw [hexec] at hprocess hserve
      obtain rfl : ended = (answer, s') := some.inj hprocess
      obtain ⟨hresting', -, hread⟩ := hserve hnone
      exact ⟨hresting', hread⟩
    | fault reason | stuck =>
      rw [hexec] at hprocess
      exact absurd hprocess nofun

end Cache

def sectorDevice : Env Sector where
  cfg := ⟨benchGeometry, 2, 1, 64⟩
  bm := benchEnv
  faults := fun _ => none
  garbage := fun _ _ => 0
  stray := fun _ => none

def sectorLayer : MappingLayer (fun _ _ (_ : Sys Sector (Store Sector)) => none) sectorDevice
    (fun _ => True) fun _ => True :=
  (storeLayer (fun _ _ _ => none) sectorDevice).weaken fun _ _ => trivial

def sectorSys : Sys Sector (Store Sector) where
  cache := DataCache.init 2
  back := fun _ _ _ => none
  current := 0
  flusher := {}
  tick := 0
  log := []

def sectorEnv : FileEnv (Sys Sector (Store Sector)) where
  frames := linearFrames
  ftl := cacheService sectorLayer (fun _ => rfl) ⟨fun _ _ _ => trivial, fun _ _ _ hholds => hholds⟩
  hostXfer := fun _ mem => (none, mem)
  scratchpad := fun _ _ _ _ mem => (.error .efault, mem)

end Soda.Storpu
