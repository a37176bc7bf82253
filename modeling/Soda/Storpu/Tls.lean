import Mathlib

/-!
# Thread-local storage

The block of a thread lies behind the `tls_tcb` at the start of a new mapping,
and the thread pointer is that of the `tls_tcb`.  The mapping ends with the
vector `tcb_dtv`.
-/

namespace Soda.Storpu

abbrev Bytes := ℕ → UInt8

def setBytes (mem : Bytes) (dst len : ℕ) (byte : ℕ → UInt8) : Bytes := fun a =>
  if dst ≤ a ∧ a < dst + len then byte (a - dst) else mem a

def storeWord (mem : Bytes) (dst word : ℕ) : Bytes :=
  setBytes mem dst 8 fun k => UInt8.ofNat (word >>> (8 * k))

/-- A `PT_TLS` header, with the alignment as a power of two, and the load base of
its object. -/
structure TlsSegment where
  relocbase : ℕ
  vaddr : ℕ
  memsz : ℕ
  filesz : ℕ
  alignShift : ℕ
  memsz_lt : memsz < 2 ^ 64
  filesz_le : filesz ≤ memsz

/-- The new `tls_static_space`. -/
def ldsoTlsInitialAllocation (tlsStaticOffset : ℕ) : ℕ :=
  if tlsStaticOffset = 0 then 0
  else
    let space := (tlsStaticOffset + 64) % 2 ^ 64
    if space % 8 = 0 then space else (space + (8 - space % 8)) % 2 ^ 64

namespace TlsSegment

variable (seg : TlsSegment) (base : ℕ) (mem : Bytes)

/-- `tls_offset` and the new `tls_static_offset`. -/
def ldsoTlsAllocateOffset (tlsStaticOffset : ℕ) : ℕ × ℕ :=
  if seg.memsz = 0 then (0, tlsStaticOffset)
  else
    let align := 2 ^ seg.alignShift
    let offset := if tlsStaticOffset % align = 0 then tlsStaticOffset
      else (tlsStaticOffset + (align - tlsStaticOffset % align)) % 2 ^ 64
    (offset, (offset + seg.memsz) % 2 ^ 64)

/-- In a new context nothing has been allocated before the object. -/
def tlsOffset : ℕ := (seg.ldsoTlsAllocateOffset 0).1

def tlsStaticSpace : ℕ := ldsoTlsInitialAllocation (seg.ldsoTlsAllocateOffset 0).2

/-- The length of the mapping, for a `tls_tcb` of 16 bytes and a `tls_max_index`
of 1. -/
def tlsLength : ℕ := (seg.tlsStaticSpace + 16 + 24) % 2 ^ 64

def tlsBlock : ℕ := base + 16 + seg.tlsOffset

/-- The memory when the image is copied: a new mapping at `base` that has the
pointer `tcb_dtv` and the number of its elements. -/
def tlsMapped : Bytes :=
  let dtv := base + 16 + seg.tlsStaticSpace + 8
  storeWord (storeWord (setBytes mem base seg.tlsLength fun _ => 0) base dtv) dtv 1

/-- `none` stands for a null `tls_tcb`. -/
def ldsoAllocateTls : Option Bytes :=
  if seg.tlsStaticSpace = 0 then none
  else
    let before := seg.tlsMapped base mem
    let copied := if seg.filesz = 0 then before
      else setBytes before (seg.tlsBlock base) seg.filesz fun k => before (seg.vaddr + k)
    some (storeWord copied (base + 16 + seg.tlsStaticSpace + 16) (seg.tlsBlock base))

/-- The value of `R_TYPE(TLS_TPREL)` and of `ldso_tlsdesc_fill`. -/
def tprel (value addend : ℕ) : ℕ := (value + seg.tlsOffset + addend + 16) % 2 ^ 64

structure TlsRight (mem' : Bytes) : Prop where
  aligned : 2 ^ seg.alignShift ∣ seg.tlsBlock base
  inside : base ≤ seg.tlsBlock base ∧ seg.tlsBlock base + seg.memsz ≤ base + seg.tlsLength
  image : ∀ k < seg.filesz, mem' (seg.tlsBlock base + k) = mem (seg.relocbase + seg.vaddr + k)
  blank : ∀ k, seg.filesz ≤ k → k < seg.memsz → mem' (seg.tlsBlock base + k) = 0
  relocated : ∀ value addend,
    (base + seg.tprel value addend) % 2 ^ 64 = (seg.tlsBlock base + value + addend) % 2 ^ 64

variable {base mem}

theorem setBytes_inside {dst len a : ℕ} {byte : ℕ → UInt8} (hle : dst ≤ a) (hlt : a < dst + len) :
    setBytes mem dst len byte a = byte (a - dst) :=
  if_pos ⟨hle, hlt⟩

theorem setBytes_outside {dst len a : ℕ} {byte : ℕ → UInt8} (hout : a < dst ∨ dst + len ≤ a) :
    setBytes mem dst len byte a = mem a :=
  if_neg (by omega)

theorem allocateOffset_zero : seg.ldsoTlsAllocateOffset 0 = (0, seg.memsz) := by
  rw [ldsoTlsAllocateOffset]
  split_ifs with hzero
  · rw [hzero]
  · simpa using seg.memsz_lt

theorem tlsBlock_eq : seg.tlsBlock base = base + 16 := by
  rw [tlsBlock, tlsOffset, allocateOffset_zero, add_zero]

/-- Without an overflow the block and the vector fit behind the `tls_tcb`. -/
theorem tlsStaticSpace_of_le (hpos : seg.memsz ≠ 0) (hle : seg.memsz ≤ 2 ^ 64 - 112) :
    seg.memsz < seg.tlsStaticSpace ∧ seg.tlsLength = seg.tlsStaticSpace + 40 := by
  rw [tlsLength, tlsStaticSpace, allocateOffset_zero, ldsoTlsInitialAllocation, if_neg hpos]
  dsimp only
  split_ifs <;> omega

theorem length_lt_of_lt (hlt : 2 ^ 64 - 112 < seg.memsz) (hspace : seg.tlsStaticSpace ≠ 0) :
    seg.tlsLength < 16 + seg.memsz := by
  have hpos : seg.memsz ≠ 0 := by omega
  have hmemsz := seg.memsz_lt
  revert hspace
  rw [tlsLength, tlsStaticSpace, allocateOffset_zero, ldsoTlsInitialAllocation, if_neg hpos]
  dsimp only
  split_ifs <;> omega

theorem two_pow_dvd_tlsBlock (hpage : 4096 ∣ base) :
    2 ^ seg.alignShift ∣ seg.tlsBlock base ↔ seg.alignShift ≤ 4 := by
  rw [tlsBlock_eq]
  constructor
  · intro hdvd
    by_contra hlarge
    have hdvd' : 2 ^ 5 ∣ base + 16 := (pow_dvd_pow 2 (not_le.mp hlarge)).trans hdvd
    omega
  · intro hsmall
    have hdvd : 2 ^ 4 ∣ base + 16 := by omega
    exact (pow_dvd_pow 2 hsmall).trans hdvd

/-- What a thread finds in its block. -/
theorem ldsoAllocateTls_eq (base : ℕ) (mem : Bytes) (hpos : seg.memsz ≠ 0)
    (hle : seg.memsz ≤ 2 ^ 64 - 112) :
    ∃ mem', seg.ldsoAllocateTls base mem = some mem' ∧ ∀ k < seg.memsz,
      mem' (seg.tlsBlock base + k) =
        if k < seg.filesz then seg.tlsMapped base mem (seg.vaddr + k) else 0 := by
  obtain ⟨hspace, hlength⟩ := seg.tlsStaticSpace_of_le hpos hle
  refine ⟨_, if_neg (Nat.ne_zero_of_lt hspace), fun k hk => ?_⟩
  have hblock : seg.tlsBlock base + k = base + 16 + k := by
    rw [tlsBlock_eq]
  -- the vector is behind the block, and the `tls_tcb` before it
  have hblank : seg.tlsMapped base mem (seg.tlsBlock base + k) = 0 := by
    rw [tlsMapped, storeWord, setBytes_outside (by omega), storeWord, setBytes_outside (by omega)]
    exact setBytes_inside (by omega) (by omega)
  rw [storeWord, setBytes_outside (by omega)]
  split_ifs with hzero hfile hfile
  · omega
  · exact hblank
  · rw [setBytes_inside (by omega) (by omega), Nat.add_sub_cancel_left]
  · rw [setBytes_outside (by omega)]
    exact hblank

/-- Every new thread has the block its segment asks for exactly when the segment
is empty, or is aligned to at most 16 bytes, does not overflow the size of the
mapping, and the bytes at `p_vaddr` are those of the loaded image. -/
theorem ldsoAllocateTls_right_iff (hpage : 4096 ∣ base) :
    (seg.memsz ≠ 0 → ∃ mem', seg.ldsoAllocateTls base mem = some mem' ∧
        seg.TlsRight base mem mem') ↔
      seg.memsz = 0 ∨ seg.alignShift ≤ 4 ∧ seg.memsz ≤ 2 ^ 64 - 112 ∧
        ∀ k < seg.filesz, seg.tlsMapped base mem (seg.vaddr + k) =
          mem (seg.relocbase + seg.vaddr + k) := by
  by_cases hpos : seg.memsz = 0
  · exact iff_of_true (absurd hpos) (.inl hpos)
  simp only [hpos, ne_eq, not_false_eq_true, true_implies, false_or]
  constructor
  · rintro ⟨mem', hmem, hright⟩
    have hinside := hright.inside.2
    rw [tlsBlock_eq] at hinside
    have hle : seg.memsz ≤ 2 ^ 64 - 112 := by
      by_contra hlarge
      have hspace : seg.tlsStaticSpace ≠ 0 := by
        intro hzero
        rw [ldsoAllocateTls, if_pos hzero] at hmem
        cases hmem
      have hlength := seg.length_lt_of_lt (not_le.mp hlarge) hspace
      omega
    obtain ⟨found, hfound, hcontent⟩ := seg.ldsoAllocateTls_eq base mem hpos hle
    obtain rfl : found = mem' := Option.some.inj (hfound.symm.trans hmem)
    refine ⟨(seg.two_pow_dvd_tlsBlock hpage).mp hright.aligned, hle, fun k hk => ?_⟩
    rw [← hright.image k hk, hcontent k (hk.trans_le seg.filesz_le), if_pos hk]
  · rintro ⟨halign, hle, hsource⟩
    obtain ⟨found, hfound, hcontent⟩ := seg.ldsoAllocateTls_eq base mem hpos hle
    obtain ⟨hspace, hlength⟩ := seg.tlsStaticSpace_of_le hpos hle
    have hblock : seg.tlsBlock base = _ := seg.tlsBlock_eq
    refine ⟨found, hfound, (seg.two_pow_dvd_tlsBlock hpage).mpr halign, ?_, ?_, ?_, ?_⟩
    · omega
    · intro k hk
      rw [hcontent k (hk.trans_le seg.filesz_le), if_pos hk, hsource k hk]
    · intro k hk hlt
      rw [hcontent k hlt, if_neg (not_lt.mpr hk)]
    · intro value addend
      rw [tprel, tlsBlock]
      omega

/-- One byte of data at the offset 64 of an object that is loaded at 65536. -/
def loadedByte : TlsSegment := ⟨65536, 64, 1, 1, 3, by decide, le_rfl⟩

theorem not_ldsoAllocateTls_loadedByte : ¬(loadedByte.memsz ≠ 0 → ∃ mem',
    loadedByte.ldsoAllocateTls 1048576 (fun a => if a = 65600 then 7 else 0) = some mem' ∧
      loadedByte.TlsRight 1048576 (fun a => if a = 65600 then 7 else 0) mem') := by
  intro hright
  obtain ⟨mem', hmem, hright⟩ := hright (by decide)
  have himage := hright.image 0 (by decide)
  cases hmem
  revert himage
  decide

theorem ldsoAllocateTls_right_atZero :
    let seg : TlsSegment := ⟨0, 64, 1, 1, 3, by decide, le_rfl⟩
    (seg.memsz ≠ 0 → ∃ mem', seg.ldsoAllocateTls 4096 (fun _ => 0) = some mem' ∧
        seg.TlsRight 4096 (fun _ => 0) mem') ↔
      seg.memsz = 0 ∨ seg.alignShift ≤ 4 ∧ seg.memsz ≤ 2 ^ 64 - 112 ∧
        ∀ k < seg.filesz, seg.tlsMapped 4096 (fun _ => 0) (seg.vaddr + k) = 0 :=
  ldsoAllocateTls_right_iff _ (dvd_refl 4096)

end TlsSegment

end Soda.Storpu
