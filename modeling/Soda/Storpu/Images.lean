import Soda.Storpu.PageFaults

/-!
# Loading of images

`vm_exec_elf` with the functions that `vm_exec` gives it.  A mapping at a fixed
address replaces what was mapped on its pages.
-/

namespace Soda.Storpu.Vm

open List

structure Prot where
  read : Bool
  write : Bool
  exec : Bool

def Prot.Within (p q : Prot) : Prop := p.read ≤ q.read ∧ p.write ≤ q.write ∧ p.exec ≤ q.exec

/-- `ptLoad` is `p_type == PT_LOAD`, and `flags` are the rights in `p_flags`. -/
structure ElfPhdr where
  ptLoad : Bool
  flags : Prot
  offset : ℕ
  vaddr : ℕ
  filesz : ℕ
  memsz : ℕ

/-- `ident` is the first byte of `e_ident`, `header` the file. -/
structure Elf where
  ident : UInt8
  type : ℕ
  phdrs : List ElfPhdr
  header : ℕ → UInt8

/-- The bytes that are mapped, each with the rights of its page. -/
abbrev AddressSpace := ℕ → Option (UInt8 × Prot)

/-- `VM_USER_START`, the offset of all segments. -/
def vmUserStart : ℕ := 2 ^ 64 - 2 ^ 39

def roundup (x : ℕ) : ℕ := if x % 4096 = 0 then x else x + 4096 - x % 4096

def allocmem (vaddr len : ℕ) (prot : Prot) (mem : AddressSpace) : AddressSpace := fun a =>
  if vaddr ≤ a ∧ a < vaddr + len then some (0, { prot with write := true }) else mem a

def setmem (vaddr len : ℕ) (byte : ℕ → UInt8) (mem : AddressSpace) : AddressSpace := fun a =>
  if vaddr ≤ a ∧ a < vaddr + len then (mem a).map fun old => (byte (a - vaddr), old.2) else mem a

/-- No file is as long as `header_len`. -/
def copymem (header : ℕ → UInt8) (offset vaddr len : ℕ) : AddressSpace → AddressSpace :=
  setmem vaddr len fun k => header (offset + k)

def clearmem (vaddr len : ℕ) : AddressSpace → AddressSpace := setmem vaddr len fun _ => 0

/-- One iteration; `mapped` says which mappings succeed. -/
def loadPhdr (mapped : ℕ → ℕ → Bool) (header : ℕ → UInt8) (mem : AddressSpace)
    (phdr : ElfPhdr) : Except Errno AddressSpace :=
  if phdr.ptLoad = false ∨ phdr.memsz = 0 then .ok mem
  else if phdr.vaddr % 4096 ≠ phdr.offset % 4096 then .error .enoexec
  else
    let pVaddr := phdr.vaddr + vmUserStart
    let alignment := pVaddr % 4096
    let foffset := phdr.offset - alignment
    let vaddr := pVaddr - alignment
    let memsize := roundup (phdr.memsz + alignment)
    let fsize := roundup (phdr.filesz + alignment)
    if mapped vaddr memsize then
      let fileend := pVaddr + phdr.filesz
      .ok (clearmem fileend (vaddr + memsize - fileend) (clearmem vaddr (pVaddr - vaddr)
        (copymem header foffset vaddr fsize (allocmem vaddr memsize phdr.flags mem))))
    else .error .enomem

def vmExecElf (mapped : ℕ → ℕ → Bool) (elf : Elf) (mem : AddressSpace) :
    Except Errno AddressSpace :=
  if elf.ident ≠ 0x7f ∨ (elf.type ≠ 2 ∧ elf.type ≠ 3) then .error .enoexec
  else elf.phdrs.foldlM (loadPhdr mapped elf.header) mem

namespace ElfPhdr

variable (header : ℕ → UInt8) (p : ElfPhdr) (a : ℕ)

def start : ℕ := p.vaddr + vmUserStart

def Has : Prop := p.ptLoad = true ∧ p.start ≤ a ∧ a < p.start + p.memsz

def Covers : Prop := (p.ptLoad = true ∧ p.memsz ≠ 0) ∧ p.start - p.start % 4096 ≤ a ∧
  a < p.start - p.start % 4096 + roundup (p.memsz + p.start % 4096)

instance : Decidable (p.Covers a) := by
  unfold Covers
  infer_instance

def byte : UInt8 :=
  if p.start ≤ a ∧ a < p.start + p.filesz then header (p.offset + (a - p.start)) else 0

def rights : Prot := { p.flags with write := true }

end ElfPhdr

/-- The segments lie in the address space of the user and have no byte in
common. -/
structure Elf.Valid (elf : Elf) : Prop where
  fits : ∀ p ∈ elf.phdrs, p.filesz ≤ p.memsz ∧ p.vaddr + p.memsz ≤ 2 ^ 39
  disjoint : ∀ p ∈ elf.phdrs, ∀ q ∈ elf.phdrs, p ≠ q → ∀ a, p.Has a → ¬q.Has a

def Elf.Loaded (elf : Elf) (mem : AddressSpace) : Prop :=
  ∀ p ∈ elf.phdrs, ∀ a, p.Covers a → ∃ byte rights, mem a = some (byte, rights) ∧
    p.flags.Within rights ∧ (p.Has a → byte = p.byte elf.header a)

def lastOn (phdrs : List ElfPhdr) (a : ℕ) : Option ElfPhdr := phdrs.reverse.find? (·.Covers a)

/-- On each page of a segment, the last segment there is that one, or it has the
rights of that one, all of whose bytes there are zero. -/
def Elf.Unshared (elf : Elf) : Prop :=
  ∀ p ∈ elf.phdrs, ∀ a, p.Covers a → ∀ q, lastOn elf.phdrs a = some q →
    q = p ∨ p.flags.Within q.rights ∧ (p.Has a → p.byte elf.header a = 0)

variable {mapped : ℕ → ℕ → Bool} {header : ℕ → UInt8} {mem mem' : AddressSpace} {p : ElfPhdr}

theorem le_roundup (x : ℕ) : x ≤ roundup x := by
  rw [roundup]
  split <;> omega

theorem roundup_mono {x y : ℕ} (hle : x ≤ y) : roundup x ≤ roundup y := by
  simp only [roundup]
  split <;> split <;> omega

/-- A segment fills its pages and nothing else. -/
theorem loadPhdr_eq (hle : p.filesz ≤ p.memsz)
    (hload : loadPhdr mapped header mem p = .ok mem') (a : ℕ) :
    mem' a = if p.Covers a then some (p.byte header a, p.rights) else mem a := by
  rw [loadPhdr] at hload
  split at hload
  · next hnone =>
    cases hload
    rw [if_neg]
    rintro ⟨⟨hptLoad, hmemsz⟩, -⟩
    simp [hptLoad, hmemsz] at hnone
  · next hloads =>
    split at hload
    · cases hload
    · next haligned =>
      rw [not_or, Bool.not_eq_false] at hloads
      have hcovers : p.Covers a ↔ _ ∧ _ := and_iff_right hloads
      have hfile := le_roundup (p.filesz + p.start % 4096)
      have hsize : roundup (p.filesz + p.start % 4096) ≤ roundup (p.memsz + p.start % 4096) :=
        roundup_mono (Nat.add_le_add_right hle _)
      have hoffset : p.start % 4096 = p.offset % 4096 := by
        rw [← not_not.mp haligned, ElfPhdr.start, vmUserStart]
        omega
      have hstart : p.vaddr + vmUserStart = p.start := rfl
      simp only [hstart] at hload
      split at hload
      · cases hload
        simp only [hcovers, clearmem, copymem, setmem, allocmem]
        by_cases hpage : p.start - p.start % 4096 ≤ a ∧
            a < p.start - p.start % 4096 + roundup (p.memsz + p.start % 4096)
        · simp only [if_pos hpage, ElfPhdr.byte]
          by_cases hin : p.start ≤ a ∧ a < p.start + p.filesz
          · have hplace : p.offset - p.start % 4096 + (a - (p.start - p.start % 4096)) =
                p.offset + (a - p.start) := by omega
            rw [if_pos hin, if_neg (by omega), if_neg (by omega), if_pos (by omega), hplace]
            rfl
          · rw [if_neg hin]
            split
            · split <;> split <;> rfl
            · rw [if_pos (by omega)]
              split <;> rfl
        · simp only [if_neg hpage]
          rw [if_neg (by omega), if_neg (by omega), if_neg (by omega)]
      · cases hload

theorem foldlM_loadPhdr {phdrs : List ElfPhdr} (hle : ∀ p ∈ phdrs, p.filesz ≤ p.memsz)
    (hload : phdrs.foldlM (loadPhdr mapped header) mem = .ok mem') (a : ℕ) :
    mem' a = ((lastOn phdrs a).map fun q => (q.byte header a, q.rights)).or (mem a) := by
  induction phdrs generalizing mem with
  | nil =>
    cases hload
    rfl
  | cons p phdrs ih =>
    rw [foldlM_cons] at hload
    cases hfirst : loadPhdr mapped header mem p with
    | error error =>
      rw [hfirst] at hload
      cases hload
    | ok middle =>
      rw [hfirst] at hload
      rw [ih (fun q hq => hle q (.tail _ hq)) hload,
        loadPhdr_eq (hle p mem_cons_self) hfirst, lastOn, lastOn, reverse_cons, find?_append]
      cases phdrs.reverse.find? (·.Covers a) with
      | some q => rfl
      | none => by_cases hcovers : p.Covers a <;> simp [hcovers]

/-- The image matches the file exactly if no segment is lost on a page that it
shares with a later one. -/
theorem vmExecElf_loaded_iff (mapped : ℕ → ℕ → Bool) (elf : Elf) (mem mem' : AddressSpace)
    (hvalid : elf.Valid) (hrun : vmExecElf mapped elf mem = .ok mem') :
    elf.Loaded mem' ↔ elf.Unshared := by
  rw [vmExecElf] at hrun
  split at hrun
  · cases hrun
  · have hmem := foldlM_loadPhdr (fun p hp => (hvalid.fits p hp).1) hrun
    refine forall₄_congr fun p hp a hcovers => ?_
    have hsome : (lastOn elf.phdrs a).isSome := by
      rw [lastOn, find?_isSome]
      exact ⟨p, mem_reverse.mpr hp, decide_eq_true hcovers⟩
    obtain ⟨q, hlast⟩ := Option.isSome_iff_exists.mp hsome
    rw [hmem, hlast]
    by_cases hsame : q = p
    · subst hsame
      simp [ElfPhdr.rights, Prot.Within]
    · -- the last segment has nothing but zeros outside of its own bytes
      have hzero : p.Has a → q.byte elf.header a = 0 := by
        intro hhas
        have hq := mem_reverse.mp (mem_of_find?_eq_some hlast)
        have hlater : q.Covers a := by simpa using find?_some hlast
        apply if_neg
        rintro ⟨hfrom, hto⟩
        apply hvalid.disjoint p hp q hq (Ne.symm hsame) a hhas
        exact ⟨hlater.1.1, hfrom, hto.trans_le (Nat.add_le_add_left (hvalid.fits q hq).1 _)⟩
      constructor
      · rintro ⟨_, _, ⟨⟩, hwithin, hbyte⟩ _ ⟨⟩
        exact .inr ⟨hwithin, fun hhas => (hbyte hhas).symm.trans (hzero hhas)⟩
      · intro hunshared
        obtain ⟨hwithin, hbyte⟩ := (hunshared q rfl).resolve_left hsame
        exact ⟨_, _, rfl, hwithin, fun hhas => (hzero hhas).trans (hbyte hhas).symm⟩

/-- Code and data of eight bytes each, all of them one in the file. -/
def codeAndData (place : ℕ) : Elf where
  ident := 0x7f
  type := 3
  phdrs := [⟨true, ⟨true, false, true⟩, 0, 0, 8, 8⟩,
    ⟨true, ⟨true, true, false⟩, place, place, 8, 8⟩]
  header := fun _ => 1

theorem codeAndData_valid {place : ℕ} (hge : 8 ≤ place) (hle : place ≤ 8192) :
    (codeAndData place).Valid := by
  constructor
  · simp only [codeAndData, forall_mem_cons]
    exact ⟨by decide, ⟨le_rfl, by omega⟩, by simp⟩
  · simp only [codeAndData, forall_mem_cons, ElfPhdr.Has, ElfPhdr.start]
    grind

theorem vmExecElf_twoPages : ∃ mem,
    vmExecElf (fun _ _ => true) (codeAndData 4096) (fun _ => none) = .ok mem ∧
      ((codeAndData 4096).Loaded mem ↔ (codeAndData 4096).Unshared) :=
  ⟨_, rfl, vmExecElf_loaded_iff (fun _ _ => true) _ (fun _ => none) _
    (codeAndData_valid (by decide) (by decide)) rfl⟩

/-- Data on the page of the code: the code is gone. -/
theorem not_vmExecElf_loaded : ¬∀ mapped elf mem mem', elf.Valid →
    vmExecElf mapped elf mem = .ok mem' → elf.Loaded mem' := by
  intro hloaded
  obtain ⟨byte, rights, hmem, -, hbyte⟩ := hloaded (fun _ _ => true) (codeAndData 16)
    (fun _ => none) _ (codeAndData_valid (by decide) (by decide)) rfl _ mem_cons_self
    vmUserStart (by decide)
  have hzero : (0, ⟨true, true, false⟩) = (byte, rights) := Option.some.inj hmem
  have hone := hbyte ⟨rfl, by decide⟩
  cases hzero
  exact absurd hone (by decide)

end Soda.Storpu.Vm
