import Soda.Storpu.FileIo

/-!
# The scratchpad

`spu_read` and `spu_write` on the scratchpad descriptor copy between a buffer
and a window of device memory of 256 MiB (`map_scratchpad`, `main.c`).  Both
additions that find the window are made in 64 bits and wrap around.
-/

namespace Soda.Storpu

/-- `AXI_MM_LIMIT`, for the base address that the board gives. -/
def axiMmLimit (base : ℕ) : ℕ := base + 256 * 2 ^ 20

/-- `map_scratchpad` for a window from `base` to `limit`: the address and the
size that is left.  The caller without a size uses the address only. -/
def mapScratchpad (base limit offset size : ℕ) : Option (ℕ × ℕ) :=
  let addr := (base + offset) % 2 ^ 64
  if limit ≤ addr then none
  else some (addr, if limit < (addr + size) % 2 ^ 64 then limit - addr else size)

/-- `memcpy` of bytes whose places are given one by one. -/
def memcpy (dst src : ℕ → Option ℕ) (count : ℕ) (mem : Memory) : Memory :=
  fun place =>
    match (List.range count).find? fun index => dst index = some place with
    | some index => ((src index).map mem).getD (mem place)
    | none => mem place

/-- A byte of the window; kernel addresses are physical addresses. -/
def windowByte (addr index : ℕ) : Option ℕ := some ((addr + index) % 2 ^ 64)

/-- The scratchpad branch of `spu_read` and `spu_write`. -/
def spuScratchpad (frames : ℕ → Option ℕ) (base limit : ℕ) (write : Bool)
    (buf count offset : ℕ) (mem : Memory) : Except Errno ℕ × Memory :=
  match mapScratchpad base limit offset count with
  | some (addr, size) =>
    (.ok size, if write then
      memcpy (windowByte addr) (bufferByte frames buf) size mem
      else memcpy (bufferByte frames buf) (windowByte addr) size mem)
  | none => (.error .efault, mem)

/-- The device memory that a copy of `count` bytes at `offset` reads or
writes. -/
def scratchpadTouched (base limit count offset : ℕ) : Set ℕ :=
  { place | ∃ addr size index,
    mapScratchpad base limit offset count = some (addr, size) ∧ index < size ∧
      place = (addr + index) % 2 ^ 64 }

variable {base limit count offset : ℕ}

theorem mapScratchpad_some {addr size : ℕ}
    (hmap : mapScratchpad base limit offset count = some (addr, size)) :
    addr = (base + offset) % 2 ^ 64 ∧ addr < limit ∧
      size = if limit < (addr + count) % 2 ^ 64 then limit - addr else count := by
  simp only [mapScratchpad, Option.ite_none_left_eq_some, Option.some.injEq, Prod.mk.injEq] at hmap
  obtain ⟨hlt, haddr, hsize⟩ := hmap
  constructor
  · exact haddr.symm
  constructor
  · rw [← haddr]
    exact not_le.mp hlt
  · rw [← hsize, haddr]

/-- Neither addition wraps around, unless nothing is copied: the end of the copy
only counts where its start is inside. -/
def NoWrap (base limit count offset : ℕ) : Prop :=
  count = 0 ∨ base + offset < 2 ^ 64 ∧ (limit ≤ base + offset ∨ base + offset + count < 2 ^ 64)

theorem touched_inside (hlimit : limit < 2 ^ 64)
    (hwrap : NoWrap base limit count offset) {place : ℕ}
    (hplace : place ∈ scratchpadTouched base limit count offset) :
    base ≤ place ∧ place < limit := by
  obtain ⟨addr, size, index, hmap, hindex, rfl⟩ := hplace
  obtain ⟨haddr, hlt, hsize⟩ := mapScratchpad_some hmap
  cases hwrap with
  | inl hzero =>
    have hnone : size = 0 := by
      rw [hsize, hzero, if_neg]
      omega
    omega
  | inr hwrap =>
    obtain ⟨hstart, hend⟩ := hwrap
    rw [Nat.mod_eq_of_lt hstart] at haddr
    split at hsize
    · omega
    · omega

/-- A wrapped start is below the window, a wrapped end is behind it. -/
theorem noWrap_of_inside (hbase : base ≤ limit) (hlimit : limit < 2 ^ 64)
    (hcount : count < 2 ^ 64) (hoffset : offset < 2 ^ 64)
    (hinside : ∀ place ∈ scratchpadTouched base limit count offset,
      base ≤ place ∧ place < limit) : NoWrap base limit count offset := by
  by_contra hwrap
  rw [NoWrap, not_or, not_and_or] at hwrap
  obtain ⟨hpos, hwrap⟩ := hwrap
  by_cases hstart : base + offset < 2 ^ 64
  · have hend := hwrap.resolve_left (not_not.mpr hstart)
    rw [not_or, not_le, not_lt] at hend
    have haddr : (base + offset) % 2 ^ 64 = base + offset := Nat.mod_eq_of_lt hstart
    have hmap : mapScratchpad base limit offset count = some (base + offset, count) := by
      simp only [mapScratchpad, haddr, if_neg (not_le.mpr hend.1)]
      rw [if_neg (by omega)]
    have hbehind := hinside ((base + offset + (limit - (base + offset))) % 2 ^ 64)
      ⟨_, _, _, hmap, by omega, rfl⟩
    omega
  · have haddr : (base + offset) % 2 ^ 64 = base + offset - 2 ^ 64 := by omega
    have hmap : mapScratchpad base limit offset count = some (base + offset - 2 ^ 64,
          if limit < (base + offset - 2 ^ 64 + count) % 2 ^ 64 then
            limit - (base + offset - 2 ^ 64) else count) := by
      simp only [mapScratchpad, haddr]
      rw [if_neg (by omega)]
    have hfirst := hinside ((base + offset - 2 ^ 64 + 0) % 2 ^ 64)
      ⟨_, _, 0, hmap, by split <;> omega, rfl⟩
    omega

/-- Scratchpad accesses stay inside the window exactly where no addition wraps
around. -/
theorem scratchpad_confined_iff (base count offset : ℕ)
    (hlimit : axiMmLimit base < 2 ^ 64) (hcount : count < 2 ^ 64) (hoffset : offset < 2 ^ 64) :
    (∀ place ∈ scratchpadTouched base (axiMmLimit base) count offset,
      base ≤ place ∧ place < axiMmLimit base) ↔ NoWrap base (axiMmLimit base) count offset := by
  have hbase : base ≤ axiMmLimit base := Nat.le_add_right _ _
  constructor
  · exact noWrap_of_inside hbase hlimit hcount hoffset
  · intro hwrap place hplace
    exact touched_inside hlimit hwrap hplace

/-- Eight bytes at the end of a window that starts at 64 GiB. -/
theorem scratchpad_confined_end :
    NoWrap (2 ^ 36) (axiMmLimit (2 ^ 36)) 8 (2 ^ 28 - 8) ∧
      ((∀ place ∈ scratchpadTouched (2 ^ 36) (axiMmLimit (2 ^ 36)) 8
          (2 ^ 28 - 8), 2 ^ 36 ≤ place ∧ place < axiMmLimit (2 ^ 36)) ↔
        NoWrap (2 ^ 36) (axiMmLimit (2 ^ 36)) 8 (2 ^ 28 - 8)) :=
  ⟨.inr ⟨by norm_num, .inr (by norm_num)⟩,
    scratchpad_confined_iff (2 ^ 36) 8 (2 ^ 28 - 8) (by norm_num [axiMmLimit])
      (by norm_num) (by norm_num)⟩

/-- An offset just below zero reaches the byte before the window. -/
theorem not_scratchpad_confined :
    mapScratchpad (2 ^ 36) (axiMmLimit (2 ^ 36)) (2 ^ 64 - 1) 1 = some (2 ^ 36 - 1, 1) ∧
      2 ^ 36 - 1 ∈ scratchpadTouched (2 ^ 36) (axiMmLimit (2 ^ 36)) 1 (2 ^ 64 - 1) := by
  have hmap : mapScratchpad (2 ^ 36) (axiMmLimit (2 ^ 36)) (2 ^ 64 - 1) 1 =
      some (2 ^ 36 - 1, 1) := by
    norm_num [mapScratchpad, axiMmLimit]
  exact ⟨hmap, 2 ^ 36 - 1, 1, 0, hmap, by norm_num, by norm_num⟩

end Soda.Storpu
