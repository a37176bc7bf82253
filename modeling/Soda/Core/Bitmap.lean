import Mathlib

/-!
# Word bitmaps

The firmware keeps sets of small numbers in arrays of 64-bit chunks and
touches them only through `GET_BIT`, `SET_BIT` and `UNSET_BIT`.  A bitmap is a
list of chunks here.  Setting or clearing a bit beyond the last chunk has no
effect in the model; the lemmas state the bound under which it has the
intended one.
-/

namespace Soda

open List

abbrev Chunk := BitVec 64
abbrev Bitmap := List Chunk

namespace Bitmap

/-- `BITCHUNKS(bits)`: the number of chunks that hold `bits` bits. -/
def bitchunks (bits : ℕ) : ℕ := (bits + 63) / 64

def zero (bits : ℕ) : Bitmap := replicate (bitchunks bits) 0

variable (map : Bitmap)

def getBit (bit : ℕ) : Bool := (map.getD (bit / 64) 0).getLsbD (bit % 64)

def setBit (bit : ℕ) : Bitmap := map.modify (bit / 64) (· ||| BitVec.twoPow 64 (bit % 64))

def unsetBit (bit : ℕ) : Bitmap := map.modify (bit / 64) (· &&& ~~~ BitVec.twoPow 64 (bit % 64))

theorem lt_bitchunks {bits bit : ℕ} (hbit : bit < bits) : bit / 64 < bitchunks bits := by
  unfold bitchunks
  omega

@[simp]
theorem length_zero (bits : ℕ) : (zero bits).length = bitchunks bits := by
  simp [zero]

@[simp]
theorem length_setBit (bit : ℕ) : (setBit map bit).length = map.length := by
  simp [setBit]

@[simp]
theorem length_unsetBit (bit : ℕ) : (unsetBit map bit).length = map.length := by
  simp [unsetBit]

@[simp]
theorem getBit_zero (bits bit : ℕ) : getBit (zero bits) bit = false := by
  unfold getBit zero
  rw [getD_eq_getElem?_getD, getElem?_replicate]
  split <;> simp

/-- Two bit positions agree exactly when their chunk and offset do. -/
private theorem eq_iff_chunk_offset (left right : ℕ) :
    left = right ↔ left / 64 = right / 64 ∧ left % 64 = right % 64 := by
  omega

/-- One chunk changes. -/
theorem getBit_modify {bit : ℕ} (hbit : bit / 64 < map.length)
    (change : BitVec 64 → BitVec 64) (other : ℕ) :
    getBit (map.modify (bit / 64) change) other =
      if bit / 64 = other / 64 then (change (map.getD (other / 64) 0)).getLsbD (other % 64)
      else getBit map other := by
  unfold getBit
  rw [getD_eq_getElem?_getD, getD_eq_getElem?_getD, getElem?_modify]
  split
  next hchunk =>
    rw [hchunk] at hbit
    simp [hbit]
  next => simp

theorem getBit_setBit (bit other : ℕ) (hbit : bit / 64 < map.length) :
    getBit (setBit map bit) other = (decide (bit = other) || getBit map other) := by
  have hlt : bit % 64 < 64 := Nat.mod_lt _ (by norm_num)
  rw [setBit, getBit_modify map hbit]
  split
  next hchunk => simp [eq_iff_chunk_offset bit, hchunk, hlt, getBit, Bool.or_comm]
  next hchunk => simp [eq_iff_chunk_offset bit, hchunk]

theorem getBit_unsetBit (bit other : ℕ) (hbit : bit / 64 < map.length) :
    getBit (unsetBit map bit) other = (!decide (bit = other) && getBit map other) := by
  have hother : other % 64 < 64 := Nat.mod_lt _ (by norm_num)
  rw [unsetBit, getBit_modify map hbit]
  split
  next hchunk => simp [eq_iff_chunk_offset bit, hchunk, hother, getBit, Bool.and_comm, eq_comm]
  next hchunk => simp [eq_iff_chunk_offset bit, hchunk]

def setBits (bits : List ℕ) : Bitmap := bits.foldl setBit map

@[simp]
theorem length_setBits (bits : List ℕ) : (setBits map bits).length = map.length := by
  induction bits generalizing map with
  | nil => rfl
  | cons bit bits ih => simpa [setBits] using ih (setBit map bit)

theorem getBit_setBits (bits : List ℕ) (other : ℕ) (hbits : ∀ bit ∈ bits, bit / 64 < map.length) :
    getBit (setBits map bits) other = (decide (other ∈ bits) || getBit map other) := by
  induction bits generalizing map with
  | nil => simp [setBits]
  | cons bit bits ih =>
    have hrest : ∀ rest ∈ bits, rest / 64 < (setBit map bit).length := by
      intro rest hmem
      simpa using hbits rest (.tail _ hmem)
    have hstep : setBits map (bit :: bits) = setBits (setBit map bit) bits := rfl
    rw [hstep, ih (setBit map bit) hrest, getBit_setBit map bit other (hbits bit mem_cons_self)]
    by_cases hhead : other = bit
    · simp [hhead]
    · simp [hhead, Ne.symm hhead]

/-- `find_next_zero_bit(map, size, offset)`: the first clear bit at or after
`offset`, or `size` if there is none. -/
def findNextZeroBit (size offset : ℕ) : ℕ :=
  ((range size).find? fun bit => decide (offset ≤ bit) && !getBit map bit).getD size

/-- `find_first_bit(map, size)`: the first set bit, or `size`. -/
def findFirstBit (size : ℕ) : ℕ := ((range size).find? fun bit => getBit map bit).getD size

end Bitmap

end Soda
