import Soda.Storpu.HeapScan

/-!
# Tuples in an output buffer

Scans hand tuples to the host in a buffer: each tuple is its length in two bytes
and then its bytes, one tuple right behind the other.
-/

namespace Soda.Storpu

open List HeapTuple

def writeAt (buf : List UInt8) (off : ℕ) (src : List UInt8) : List UInt8 :=
  buf.take off ++ src ++ buf.drop (off + src.length)

theorem length_writeAt {buf src : List UInt8} {off : ℕ} (hfits : off + src.length ≤ buf.length) :
    (writeAt buf off src).length = buf.length := by
  simp only [writeAt, length_append, length_take, length_drop]
  omega

theorem take_writeAt {buf : List UInt8} {off : ℕ} (src : List UInt8) (hoff : off ≤ buf.length) :
    (writeAt buf off src).take (off + src.length) = buf.take off ++ src := by
  have hlength : (buf.take off ++ src).length = off + src.length := by
    rw [length_append, length_take, min_eq_left hoff]
  rw [writeAt, ← hlength, take_left]

def le16 (value : ℕ) : List UInt8 := [UInt8.ofNat value, UInt8.ofNat (value / 256)]

def memory (data : List UInt8) (count : ℕ) : List UInt8 :=
  (List.range count).map fun index => data.getD index 0

namespace HeapTuple

def bytes (tuple : HeapTuple) : List UInt8 := memory (tuple.tData.getD []) tuple.tLen

def record (tuple : HeapTuple) : List UInt8 := le16 tuple.tLen ++ tuple.bytes

def put (tuple : HeapTuple) (buf : List UInt8) (count : ℕ) : List UInt8 :=
  writeAt (writeAt buf count (le16 tuple.tLen)) (count + 2) tuple.bytes

variable {tuple : HeapTuple} {buf : List UInt8} {count : ℕ}

@[simp] theorem length_bytes : tuple.bytes.length = tuple.tLen := by
  rw [bytes, memory, length_map, length_range]

@[simp] theorem length_record : tuple.record.length = 2 + tuple.tLen := by
  rw [record, length_append, length_bytes]
  rfl

theorem length_put (hfits : count + 2 + tuple.tLen ≤ buf.length) :
    (tuple.put buf count).length = buf.length := by
  have hinitial : (writeAt buf count (le16 tuple.tLen)).length = buf.length :=
    length_writeAt (by change count + 2 ≤ buf.length; omega)
  rw [put, length_writeAt, hinitial]
  rw [hinitial, length_bytes]
  exact hfits

theorem take_put (hfits : count + 2 + tuple.tLen ≤ buf.length) :
    (tuple.put buf count).take (count + 2 + tuple.tLen) = buf.take count ++ tuple.record := by
  have hinitial : (writeAt buf count (le16 tuple.tLen)).length = buf.length :=
    length_writeAt (by change count + 2 ≤ buf.length; omega)
  have hbytes := take_writeAt tuple.bytes
    (show count + 2 ≤ (writeAt buf count (le16 tuple.tLen)).length by omega)
  rw [length_bytes] at hbytes
  have hlength := take_writeAt (le16 tuple.tLen) (show count ≤ buf.length by omega)
  rw [put, hbytes, record, ← append_assoc, ← hlength]
  rfl

end HeapTuple

def records (tuples : List HeapTuple) : List UInt8 := tuples.flatMap record

@[simp] theorem records_nil : records [] = [] := rfl

@[simp] theorem records_cons (tuple : HeapTuple) (tuples : List HeapTuple) :
    records (tuple :: tuples) = tuple.record ++ records tuples := rfl

theorem records_eq_nil {tuples : List HeapTuple} (hnil : records tuples = []) : tuples = [] := by
  cases tuples with
  | nil => rfl
  | cons htup tuples => exact absurd hnil (cons_ne_nil _ _)

theorem records_append (left right : List HeapTuple) :
    records (left ++ right) = records left ++ records right :=
  flatMap_append

/-- A buffer has its size, and its first bytes are known. -/
structure Holds (bufSize : ℕ) (buf out : List UInt8) : Prop where
  size : buf.length = bufSize
  bytes : buf.take out.length = out

namespace Holds

variable {bufSize : ℕ} {buf out : List UInt8}

theorem length_le (hholds : Holds bufSize buf out) : out.length ≤ bufSize := by
  rw [← hholds.bytes, length_take, hholds.size]
  exact min_le_right _ _

theorem put (hholds : Holds bufSize buf out) {htup : HeapTuple}
    (hfits : out.length + 2 + htup.tLen ≤ bufSize) :
    Holds bufSize (htup.put buf out.length) (out ++ htup.record) where
  size := (length_put (by rw [hholds.size]; exact hfits)).trans hholds.size
  bytes := by
    rw [length_append, length_record, ← add_assoc]
    rw [take_put (by rw [hholds.size]; exact hfits), hholds.bytes]

end Holds

def roundup (value align : ℕ) : ℕ :=
  if value % align = 0 then value else value + align - value % align

theorem le_roundup (value align : ℕ) (halign : 0 < align) : value ≤ roundup value align := by
  have hmod : value % align < align := Nat.mod_lt _ halign
  unfold roundup
  split <;> omega

end Soda.Storpu
