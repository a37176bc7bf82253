import Soda.HostIf.DmaRead

/-!
# Copies by the DMA engine

The copies of `zdma.c` collect descriptors and start the engine when `ZDMA_BD_MAX`
of them wait and at the end; those of `iov_iter.c` move each piece at once.
-/

namespace Soda

/-- The arguments of a `memcpy`, or an `XZDma_Transfer`. -/
structure ZdmaTransfer where
  src : ℕ
  dst : ℕ
  size : ℕ

def ZdmaTransfer.copy (mem : ℕ → UInt8) (data : ZdmaTransfer) : ℕ → UInt8 := fun addr =>
  if data.dst ≤ addr ∧ addr < data.dst + data.size then mem (data.src + (addr - data.dst))
  else mem addr

/-- Where an iterator stands, and the bytes that are left to copy. -/
structure IovIter where
  iov : List Iovec
  iovOffset : ℕ
  left : ℕ

/-- The loop of all four functions.  A round starts with `enter`, which can fail, and
`move` gets the pieces; a null base is skipped.  A piece that does not reach the end
of its segment is the last one. -/
def iterLoop {S : Type} (toIter : Bool) (enter : S → Option S) (move : S → ZdmaTransfer → S) :
    List Iovec → (offset buf left : ℕ) → S → Option S × IovIter
  | [], offset, _, left, s => (some s, ⟨[], offset, left⟩)
  | seg :: rest, offset, buf, left, s =>
    if left = 0 then (some s, ⟨seg :: rest, offset, left⟩)
    else match enter s with
      | none => (none, ⟨seg :: rest, offset, left⟩)
      | some s =>
        let addr := seg.base + offset
        let chunk := min (seg.len - offset) left
        let s := if seg.base = 0 ∨ chunk = 0 then s
          else move s (if toIter then ⟨buf, addr, chunk⟩ else ⟨addr, buf, chunk⟩)
        if offset + chunk = seg.len then
          iterLoop toIter enter move rest 0 (buf + chunk) (left - chunk) s
        else (some s, ⟨seg :: rest, offset + chunk, left - chunk⟩)

/-- `iov_iter_copy_to` and `iov_iter_copy_from`. -/
def iovIterCopy (toIter : Bool) (iov : List Iovec) (offset buf bytes : ℕ) (mem : ℕ → UInt8) :
    Option (ℕ → UInt8) × IovIter :=
  iterLoop toIter some ZdmaTransfer.copy iov offset buf bytes mem

/-- Memory, the descriptors that wait and the number of starts so far. -/
structure ZdmaState where
  mem : ℕ → UInt8
  descs : List ZdmaTransfer
  starts : ℕ

namespace ZdmaState

variable (errors : ℕ → Bool) (s : ZdmaState)

/-- Memory once the descriptors have run. -/
def settled : ℕ → UInt8 := s.descs.foldl ZdmaTransfer.copy s.mem

def push (data : ZdmaTransfer) : ZdmaState := { s with descs := s.descs ++ [data] }

/-- `XZDma_Start` and the wait; `errors` are the starts that set `chan->error`. -/
def start : Option ZdmaState :=
  if errors s.starts then none else some ⟨s.settled, [], s.starts + 1⟩

/-- `ZDMA_BD_MAX` descriptors are started before the next one. -/
def enter : Option ZdmaState := if s.descs.length = 32 then s.start errors else some s

end ZdmaState

open ZdmaState

/-- `zdma_iter_copy_to` and `zdma_iter_copy_from`, without memory for `-EIO`. -/
def zdmaIterCopy (errors : ℕ → Bool) (toIter syncCache : Bool) (iov : List Iovec)
    (offset buf bytes : ℕ) (mem : ℕ → UInt8) : Option (ℕ → UInt8) × IovIter :=
  if bytes < 4096 ∧ syncCache = false then iovIterCopy toIter iov offset buf bytes mem
  else
    let result := iterLoop toIter (enter errors) push iov offset buf bytes ⟨mem, [], 0⟩
    let last := result.1.bind fun s => if 0 < s.descs.length then s.start errors else some s
    (last.map ZdmaState.mem, result.2)

variable (errors : ℕ → Bool) (toIter : Bool) (iov : List Iovec) (offset buf : ℕ)

theorem start_spec (s : ZdmaState) : s.start errors = none ∧ (∃ k, errors k = true) ∨
    ∃ next, s.start errors = some next ∧ next.settled = s.settled ∧ next.mem = s.settled := by
  by_cases herror : errors s.starts = true
  · exact .inl ⟨if_pos herror, s.starts, herror⟩
  · exact .inr ⟨_, if_neg herror, rfl, rfl⟩

theorem enter_spec (s : ZdmaState) : s.enter errors = none ∧ (∃ k, errors k = true) ∨
    ∃ next, s.enter errors = some next ∧ next.settled = s.settled := by
  rw [enter]
  split
  · rcases start_spec errors s with hnone | ⟨next, hnext, hsettled, -⟩
    · exact .inl hnone
    · exact .inr ⟨next, hnext, hsettled⟩
  · exact .inr ⟨s, rfl, rfl⟩

theorem settled_push (s : ZdmaState) (data : ZdmaTransfer) :
    (s.push data).settled = ZdmaTransfer.copy s.settled data := List.foldl_append

/-- The two loops take the same way, up to a start that fails. -/
theorem iterLoop_settled (left : ℕ) (s : ZdmaState) :
    let result := iterLoop toIter (enter errors) push iov offset buf left s
    result.1 = none ∧ (∃ k, errors k = true) ∨ ∃ last, result.1 = some last ∧
      iterLoop toIter some ZdmaTransfer.copy iov offset buf left s.settled =
        (some last.settled, result.2) := by
  induction iov generalizing offset buf left s with
  | nil => exact .inr ⟨s, rfl, rfl⟩
  | cons seg rest ih =>
    simp only [iterLoop]
    by_cases hleft : left = 0
    · rw [if_pos hleft, if_pos hleft]
      exact .inr ⟨s, rfl, rfl⟩
    rw [if_neg hleft, if_neg hleft]
    rcases enter_spec errors s with ⟨hnone, herror⟩ | ⟨next, hnext, hsettled⟩
    · rw [hnone]
      exact .inl ⟨rfl, herror⟩
    simp only [hnext, ← hsettled, ← settled_push, ← apply_ite settled]
    split
    · exact ih 0 _ _ _
    · exact .inr ⟨_, rfl, rfl⟩

/-- Whatever the segments, a copy by the engine moves the same bytes as the plain copy
and leaves the iterator at the same place, unless a start fails and it says so. -/
theorem zdmaIterCopy_agrees (syncCache : Bool) (bytes : ℕ) (mem : ℕ → UInt8) :
    let result := zdmaIterCopy errors toIter syncCache iov offset buf bytes mem
    result = iovIterCopy toIter iov offset buf bytes mem ∨
      result.1 = none ∧ ∃ k, errors k = true := by
  simp only [zdmaIterCopy]
  split
  · exact .inl rfl
  rcases iterLoop_settled errors toIter iov offset buf bytes ⟨mem, [], 0⟩ with
    ⟨hnone, herror⟩ | ⟨last, hlast, hplain⟩
  · rw [hnone]
    exact .inr ⟨rfl, herror⟩
  have hcopy : iovIterCopy toIter iov offset buf bytes mem = _ := hplain
  rw [hlast, hcopy, Option.bind_some]
  split
  · rcases start_spec errors last with ⟨hnone, herror⟩ | ⟨next, hnext, -, hmem⟩
    · rw [hnone]
      exact .inr ⟨rfl, herror⟩
    · rw [hnext, ← hmem]
      exact .inl rfl
  case isFalse hnone =>
    have hdescs : last.descs = [] := by simpa using hnone
    have hmem : last.settled = last.mem := by
      rw [settled, hdescs]
      rfl
    rw [hmem]
    exact .inl rfl

end Soda
