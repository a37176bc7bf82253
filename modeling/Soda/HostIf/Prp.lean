import Soda.Ftl.State

/-!
# Physical region pages

The host driver describes a buffer by two PRP entries, the second of which may
point to a list of further entries (`setup_buffer` in `nvme_driver.cpp`).  The
device walks them in `transfer_prp_data` (`nvme.c`).  Both use pages of 4096
bytes.  Addresses and lengths have 64 bits.
-/

namespace Soda

open Prog

/-- `NVME_PAGE_SIZE` on the device and `ctrl_page_size` on the host, whose
`page_shift` is 12. -/
def nvmePageSize : ℕ := 4096

/-- `ctrl_page_size >> 3`. -/
def prpsPerPage : ℕ := 512

/-! ### The host -/

/-- Host memory by the address of a word, the words written, and the number of
list pages taken from `allocate_pages`. -/
structure HostMem where
  word : ℕ → ℕ
  written : List ℕ
  allocated : ℕ

def HostMem.write (host : HostMem) (addr value : ℕ) : HostMem :=
  { host with
    word := Function.update host.word addr value
    written := addr :: host.written }

/-- When a list page is full, its last entry moves to a new page and a pointer
to that page takes its place; `page` are the results of `allocate_pages`. -/
def chainPrpList (page : ℕ → ℕ) (i prpList : ℕ) (host : HostMem) : ℕ × HostMem :=
  if i = prpsPerPage then
    let old := (prpList + (i - 1) * 8) % 2 ^ 64
    let next := page host.allocated
    (next, ({ host with allocated := host.allocated + 1 }.write next
      (host.word old)).write old next)
  else (prpList, host)

/-- The loop of `setup_buffer`.  The index keeps its value when a new list page
is chained. -/
def prpListLoop (page : ℕ → ℕ) :
    (rounds i prpList buf buflen : ℕ) → HostMem → HostMem
  | 0, _, _, _, _, host => host
  | rounds + 1, i, prpList, buf, buflen, host =>
    let chained := chainPrpList page i prpList host
    let host := chained.2.write ((chained.1 + i * 8) % 2 ^ 64) buf
    if buflen ≤ nvmePageSize then host
    else prpListLoop page rounds (i + 1) chained.1
      ((buf + nvmePageSize) % 2 ^ 64) (buflen - nvmePageSize) host

/-- `dptr` of the command and memory after `setup_buffer`. -/
structure PrpSetup where
  prp1 : ℕ
  prp2 : ℕ
  host : HostMem

/-- `setup_buffer`.  A second entry that is not needed keeps its value. -/
def setupBuffer (page : ℕ → ℕ) (prp2 : ℕ) (word : ℕ → ℕ) (buf buflen : ℕ) : PrpSetup :=
  let offset := buf % nvmePageSize
  let first := nvmePageSize - offset
  if (offset + buflen) % 2 ^ 64 ≤ nvmePageSize * 2 then
    ⟨buf, if first < buflen then (buf + first) % 2 ^ 64 else prp2, ⟨word, [], 0⟩⟩
  else
    ⟨buf, page 0, prpListLoop page (buflen - first) 0 (page 0)
      ((buf + first) % 2 ^ 64) (buflen - first) ⟨word, [], 1⟩⟩

/-! ### The device -/

/-- `visited` are the host addresses and sizes of the data transfers so far,
`reads` the addresses and lengths of the lists that were read. -/
structure PrpState where
  tick : ℕ
  visited : List (ℕ × ℕ)
  reads : List (ℕ × ℕ)

abbrev PrpM := Prog PrpState Empty Empty Fault

section Device

variable (faults : ℕ → Status) (word : ℕ → ℕ)

def flushDma (addr size : ℕ) : PrpM Status := do
  let s ← get
  modify fun s =>
    { s with
      tick := s.tick + 1
      visited := if faults s.tick = none then s.visited ++ [(addr, size)]
        else s.visited }
  pure (faults s.tick)

/-- `read_prp_list`: the first entries of the buffer are replaced. -/
def readPrpList (addr nprps : ℕ) (prpList : ℕ → ℕ) : PrpM (Status × (ℕ → ℕ)) := do
  let s ← get
  modify fun s =>
    { s with tick := s.tick + 1, reads := s.reads ++ [(addr, nprps)] }
  pure (faults s.tick, fun i =>
    if i < nprps then word ((addr + i * 8) % 2 ^ 64) else prpList i)

/-- `roundup(count, NVME_PAGE_SIZE)`. -/
def roundupPage (count : ℕ) : ℕ :=
  if count % nvmePageSize = 0 then count
  else (count + nvmePageSize - count % nvmePageSize) % 2 ^ 64

/-- `nprps`, an `unsigned int`, for a list with room for `space` entries. -/
def prpListLength (count space : ℕ) : ℕ :=
  min (((roundupPage count / nvmePageSize + 1) % 2 ^ 32 + 3) % 2 ^ 32 / 4 * 4) space

/-- The end of a list page: go on with the list that its last entry points to
when more than one page is missing. -/
def nextPrpList (prpList : ℕ → ℕ) (i nprps count : ℕ) : PrpM (Status × (ℕ → ℕ) × ℕ × ℕ) :=
  if i = (nprps + (2 ^ 32 - 1)) % 2 ^ 32 ∧ nvmePageSize < count then do
    assert .assertion (prpList i % nvmePageSize = 0)
    let nprps := prpListLength count prpsPerPage
    let (status, prpList) ← readPrpList faults word (prpList i) nprps prpList
    pure (status, prpList, 0, nprps)
  else pure (none, prpList, i, nprps)

/-- A page that follows the bytes collected so far is added to them, any other
page starts a new transfer. -/
def extendDma (dmaAddr dmaSize prp chunk : ℕ) : PrpM (Status × ℕ × ℕ) :=
  if (dmaAddr + dmaSize) % 2 ^ 64 = prp then
    pure (none, dmaAddr, dmaSize + chunk)
  else do
    let status ← flushDma faults dmaAddr dmaSize
    pure (status, prp, chunk)

/-- The loop of `transfer_prp_data`.  Every round takes at least one byte. -/
def prpLoop : (rounds : ℕ) → (ℕ → ℕ) → (i nprps dmaAddr dmaSize count : ℕ) → PrpM Status
  | 0, _, _, _, _, _, _ => pure none
  | rounds + 1, prpList, i, nprps, dmaAddr, dmaSize, count => do
      let (status, prpList, i, nprps) ← nextPrpList faults word prpList i nprps count
      if status ≠ none then pure status
      else do
        let chunk := min (nvmePageSize - prpList i % nvmePageSize) count
        let (status, dmaAddr, dmaSize) ← extendDma faults dmaAddr dmaSize (prpList i) chunk
        if status ≠ none then pure status
        else if count - chunk = 0 then flushDma faults dmaAddr dmaSize
        else prpLoop rounds prpList (i + 1) nprps dmaAddr dmaSize (count - chunk)

/-- `transfer_prp_data`; `prpList` is what `prp_list_buf` holds from earlier
transfers. -/
def transferPrpData (prpList : ℕ → ℕ) (prp1 prp2 count maxSize : ℕ) : PrpM Status := do
  assert .assertion (count ≤ maxSize)
  if count = 0 then pure none
  else
    let chunk := min (nvmePageSize - prp1 % nvmePageSize) count
    if count - chunk = 0 then flushDma faults prp1 chunk
    else if maxSize - chunk ≤ nvmePageSize then do
      let (status, dmaAddr, dmaSize) ← extendDma faults prp1 chunk prp2 (count - chunk)
      if status ≠ none then pure status
      else flushDma faults dmaAddr dmaSize
    else do
      let nprps := prpListLength (count - chunk) ((nvmePageSize - prp2 % nvmePageSize) / 8)
      let (status, prpList) ← readPrpList faults word prp2 nprps prpList
      if status ≠ none then pure status
      else
        prpLoop faults word (count - chunk) prpList 0 nprps prp1 chunk (count - chunk)

end Device

def dmaBytes (dma : ℕ × ℕ) : List ℕ := (List.range dma.2).map fun k => (dma.1 + k) % 2 ^ 64

abbrev prpRules (tolerated : Fault → Prop) :
    Rules PrpState Empty Empty Fault :=
  alone (fun wait _ => wait.elim) tolerated False

end Soda
