import Mathlib

/-!
# Page faults

`region_handle_pf` on one page of a region, with the handlers of anonymous,
contiguous and file mappings.  `none` is a panic or a failed assertion.
-/

namespace Soda.Storpu.Vm

/-- `anon_map_ops`, `anon_contig_map_ops` and `file_map_ops`. -/
inductive RegionOps
  | anonMap
  | anonContigMap
  | fileMap
  deriving DecidableEq

inductive Errno
  | enomem
  | efault
  | enoexec
  | einval

/-- The five protections that `protection_map` has. -/
inductive PgProt
  | none
  | readonly
  | shared
  | readonlyExec
  | sharedExec

structure VmRegion where
  rops : RegionOps
  read : Bool
  write : Bool
  exec : Bool
  mapShared : Bool
  io : Bool

/-- `physAddr` is `none` for `PHYS_NONE`. -/
structure Page where
  physAddr : Option ℕ
  refcount : ℕ
  dirty : Bool

/-- What the allocators and the page cache give: `cached` is the page that
`file_map_page_fault` finds in the cache or reads into it, or its error, and
`tables` says whether the tables of the page are there or can be had. -/
structure FaultEnv where
  newPage : Bool
  newPhysRegion : Bool
  allocPages : Option ℕ
  cached : Except Errno Page
  tables : Bool

/-- The slot of the page in `phys_regions`, its entry in the page table, with
the caching off for `RF_IO`, and the total of the context. -/
structure FaultState where
  region : VmRegion
  slot : Option Page
  pte : Option (ℕ × PgProt × Bool)
  vmTotal : ℕ

inductive Access
  | read
  | write
  | exec
  deriving DecidableEq

variable (env : FaultEnv) (access : Access) (vr : VmRegion) (page : Page)

def ropWritable : Bool :=
  match vr.rops with
  | .anonMap | .anonContigMap => page.physAddr.isSome && page.refcount == 1
  | .fileMap => vr.mapShared && vr.write && page.dirty

def physRegionWritable : Bool := vr.write && ropWritable vr page

def protectionMap (read write exec : Bool) : PgProt :=
  match exec, write, read with
  | false, false, false => .none
  | false, false, true => .readonly
  | false, true, _ => .shared
  | true, false, _ => .readonlyExec
  | true, true, _ => .sharedExec

def physRegionPageProt : PgProt × Bool :=
  (protectionMap vr.read (physRegionWritable vr page) vr.exec, vr.io)

/-- A new page is allocated before the handler looks whether it needs one. -/
def anonPageFault : Except Errno Page :=
  match env.allocPages with
  | none => .error .enomem
  | some newPaddr =>
    match page.physAddr with
    | none => .ok { page with physAddr := some newPaddr }
    | some _ => if page.refcount < 2 ∨ access ≠ .write then .ok page else .error .einval

/-- The page of the cache takes the place of the one that has no frame. -/
def fileMapPageFault : Except Errno Page :=
  match page.physAddr with
  | none => do
    let cached ← env.cached
    return { cached with
      refcount := cached.refcount + 1
      dirty := cached.dirty || (access == .write && vr.mapShared) }
  | some _ =>
    if access = .write ∧ vr.mapShared then .ok { page with dirty := true } else .error .einval

def ropPageFault : Option (Except Errno Page) :=
  match vr.rops with
  | .anonMap => some (anonPageFault env access page)
  | .anonContigMap => none
  | .fileMap => some (fileMapPageFault env access vr page)

/-- `region_write_map_page`; a page that is mapped has its tables. -/
def regionWriteMapPage (s : FaultState) (page : Page) : Option (Except Errno Unit × FaultState) :=
  match page.physAddr with
  | none => none
  | some phys =>
    if page.refcount = 0 then none
    else if s.pte.isSome || env.tables then
      some (.ok (), { s with pte := some (phys, physRegionPageProt s.region page) })
    else some (.error .enomem, s)

/-- From where the slot is filled; a handler that fails has the page dropped. -/
def faultOn (s : FaultState) (page : Page) : Option (Except Errno Unit × FaultState) :=
  if access ≠ .write ∨ ropWritable s.region page = false ∨ page.physAddr = none then
    match ropPageFault env access s.region page with
    | none => none
    | some (.error errno) => some (.error errno, { s with
        slot := none
        vmTotal := s.vmTotal - 4096 })
    | some (.ok page) => regionWriteMapPage env { s with slot := some page } page
  else regionWriteMapPage env s page

def regionHandlePf (s : FaultState) : Option (Except Errno Unit × FaultState) :=
  if access = .write ∧ s.region.write = false then none
  else
    match s.slot with
    | some page => faultOn env access s page
    | none =>
      if env.newPage && env.newPhysRegion then
        faultOn env access { s with
          slot := some ⟨none, 1, false⟩
          vmTotal := s.vmTotal + 4096 } ⟨none, 1, false⟩
      else some (.error .enomem, s)

def PgProt.Allows : PgProt → Access → Prop
  | prot, .read => prot ≠ .none
  | prot, .write => prot = .shared ∨ prot = .sharedExec
  | prot, .exec => prot = .readonlyExec ∨ prot = .sharedExec

/-- The page is there, and it is mapped as its region and its state say, with
the right that the access needs. -/
structure FaultState.Present (s : FaultState) (page : Page) (phys : ℕ) : Prop where
  slot : s.slot = some page
  frame : page.physAddr = some phys
  linked : 0 < page.refcount
  mapped : s.pte = some (phys, physRegionPageProt s.region page)
  allowed : (physRegionPageProt s.region page).1.Allows access

variable {env access page} {s : FaultState} {phys : ℕ}

theorem protectionMap_write {read write exec : Bool}
    (hallows : (protectionMap read write exec).Allows .write) : write = true := by
  revert hallows
  cases read <;> cases write <;> cases exec <;> simp [protectionMap, PgProt.Allows]

namespace FaultState.Present

variable (hpresent : s.Present access page phys)

include hpresent

theorem writeMap : regionWriteMapPage env s page = some (.ok (), s) := by
  have hmapped : s.pte.isSome = true := by
    rw [hpresent.mapped]
    rfl
  rw [regionWriteMapPage, hpresent.frame]
  dsimp only
  rw [if_neg hpresent.linked.ne', hmapped, Bool.true_or, if_pos rfl, ← hpresent.mapped]

/-- A mapping with the right to write is one of a page that is writable. -/
theorem writable (hwrite : access = .write) :
    s.region.write = true ∧ ropWritable s.region page = true := by
  have hallowed := hpresent.allowed
  rw [hwrite] at hallowed
  exact Bool.and_eq_true_iff.mp (protectionMap_write hallowed)

end FaultState.Present

/-- A fault on a page that is there changes nothing exactly if it is a write, or
the mapping is an anonymous one and a page can be allocated in vain. -/
theorem regionHandlePf_present_iff (env : FaultEnv) (access : Access) (s : FaultState) (page : Page)
    (phys : ℕ) (hpresent : s.Present access page phys) :
    regionHandlePf env access s = some (.ok (), s) ↔
      access = .write ∨ s.region.rops = .anonMap ∧ env.allocPages ≠ none := by
  rw [regionHandlePf, hpresent.slot]
  by_cases hwrite : access = .write
  · obtain ⟨hregion, hwritable⟩ := hpresent.writable hwrite
    simp [faultOn, hwrite, hregion, hwritable, hpresent.frame, hpresent.writeMap]
  · have hsame : { s with slot := some page } = s := by
      rw [← hpresent.slot]
    simp only [hwrite, false_and, if_false, false_or, faultOn, ne_eq, not_false_eq_true, true_or,
      if_true, ropPageFault]
    cases s.region.rops with
    | anonMap =>
      cases halloc : env.allocPages with
      | none => simp [anonPageFault, halloc]
      | some newPaddr =>
        simp [anonPageFault, halloc, hpresent.frame, hwrite, hsame, hpresent.writeMap]
    | anonContigMap => simp
    | fileMap => simp [fileMapPageFault, hpresent.frame, hwrite]

def filePage : FaultState where
  region := ⟨.fileMap, true, false, false, true, false⟩
  slot := some ⟨some 8192, 2, false⟩
  pte := some (8192, .readonly, false)
  vmTotal := 4096

theorem present_filePage : filePage.Present .read ⟨some 8192, 2, false⟩ 8192 :=
  ⟨rfl, rfl, two_pos, rfl, PgProt.noConfusion⟩

/-- The second of two reads that fault on one page of a file drops the page. -/
theorem not_regionHandlePf_filePage : ¬∀ (env : FaultEnv) (access : Access) (s : FaultState)
    (page : Page) (phys : ℕ), s.Present access page phys →
      regionHandlePf env access s = some (.ok (), s) := by
  intro hsame
  have hread := hsame ⟨true, true, some 4096, .error .efault, true⟩ .read filePage _ _
    present_filePage
  cases hread

/-- A page of an anonymous mapping and an allocator with a page left. -/
theorem regionHandlePf_anonPage :
    let s : FaultState := ⟨⟨.anonMap, true, true, false, false, false⟩, some ⟨some 8192, 1, false⟩,
      some (8192, .shared, false), 4096⟩
    regionHandlePf ⟨true, true, some 4096, .error .efault, true⟩ .read s = some (.ok (), s) := by
  intro s
  apply (regionHandlePf_present_iff _ .read s ⟨some 8192, 1, false⟩ 8192
    ⟨rfl, rfl, one_pos, rfl, PgProt.noConfusion⟩).mpr
  exact .inr ⟨rfl, Option.some_ne_none _⟩

end Soda.Storpu.Vm
