import Soda.Core.Bitmap

/-!
# Flash geometry and physical page numbers

The firmware is compiled for one geometry.  The model takes the geometry as a
value that carries the conditions the build constants meet: no dimension is
empty, one plane's block map fits into a memory page and the number of pages
stays below the 32-bit value reserved for `NO_PPA`.
-/

namespace Soda

open Function List

def sectorShift : ℕ := 12
def flashPgShift : ℕ := 14

def sectorsPerFlashPg : ℕ := 4

/-- `NO_PPA` and `NO_MPPN`, the largest 32-bit value. -/
def noPpa : ℕ := 2 ^ 32 - 1

/-- Memory page size in 64-bit chunks, `ARCH_PG_SIZE / sizeof(bitchunk_t)`. -/
def archPgChunks : ℕ := 512

structure Geometry where
  nrChannels : ℕ
  chipsPerChannel : ℕ
  diesPerChip : ℕ
  planesPerDie : ℕ
  blocksPerPlane : ℕ
  pagesPerBlock : ℕ
  /-- `CHANNEL_ENABLE_MASK` as a predicate on channel numbers. -/
  channelEnabled : ℕ → Bool
  lsbBitmap : Bitmap
  channels_pos : 0 < nrChannels
  chips_pos : 0 < chipsPerChannel
  dies_pos : 0 < diesPerChip
  planes_pos : 0 < planesPerDie
  blocks_pos : 0 < blocksPerPlane
  two_le_pages : 2 ≤ pagesPerBlock
  enabled_exists : ∃ channel < nrChannels, channelEnabled channel = true
  blockMap_fits : Bitmap.bitchunks blocksPerPlane ≤ archPgChunks
  pages_lt : nrChannels * (chipsPerChannel * (diesPerChip *
    (planesPerDie * (blocksPerPlane * pagesPerBlock)))) < noPpa

namespace Geometry

variable (g : Geometry)

def pagesPerPlane : ℕ := g.pagesPerBlock * g.blocksPerPlane
def pagesPerDie : ℕ := g.pagesPerPlane * g.planesPerDie
def pagesPerChip : ℕ := g.pagesPerDie * g.diesPerChip
def pagesPerChannel : ℕ := g.pagesPerChip * g.chipsPerChannel
def totalPages : ℕ := g.pagesPerChannel * g.nrChannels

/-- Pages of one block that are handed out, `PAGES_PER_BLOCK / 2`. -/
def pagesUsed : ℕ := g.pagesPerBlock / 2

/-- The channels `assign_plane` stripes over, in ascending order. -/
def enableChannels : List ℕ := (range g.nrChannels).filter g.channelEnabled

theorem pagesPerBlock_pos : 0 < g.pagesPerBlock := lt_of_lt_of_le (by norm_num) g.two_le_pages

theorem pagesUsed_pos : 0 < g.pagesUsed := Nat.div_pos g.two_le_pages (by norm_num)

theorem pagesUsed_le : g.pagesUsed ≤ g.pagesPerBlock := Nat.div_le_self _ _

theorem totalPages_lt : g.totalPages < noPpa := by
  have hpages := g.pages_lt
  have heq : g.totalPages = g.nrChannels * (g.chipsPerChannel * (g.diesPerChip *
      (g.planesPerDie * (g.blocksPerPlane * g.pagesPerBlock)))) := by
    unfold totalPages pagesPerChannel pagesPerChip pagesPerDie pagesPerPlane
    ring
  omega

theorem enableChannels_ne_nil : g.enableChannels ≠ [] := by
  obtain ⟨channel, hlt, hon⟩ := g.enabled_exists
  exact ne_nil_of_mem (mem_filter.mpr ⟨mem_range.mpr hlt, hon⟩)

end Geometry

/-- The part of `struct flash_address` that names a plane. -/
structure PlaneAddr where
  channel : ℕ
  chip : ℕ
  die : ℕ
  plane : ℕ
  deriving DecidableEq, Repr

structure FlashAddress where
  planeAddr : PlaneAddr
  block : ℕ
  page : ℕ
  deriving DecidableEq, Repr

/-- The four bounds that `get_plane` asserts. -/
def PlaneAddr.InRange (g : Geometry) (addr : PlaneAddr) : Prop :=
  addr.channel < g.nrChannels ∧ addr.chip < g.chipsPerChannel ∧
    addr.die < g.diesPerChip ∧ addr.plane < g.planesPerDie

instance (g : Geometry) (addr : PlaneAddr) : Decidable (addr.InRange g) :=
  inferInstanceAs (Decidable (_ ∧ _ ∧ _ ∧ _))

def FlashAddress.InRange (g : Geometry) (addr : FlashAddress) : Prop :=
  addr.planeAddr.InRange g ∧ addr.block < g.blocksPerPlane ∧ addr.page < g.pagesPerBlock

/-- The order in which the firmware's four nested loops visit the planes. -/
def planeAddrs (g : Geometry) : List PlaneAddr :=
  (range g.nrChannels).flatMap fun channel =>
    (range g.chipsPerChannel).flatMap fun chip =>
      (range g.diesPerChip).flatMap fun die =>
        (range g.planesPerDie).map fun plane => ⟨channel, chip, die, plane⟩

theorem mem_planeAddrs {g : Geometry} {addr : PlaneAddr} :
    addr ∈ planeAddrs g ↔ addr.InRange g := by
  rcases addr with ⟨channel, chip, die, plane⟩
  simp [planeAddrs, PlaneAddr.InRange]

theorem planeAddrs_nodup (g : Geometry) : (planeAddrs g).Nodup := by
  unfold planeAddrs
  refine nodup_flatMap.mpr ⟨fun channel _ => ?_, ?_⟩
  · refine nodup_flatMap.mpr ⟨fun chip _ => ?_, ?_⟩
    · refine nodup_flatMap.mpr ⟨fun die _ => ?_, ?_⟩
      · exact nodup_range.map fun left right heq => by simpa using heq
      · refine nodup_range.imp fun {left right} hne => ?_
        simp only [onFun, disjoint_left, mem_map]
        rintro addr ⟨_, _, rfl⟩ ⟨_, _, heq⟩
        simp only [PlaneAddr.mk.injEq] at heq
        exact hne heq.2.2.1.symm
    · refine nodup_range.imp fun {left right} hne => ?_
      simp only [onFun, disjoint_left, mem_flatMap, mem_map]
      rintro addr ⟨_, _, _, _, rfl⟩ ⟨_, _, _, _, heq⟩
      simp only [PlaneAddr.mk.injEq] at heq
      exact hne heq.2.1.symm
  · refine nodup_range.imp fun {left right} hne => ?_
    simp only [onFun, disjoint_left, mem_flatMap, mem_map]
    rintro addr ⟨_, _, _, _, _, _, rfl⟩ ⟨_, _, _, _, _, _, heq⟩
    simp only [PlaneAddr.mk.injEq] at heq
    exact hne heq.1.symm

/-! ### Page numbers -/

/-- The counts that the page-number macros multiply up. -/
structure PageCounts where
  nrChannels : ℕ
  chipsPerChannel : ℕ
  diesPerChip : ℕ
  planesPerDie : ℕ
  blocksPerPlane : ℕ
  pagesPerBlock : ℕ

namespace PageCounts

variable (c : PageCounts)

def pagesPerPlane : ℕ := c.pagesPerBlock * c.blocksPerPlane
def pagesPerDie : ℕ := c.pagesPerPlane * c.planesPerDie
def pagesPerChip : ℕ := c.pagesPerDie * c.diesPerChip
def pagesPerChannel : ℕ := c.pagesPerChip * c.chipsPerChannel
def totalPages : ℕ := c.pagesPerChannel * c.nrChannels

def InRange (addr : FlashAddress) : Prop :=
  (addr.planeAddr.channel < c.nrChannels ∧ addr.planeAddr.chip < c.chipsPerChannel ∧
    addr.planeAddr.die < c.diesPerChip ∧ addr.planeAddr.plane < c.planesPerDie) ∧
  addr.block < c.blocksPerPlane ∧ addr.page < c.pagesPerBlock

/-- Successive quotients and remainders, without a bound on the numbers. -/
def split (ppa : ℕ) : FlashAddress :=
  let channel := ppa / c.pagesPerChannel
  let ppa := ppa % c.pagesPerChannel
  let chip := ppa / c.pagesPerChip
  let ppa := ppa % c.pagesPerChip
  let die := ppa / c.pagesPerDie
  let ppa := ppa % c.pagesPerDie
  let plane := ppa / c.pagesPerPlane
  let ppa := ppa % c.pagesPerPlane
  let block := ppa / c.pagesPerBlock
  let ppa := ppa % c.pagesPerBlock
  ⟨⟨channel, chip, die, plane⟩, block, ppa⟩

/-- The weighted sum, without a bound on the numbers. -/
def join (addr : FlashAddress) : ℕ :=
  c.pagesPerChip * (c.chipsPerChannel * addr.planeAddr.channel + addr.planeAddr.chip) +
    c.pagesPerDie * addr.planeAddr.die + c.pagesPerPlane * addr.planeAddr.plane +
    c.pagesPerBlock * addr.block + addr.page

variable {ppa rest unit : ℕ} {addr : FlashAddress}

/-- One level of the mixed-radix number: a digit below its base on top of a
remainder below the unit is recovered by quotient and remainder. -/
private theorem digit_split (digit : ℕ) (hrest : rest < unit) :
    (unit * digit + rest) / unit = digit ∧ (unit * digit + rest) % unit = rest := by
  have hpos : 0 < unit := Nat.lt_of_le_of_lt (Nat.zero_le _) hrest
  constructor
  · rw [Nat.mul_add_div hpos, Nat.div_eq_of_lt hrest, Nat.add_zero]
  · rw [Nat.mul_add_mod, Nat.mod_eq_of_lt hrest]

private theorem digit_lt {base digit : ℕ} (hdigit : digit < base)
    (hrest : rest < unit) : unit * digit + rest < unit * base := by
  calc
    unit * digit + rest < unit * digit + unit := by omega
    _ = unit * (digit + 1) := by ring
    _ ≤ unit * base := Nat.mul_le_mul_left _ hdigit

/-- The sum grouped by units, the way `split` takes it apart. -/
theorem join_eq_nested (addr : FlashAddress) :
    c.join addr = c.pagesPerChannel * addr.planeAddr.channel +
      (c.pagesPerChip * addr.planeAddr.chip + (c.pagesPerDie * addr.planeAddr.die +
          (c.pagesPerPlane * addr.planeAddr.plane +
            (c.pagesPerBlock * addr.block + addr.page)))) := by
  simp only [join, pagesPerChannel]
  ring

theorem split_join (hrange : c.InRange addr) : c.split (c.join addr) = addr := by
  rw [join_eq_nested]
  rcases addr with ⟨⟨channel, chip, die, plane⟩, block, page⟩
  obtain ⟨⟨_, hchip, hdie, hplane⟩, hblock, hpage⟩ := hrange
  simp only at hchip hdie hplane hblock hpage
  have hinBlock := digit_lt hblock hpage
  have hinPlane := digit_lt hplane hinBlock
  have hinDie := digit_lt hdie hinPlane
  have hinChip := digit_lt hchip hinDie
  obtain ⟨hchannelDiv, hchannelMod⟩ := digit_split channel hinChip
  obtain ⟨hchipDiv, hchipMod⟩ := digit_split chip hinDie
  obtain ⟨hdieDiv, hdieMod⟩ := digit_split die hinPlane
  obtain ⟨hplaneDiv, hplaneMod⟩ := digit_split plane hinBlock
  obtain ⟨hblockDiv, hblockMod⟩ := digit_split block hpage
  unfold split
  simp only [pagesPerChannel, pagesPerChip, pagesPerDie, pagesPerPlane] at *
  simp only [hchannelDiv, hchannelMod, hchipDiv, hchipMod, hdieDiv, hdieMod,
    hplaneDiv, hplaneMod, hblockDiv, hblockMod]

theorem join_split (ppa : ℕ) : c.join (c.split ppa) = ppa := by
  rw [join_eq_nested]
  simp only [split, Nat.div_add_mod]

theorem join_lt_totalPages (hrange : c.InRange addr) : c.join addr < c.totalPages := by
  rw [join_eq_nested]
  obtain ⟨⟨hchannel, hchip, hdie, hplane⟩, hblock, hpage⟩ := hrange
  exact digit_lt hchannel (digit_lt hchip (digit_lt hdie (digit_lt hplane (digit_lt hblock hpage))))

/-- A product that is not empty has no empty factor. -/
theorem counts_pos (hlt : ppa < c.totalPages) :
    0 < c.pagesPerBlock ∧ 0 < c.blocksPerPlane ∧ 0 < c.planesPerDie ∧
      0 < c.diesPerChip ∧ 0 < c.chipsPerChannel ∧ 0 < c.nrChannels := by
  have hpos : 0 < c.totalPages := Nat.lt_of_le_of_lt (Nat.zero_le _) hlt
  simp only [totalPages, pagesPerChannel, pagesPerChip, pagesPerDie,
    pagesPerPlane, pos_iff_ne_zero, mul_ne_zero_iff] at hpos ⊢
  tauto

theorem split_inRange (hlt : ppa < c.totalPages) : c.InRange (c.split ppa) := by
  obtain ⟨hpage, hblock, hplane, hdie, hchip, _⟩ := c.counts_pos hlt
  have hunitPlane : 0 < c.pagesPerPlane := mul_pos hpage hblock
  have hunitDie : 0 < c.pagesPerDie := mul_pos hunitPlane hplane
  have hunitChip : 0 < c.pagesPerChip := mul_pos hunitDie hdie
  have hunitChannel : 0 < c.pagesPerChannel := mul_pos hunitChip hchip
  refine ⟨⟨?_, ?_, ?_, ?_⟩, ?_, ?_⟩
  · exact Nat.div_lt_of_lt_mul hlt
  · exact Nat.div_lt_of_lt_mul (Nat.mod_lt _ hunitChannel)
  · exact Nat.div_lt_of_lt_mul (Nat.mod_lt _ hunitChip)
  · exact Nat.div_lt_of_lt_mul (Nat.mod_lt _ hunitDie)
  · exact Nat.div_lt_of_lt_mul (Nat.mod_lt _ hunitPlane)
  · exact Nat.mod_lt _ hpage

end PageCounts

def Geometry.counts (g : Geometry) : PageCounts :=
  ⟨g.nrChannels, g.chipsPerChannel, g.diesPerChip, g.planesPerDie,
    g.blocksPerPlane, g.pagesPerBlock⟩

section Ppa

variable (g : Geometry)

/-- `ppa_to_address`: successive quotients and remainders. -/
def ppaToAddress (ppa : ℕ) : FlashAddress :=
  let channel := ppa / g.pagesPerChannel
  let ppa := ppa % g.pagesPerChannel
  let chip := ppa / g.pagesPerChip
  let ppa := ppa % g.pagesPerChip
  let die := ppa / g.pagesPerDie
  let ppa := ppa % g.pagesPerDie
  let plane := ppa / g.pagesPerPlane
  let ppa := ppa % g.pagesPerPlane
  let block := ppa / g.pagesPerBlock
  let ppa := ppa % g.pagesPerBlock
  ⟨⟨channel, chip, die, plane⟩, block, ppa⟩

def addressToPpa (addr : FlashAddress) : ℕ :=
  g.pagesPerChip * (g.chipsPerChannel * addr.planeAddr.channel + addr.planeAddr.chip) +
    g.pagesPerDie * addr.planeAddr.die + g.pagesPerPlane * addr.planeAddr.plane +
    g.pagesPerBlock * addr.block + addr.page

variable {addr : FlashAddress}

theorem ppaToAddress_addressToPpa (hrange : addr.InRange g) :
    ppaToAddress g (addressToPpa g addr) = addr :=
  g.counts.split_join hrange

theorem addressToPpa_lt_totalPages (hrange : addr.InRange g) : addressToPpa g addr < g.totalPages :=
  g.counts.join_lt_totalPages hrange

/-- A real page number is never the reserved one. -/
theorem addressToPpa_lt_noPpa (hrange : addr.InRange g) : addressToPpa g addr < noPpa :=
  (addressToPpa_lt_totalPages g hrange).trans g.totalPages_lt

end Ppa

/-- `LSB_BITMAP` of `flash_config.h`. -/
def lsbBitmap : Bitmap :=
  [0xCCCCCCCCCCCCCDBF, 0xCCCCCCCCCCCCCCCC, 0xCCCCCCCCCCCCCCCC, 0xCCCCCCCCCCCCCCCC,
    0xCCCCCCCCCCCCCCCC, 0xCCCCCCCCCCCCCCCC, 0xCCCCCCCCCCCCCCCC, 0x6CCCCCCCCCCCCCCC]

def deviceGeometry : Geometry where
  nrChannels := 8
  chipsPerChannel := 2
  diesPerChip := 2
  planesPerDie := 2
  blocksPerPlane := 1048
  pagesPerBlock := 512
  channelEnabled := fun channel => (0b11111111 : ℕ).testBit channel
  lsbBitmap := lsbBitmap
  channels_pos := by norm_num
  chips_pos := by norm_num
  dies_pos := by norm_num
  planes_pos := by norm_num
  blocks_pos := by norm_num
  two_le_pages := by norm_num
  enabled_exists := ⟨0, by norm_num, by decide⟩
  blockMap_fits := by decide
  pages_lt := by norm_num [noPpa]

/-- One plane of a few short blocks, small enough to follow a run by hand. -/
def benchGeometry : Geometry where
  nrChannels := 1
  chipsPerChannel := 1
  diesPerChip := 1
  planesPerDie := 1
  blocksPerPlane := 12
  pagesPerBlock := 8
  channelEnabled := fun _ => true
  lsbBitmap := [0b00110011]
  channels_pos := by norm_num
  chips_pos := by norm_num
  dies_pos := by norm_num
  planes_pos := by norm_num
  blocks_pos := by norm_num
  two_le_pages := by norm_num
  enabled_exists := ⟨0, by norm_num, rfl⟩
  blockMap_fits := by decide
  pages_lt := by norm_num [noPpa]

end Soda
