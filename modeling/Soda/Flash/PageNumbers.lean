import Soda.Flash.Geometry

/-!
# Page numbers in 32-bit arithmetic

The model computes page numbers over the naturals.  The firmware computes them
in `unsigned int`: the macros multiply up the geometry's constants, and every
sum, product, quotient and remainder is taken in 32 bits.  For a geometry whose
page total stays below `NO_PPA` nothing wraps, so the two computations agree and
the encoding loses nothing.
-/

namespace Soda

open UInt32
namespace PageCounts.Word

variable (c : PageCounts)

def pagesPerPlane : UInt32 := .ofNat c.pagesPerBlock * .ofNat c.blocksPerPlane

def pagesPerDie : UInt32 := pagesPerPlane c * .ofNat c.planesPerDie

def pagesPerChip : UInt32 := pagesPerDie c * .ofNat c.diesPerChip

def pagesPerChannel : UInt32 := pagesPerChip c * .ofNat c.chipsPerChannel

def ppaToAddress (ppa : UInt32) : FlashAddress :=
  let channel := ppa / pagesPerChannel c
  let ppa := ppa % pagesPerChannel c
  let chip := ppa / pagesPerChip c
  let ppa := ppa % pagesPerChip c
  let die := ppa / pagesPerDie c
  let ppa := ppa % pagesPerDie c
  let plane := ppa / pagesPerPlane c
  let ppa := ppa % pagesPerPlane c
  let block := ppa / .ofNat c.pagesPerBlock
  let ppa := ppa % .ofNat c.pagesPerBlock
  ⟨⟨channel.toNat, chip.toNat, die.toNat, plane.toNat⟩, block.toNat, ppa.toNat⟩

/-- `address_to_ppa`, whose fields are `unsigned int`. -/
def addressToPpa (addr : FlashAddress) : UInt32 :=
  pagesPerChip c * (.ofNat c.chipsPerChannel * .ofNat addr.planeAddr.channel +
      .ofNat addr.planeAddr.chip) + pagesPerDie c * .ofNat addr.planeAddr.die +
    pagesPerPlane c * .ofNat addr.planeAddr.plane +
    .ofNat c.pagesPerBlock * .ofNat addr.block + .ofNat addr.page

theorem pagesPerPlane_eq : pagesPerPlane c = .ofNat c.pagesPerPlane := (ofNat_mul _ _).symm

theorem pagesPerDie_eq : pagesPerDie c = .ofNat c.pagesPerDie := by
  rw [pagesPerDie, pagesPerPlane_eq, ← ofNat_mul, PageCounts.pagesPerDie]

theorem pagesPerChip_eq : pagesPerChip c = .ofNat c.pagesPerChip := by
  rw [pagesPerChip, pagesPerDie_eq, ← ofNat_mul, PageCounts.pagesPerChip]

theorem pagesPerChannel_eq : pagesPerChannel c = .ofNat c.pagesPerChannel := by
  rw [pagesPerChannel, pagesPerChip_eq, ← ofNat_mul, PageCounts.pagesPerChannel]

/-- The sum of products wraps once, at the end. -/
theorem addressToPpa_eq (addr : FlashAddress) : addressToPpa c addr = .ofNat (c.join addr) := by
  simp only [addressToPpa, pagesPerChip_eq, pagesPerDie_eq, pagesPerPlane_eq,
    PageCounts.join, ofNat_add, ofNat_mul]

/-- A unit is at most the page total of a geometry with a page. -/
theorem units_le {ppa : ℕ} (hlt : ppa < c.totalPages) :
    c.pagesPerChannel ≤ c.totalPages ∧ c.pagesPerChip ≤ c.totalPages ∧
      c.pagesPerDie ≤ c.totalPages ∧ c.pagesPerPlane ≤ c.totalPages ∧
      c.pagesPerBlock ≤ c.totalPages := by
  obtain ⟨_, hblock, hplane, hdie, hchip, hchannel⟩ := c.counts_pos hlt
  have hchannels : c.pagesPerChannel ≤ c.totalPages := Nat.le_mul_of_pos_right _ hchannel
  have hchips : c.pagesPerChip ≤ c.pagesPerChannel := Nat.le_mul_of_pos_right _ hchip
  have hdies : c.pagesPerDie ≤ c.pagesPerChip := Nat.le_mul_of_pos_right _ hdie
  have hplanes : c.pagesPerPlane ≤ c.pagesPerDie := Nat.le_mul_of_pos_right _ hplane
  have hblocks : c.pagesPerBlock ≤ c.pagesPerPlane := Nat.le_mul_of_pos_right _ hblock
  omega

section Fits

variable {c} (hfit : c.totalPages < noPpa)

include hfit

theorem toNat_ofNat_of_le {n : ℕ} (hle : n ≤ c.totalPages) : (ofNat n).toNat = n := by
  apply toNat_ofNat_of_lt'
  have hbound : noPpa < 2 ^ 32 := by norm_num [noPpa]
  exact (hle.trans_lt hfit).trans hbound

variable {addr : FlashAddress} {ppa : UInt32}

theorem toNat_addressToPpa (hrange : c.InRange addr) :
    (addressToPpa c addr).toNat = c.join addr := by
  rw [addressToPpa_eq]
  exact toNat_ofNat_of_le hfit (c.join_lt_totalPages hrange).le

theorem ppaToAddress_eq_split (hlt : ppa.toNat < c.totalPages) :
    ppaToAddress c ppa = c.split ppa.toNat := by
  obtain ⟨hchannel, hchip, hdie, hplane, hblock⟩ := units_le c hlt
  simp only [ppaToAddress, PageCounts.split, pagesPerChannel_eq, pagesPerChip_eq,
    pagesPerDie_eq, pagesPerPlane_eq, UInt32.toNat_div, UInt32.toNat_mod,
    toNat_ofNat_of_le hfit hchannel, toNat_ofNat_of_le hfit hchip,
    toNat_ofNat_of_le hfit hdie, toNat_ofNat_of_le hfit hplane, toNat_ofNat_of_le hfit hblock]

theorem ppaToAddress_addressToPpa
    (hrange : c.InRange addr) : ppaToAddress c (addressToPpa c addr) = addr := by
  have hvalue := toNat_addressToPpa hfit hrange
  have hlt : (addressToPpa c addr).toNat < c.totalPages := by
    rw [hvalue]
    exact c.join_lt_totalPages hrange
  rw [ppaToAddress_eq_split hfit hlt, hvalue, c.split_join hrange]

theorem addressToPpa_ppaToAddress (hlt : ppa.toNat < c.totalPages) :
    addressToPpa c (ppaToAddress c ppa) = ppa := by
  rw [ppaToAddress_eq_split hfit hlt, addressToPpa_eq, c.join_split, UInt32.ofNat_toNat]

end Fits

/-- Page numbers and in-range addresses determine each other. -/
theorem page_numbers_lossless (hfit : c.totalPages < noPpa) :
    (∀ addr, c.InRange addr → (addressToPpa c addr).toNat < c.totalPages ∧
        ppaToAddress c (addressToPpa c addr) = addr) ∧ (∀ ppa : UInt32, ppa.toNat < c.totalPages →
      c.InRange (ppaToAddress c ppa) ∧ addressToPpa c (ppaToAddress c ppa) = ppa) ∧
    (∀ left right, c.InRange left → c.InRange right →
      addressToPpa c left = addressToPpa c right → left = right) := by
  refine ⟨fun addr hrange => ⟨?_, ppaToAddress_addressToPpa hfit hrange⟩,
    fun ppa hlt => ⟨?_, addressToPpa_ppaToAddress hfit hlt⟩, fun left right hleft hright heq => ?_⟩
  · rw [toNat_addressToPpa hfit hrange]
    exact c.join_lt_totalPages hrange
  · rw [ppaToAddress_eq_split hfit hlt]
    exact c.split_inRange hlt
  · rw [← ppaToAddress_addressToPpa hfit hleft, heq, ppaToAddress_addressToPpa hfit hright]

theorem page_numbers_lossless_device :
    deviceGeometry.counts.InRange ⟨⟨7, 1, 1, 1⟩, 1047, 511⟩ ∧
      ppaToAddress deviceGeometry.counts (addressToPpa deviceGeometry.counts
        ⟨⟨7, 1, 1, 1⟩, 1047, 511⟩) = ⟨⟨7, 1, 1, 1⟩, 1047, 511⟩ := by
  have hrange : deviceGeometry.counts.InRange ⟨⟨7, 1, 1, 1⟩, 1047, 511⟩ := by
    simp [PageCounts.InRange, Geometry.counts, deviceGeometry]
  exact ⟨hrange, ((page_numbers_lossless deviceGeometry.counts
    deviceGeometry.totalPages_lt).1 _ hrange).2⟩

end PageCounts.Word

/-! ### The numbers of the model -/

section Model

variable (g : Geometry)

theorem Geometry.counts_fit : g.counts.totalPages < noPpa := g.totalPages_lt

theorem addressToPpa_eq_word {addr : FlashAddress} (hrange : addr.InRange g) :
    addressToPpa g addr = (PageCounts.Word.addressToPpa g.counts addr).toNat :=
  (PageCounts.Word.toNat_addressToPpa g.counts_fit hrange).symm

theorem ppaToAddress_eq_word {ppa : ℕ} (hlt : ppa < g.totalPages) :
    ppaToAddress g ppa = PageCounts.Word.ppaToAddress g.counts (.ofNat ppa) := by
  have hvalue : (ofNat ppa).toNat = ppa :=
    PageCounts.Word.toNat_ofNat_of_le g.counts_fit (le_of_lt hlt)
  have hword : (ofNat ppa).toNat < g.counts.totalPages := by
    rw [hvalue]
    exact hlt
  rw [PageCounts.Word.ppaToAddress_eq_split g.counts_fit hword, hvalue]
  rfl

end Model

end Soda
