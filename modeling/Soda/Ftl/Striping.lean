import Soda.Ftl.AddressMapping
import Soda.Core.MixedRadix

/-!
# Striping logical pages over the planes

A plane-allocation scheme reads the logical page number as a mixed-radix
number whose digits are the four coordinates of a plane, in the order the
scheme names.  Any run of as many pages as there are enabled planes therefore
visits each of them once.
-/

namespace Soda

open List PlaneAddr MixedRadix

def PlaneAddr.get (addr : PlaneAddr) : Dim → ℕ
  | .channel => addr.channel
  | .chip => addr.chip
  | .die => addr.die
  | .plane => addr.plane

namespace PlaneAddr

theorem eq_of_get_eq {left right : PlaneAddr}
    (hget : ∀ dim, left.get dim = right.get dim) : left = right := by
  cases left
  cases right
  have hchannel := hget .channel
  have hchip := hget .chip
  have hdie := hget .die
  have hplane := hget .plane
  simp only [get] at hchannel hchip hdie hplane
  rw [hchannel, hchip, hdie, hplane]

@[simp]
theorem get_set_self (addr : PlaneAddr) (dim : Dim) (digit : ℕ) :
    (addr.set dim digit).get dim = digit := by
  cases dim <;> rfl

theorem get_set_of_ne (addr : PlaneAddr) {dim other : Dim} (hne : other ≠ dim)
    (digit : ℕ) : (addr.set dim digit).get other = addr.get other := by
  cases dim <;> cases other <;> first | rfl | exact absurd rfl hne

end PlaneAddr

namespace PlaneAllocateScheme

variable (scheme : PlaneAllocateScheme)

theorem dims_perm : scheme.dims.Perm [.channel, .chip, .die, .plane] := by
  cases scheme <;> decide

theorem mem_dims (dim : Dim) : dim ∈ scheme.dims := by
  rw [scheme.dims_perm.mem_iff]
  cases dim <;> decide

theorem dims_nodup : scheme.dims.Nodup := by
  rw [scheme.dims_perm.nodup_iff]
  decide

end PlaneAllocateScheme

variable {g : Geometry}

/-- The planes a geometry stripes over: channels, chips, dies and planes. -/
def enabledPlanes (g : Geometry) : ℕ :=
  g.enableChannels.length * g.chipsPerChannel * g.diesPerChip * g.planesPerDie

theorem Dim.count_pos (g : Geometry) (dim : Dim) : 0 < dim.count g := by
  cases dim with
  | channel => exact length_pos_of_ne_nil g.enableChannels_ne_nil
  | chip => exact g.chips_pos
  | die => exact g.dies_pos
  | plane => exact g.planes_pos

theorem prod_counts (g : Geometry) (scheme : PlaneAllocateScheme) :
    (scheme.dims.map (Dim.count g)).prod = enabledPlanes g := by
  rw [(scheme.dims_perm.map (Dim.count g)).prod_eq]
  simp only [map_cons, map_nil, prod_cons, prod_nil, Dim.count, enabledPlanes]
  ring

variable {dims : List Dim} {target : PlaneAddr}

theorem assignDims_get_of_notMem {dim : Dim} (hdim : dim ∉ dims) (lpa : ℕ) (addr : PlaneAddr) :
    (assignDims g dims lpa addr).get dim = addr.get dim := by
  induction dims generalizing lpa addr with
  | nil => rfl
  | cons head dims ih =>
    simp only [mem_cons, not_or] at hdim
    rw [assignDims, ih hdim.2, addr.get_set_of_ne hdim.1]

/-- Each dimension receives the digit of its place in the order. -/
theorem map_get_assignDims (hnodup : dims.Nodup) (lpa : ℕ) (addr : PlaneAddr) :
    dims.map (assignDims g dims lpa addr).get = digits (dims.map (Dim.count g)) lpa := by
  induction dims generalizing lpa addr with
  | nil => rfl
  | cons dim dims ih =>
    obtain ⟨hdim, hrest⟩ := nodup_cons.mp hnodup
    rw [map_cons, map_cons, digits, assignDims,
      ih hrest, assignDims_get_of_notMem hdim, get_set_self]

/-- A plane address read as digits: the channel is the index of an enabled
one. -/
def PlaneAddr.indexed (g : Geometry) (addr : PlaneAddr) : PlaneAddr :=
  { addr with channel := g.enableChannels.idxOf addr.channel }

def Geometry.Enabled (g : Geometry) (addr : PlaneAddr) : Prop :=
  addr.InRange g ∧ g.channelEnabled addr.channel = true

theorem mem_enableChannels {channel : ℕ} :
    channel ∈ g.enableChannels ↔ channel < g.nrChannels ∧ g.channelEnabled channel = true := by
  rw [Geometry.enableChannels, mem_filter, mem_range]

theorem enableChannels_nodup (g : Geometry) : g.enableChannels.Nodup := nodup_range.filter _

variable (scheme : PlaneAllocateScheme)

theorem assignDims_get_lt (lpa : ℕ) (addr : PlaneAddr) (dim : Dim) :
    (assignDims g scheme.dims lpa addr).get dim < dim.count g := by
  have hbases : ∀ base ∈ scheme.dims.map (Dim.count g), 0 < base := by
    intro base hmem
    obtain ⟨other, _, rfl⟩ := mem_map.mp hmem
    exact other.count_pos g
  have hdigits := digits_lt hbases lpa
  rw [← map_get_assignDims scheme.dims_nodup lpa addr,
    forall₂_map_left_iff, forall₂_map_right_iff, forall₂_same] at hdigits
  exact hdigits dim (scheme.mem_dims dim)

theorem channel_digit_lt (lpa : ℕ) :
    (assignDims g scheme.dims lpa ⟨0, 0, 0, 0⟩).channel < g.enableChannels.length :=
  assignDims_get_lt scheme lpa _ .channel

theorem assignPlane_enabled (lpa : ℕ) : g.Enabled (assignPlane g scheme lpa) := by
  have hlt := assignDims_get_lt (g := g) scheme lpa ⟨0, 0, 0, 0⟩
  have hmem : (assignPlane g scheme lpa).channel ∈ g.enableChannels := by
    simp only [assignPlane]
    rw [getD_eq_getElem _ _ (channel_digit_lt scheme lpa)]
    exact getElem_mem _
  obtain ⟨hchannel, hon⟩ := mem_enableChannels.mp hmem
  exact ⟨⟨hchannel, hlt .chip, hlt .die, hlt .plane⟩, hon⟩

/-- The assigned plane is a given enabled one exactly where the digits are
that plane's. -/
theorem assignPlane_eq_iff (lpa : ℕ) (htarget : g.Enabled target) :
    assignPlane g scheme lpa = target ↔ digits (scheme.dims.map (Dim.count g)) lpa =
        scheme.dims.map (target.indexed g).get := by
  have hmem : target.channel ∈ g.enableChannels := mem_enableChannels.mpr ⟨htarget.1.1, htarget.2⟩
  rw [← map_get_assignDims scheme.dims_nodup lpa ⟨0, 0, 0, 0⟩]
  constructor
  · intro heq
    refine map_congr_left fun dim _ => ?_
    subst heq
    cases dim with
    | channel =>
      simp only [PlaneAddr.get, PlaneAddr.indexed, assignPlane]
      rw [getD_eq_getElem _ _ (channel_digit_lt scheme lpa), (enableChannels_nodup g).idxOf_getElem]
    | chip | die | plane => rfl
  · intro heq
    have hsame : assignDims g scheme.dims lpa ⟨0, 0, 0, 0⟩ = target.indexed g :=
      eq_of_get_eq fun dim =>
      map_inj_left.mp heq dim (scheme.mem_dims dim)
    simp only [assignPlane, hsame, indexed]
    rw [getD_eq_getElem _ _ (idxOf_lt_length_of_mem hmem), getElem_idxOf]

theorem indexed_lt (htarget : g.Enabled target) :
    List.Forall₂ (· < ·) (scheme.dims.map (target.indexed g).get)
      (scheme.dims.map (Dim.count g)) := by
  obtain ⟨⟨hchannel, hchip, hdie, hplane⟩, hon⟩ := htarget
  rw [forall₂_map_left_iff, forall₂_map_right_iff, forall₂_same]
  intro dim _
  cases dim with
  | channel => exact idxOf_lt_length_of_mem (mem_enableChannels.mpr ⟨hchannel, hon⟩)
  | chip => exact hchip
  | die => exact hdie
  | plane => exact hplane

/-- Striping is balanced: every page goes to an enabled plane in range, and any
run of as many pages as there are enabled planes visits each of them once. -/
theorem assignPlane_balanced (g : Geometry) (scheme : PlaneAllocateScheme) (start : ℕ) :
    (∀ lpa, g.Enabled (assignPlane g scheme lpa)) ∧ ∀ target, g.Enabled target →
        ∃! lpa, (start ≤ lpa ∧ lpa < start + enabledPlanes g) ∧
          assignPlane g scheme lpa = target := by
  refine ⟨assignPlane_enabled scheme, fun target htarget => ?_⟩
  simp only [assignPlane_eq_iff scheme _ htarget, ← prod_counts g scheme]
  refine existsUnique_digits_eq ?_ start (indexed_lt scheme htarget)
  intro base hmem
  obtain ⟨dim, _, rfl⟩ := mem_map.mp hmem
  exact dim.count_pos g

end Soda
