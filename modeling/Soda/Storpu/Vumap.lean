import Soda.Storpu.FileIo

/-!
# Vectors of virtual ranges

`vm_vumap` for a whole vector: its ranges, the first one from an offset on, as
physically contiguous ranges, up to a limit.  A contiguous run is never as long
as the address space, since the tables repeat above the addresses they have.
-/

namespace Soda.Storpu

open List

section Vumap

variable (frames : ℕ → Option ℕ)

/-- The loop over the chunks of a range.  Each takes one of the `room` places
left in `pvec`, with its address and size. -/
def vumapChunks : ℕ → ℕ → ℕ → Except Errno (List (ℕ × ℕ))
  | 0, _, _ => .ok []
  | room + 1, virAddr, size =>
    if size = 0 then .ok []
    else
      let (chunk, physAddr) := pgdVa2paRange frames virAddr size
      if chunk = 0 then .error .efault
      else match vumapChunks room ((virAddr + chunk) % 2 ^ 64) (size - chunk) with
        | .error error => .error error
        | .ok pvec => .ok ((physAddr, chunk) :: pvec)

def vumapRanges : List (ℕ × ℕ) → ℕ → ℕ → Except Errno (List (ℕ × ℕ))
  | [], _, _ => .ok []
  | (addr, size) :: vvec, offset, room =>
    if room = 0 then .ok []
    else if size ≤ offset then .error .einval
    else match vumapChunks frames room ((addr + offset) % 2 ^ 64) (size - offset) with
      | .error error => .error error
      | .ok chunks => match vumapRanges vvec 0 (room - chunks.length) with
        | .error error => .error error
        | .ok pvec => .ok (chunks ++ pvec)

/-- `vm_vumap` with the ranges in `pvec`, whose number it returns. -/
def vmVumapVector (vvec : List (ℕ × ℕ)) (offset pmax : ℕ) : Except Errno (List (ℕ × ℕ)) :=
  if vvec = [] ∨ pmax = 0 then .error .einval else vumapRanges frames vvec offset pmax

def bytesFrom (virAddr size : ℕ) : List ℕ := (range size).map fun k => (virAddr + k) % 2 ^ 64

def requested : List (ℕ × ℕ) → ℕ → List ℕ
  | [], _ => []
  | (addr, size) :: vvec, offset =>
    bytesFrom ((addr + offset) % 2 ^ 64) (size - offset) ++ requested vvec 0

def physicalBytes (pvec : List (ℕ × ℕ)) : List (Option ℕ) :=
  pvec.flatMap fun chunk => (range chunk.2).map fun k => some (chunk.1 + k)

/-- The ranges are the translations of the bytes at the front, and of all unless
every place is taken. -/
structure Translates (asked : List ℕ) (room : ℕ) (pvec : List (ℕ × ℕ)) : Prop where
  fits : pvec.length ≤ room
  front : physicalBytes pvec <+: asked.map (pgdVa2pa frames)
  all : pvec.length < room → physicalBytes pvec = asked.map (pgdVa2pa frames)

end Vumap

variable {frames : ℕ → Option ℕ} {asked more : List ℕ} {room offset : ℕ}
  {pvec rest vvec : List (ℕ × ℕ)}

theorem bytesFrom_split (virAddr : ℕ) {chunk size : ℕ} (hle : chunk ≤ size) :
    bytesFrom virAddr size =
      bytesFrom virAddr chunk ++ bytesFrom ((virAddr + chunk) % 2 ^ 64) (size - chunk) := by
  obtain ⟨left, rfl⟩ := Nat.exists_eq_add_of_le hle
  rw [Nat.add_sub_cancel_left, bytesFrom, range_add, map_append, map_map]
  congr 1
  apply map_congr_left
  intro k _
  simp only [Function.comp]
  omega

theorem pgdVa2paRange_le (virAddr size : ℕ) : (pgdVa2paRange frames virAddr size).1 ≤ size := by
  rw [pgdVa2paRange]
  split
  · exact Nat.zero_le size
  · exact min_le_left _ _

theorem physicalBytes_pgdVa2paRange {virAddr size chunk physAddr : ℕ} (hlt : virAddr < 2 ^ 64)
    (hrange : pgdVa2paRange frames virAddr size = (chunk, physAddr)) :
    physicalBytes [(physAddr, chunk)] = (bytesFrom virAddr chunk).map (pgdVa2pa frames) := by
  rw [physicalBytes, flatMap_singleton, bytesFrom, map_map]
  apply map_congr_left
  intro k hk
  have hmaps : k < (pgdVa2paRange frames virAddr size).1 → _ := pgdVa2paRange_maps hlt k
  rw [hrange] at hmaps
  exact (hmaps (mem_range.mp hk)).symm

theorem Translates.nil (room : ℕ) : Translates frames [] room [] :=
  ⟨Nat.zero_le room, nil_prefix, fun _ => rfl⟩

theorem Translates.full (asked : List ℕ) : Translates frames asked 0 [] :=
  ⟨le_rfl, nil_prefix, fun hroom => absurd hroom (lt_irrefl 0)⟩

/-- Nothing more is asked of the ranges when every place is taken. -/
theorem Translates.full_append (htranslates : Translates frames asked room pvec)
    (hfull : ¬pvec.length < room) (more : List ℕ) :
    Translates frames (asked ++ more) room pvec := by
  refine ⟨htranslates.fits, ?_, fun hleft => absurd hleft hfull⟩
  rw [map_append]
  exact htranslates.front.trans (prefix_append _ _)

theorem Translates.append (hasked : physicalBytes pvec = asked.map (pgdVa2pa frames))
    (hroom : pvec.length ≤ room) (hrest : Translates frames more (room - pvec.length) rest) :
    Translates frames (asked ++ more) room (pvec ++ rest) := by
  have hbytes : physicalBytes (pvec ++ rest) =
      asked.map (pgdVa2pa frames) ++ physicalBytes rest := by
    rw [← hasked]
    exact flatMap_append
  have hfits := hrest.fits
  constructor
  · rw [length_append]
    omega
  · rw [hbytes, map_append, prefix_append_right_inj]
    exact hrest.front
  · intro hleft
    rw [length_append] at hleft
    rw [hbytes, map_append, hrest.all (by omega)]

theorem vumapChunks_translates {virAddr size : ℕ} (hlt : virAddr < 2 ^ 64)
    (hchunks : vumapChunks frames room virAddr size = .ok pvec) :
    Translates frames (bytesFrom virAddr size) room pvec := by
  induction room generalizing virAddr size pvec with
  | zero =>
    cases hchunks
    exact .full _
  | succ room ih =>
    rw [vumapChunks] at hchunks
    split at hchunks
    · next hsize =>
      cases hchunks
      rw [hsize]
      exact .nil _
    · split at hchunks
      next chunk physAddr hrange =>
      split at hchunks
      · cases hchunks
      · split at hchunks
        · cases hchunks
        · next rest hrest =>
          cases hchunks
          have hle : (pgdVa2paRange frames virAddr size).1 ≤ size := pgdVa2paRange_le virAddr size
          rw [hrange] at hle
          rw [bytesFrom_split virAddr hle]
          apply Translates.append (physicalBytes_pgdVa2paRange hlt hrange) (Nat.le_add_left 1 room)
          exact ih (Nat.mod_lt _ (by decide)) hrest

theorem vumapRanges_translates (hranges : vumapRanges frames vvec offset room = .ok pvec) :
    Translates frames (requested vvec offset) room pvec := by
  induction vvec generalizing offset room pvec with
  | nil =>
    cases hranges
    exact .nil room
  | cons range vvec ih =>
    rw [vumapRanges] at hranges
    split at hranges
    · next hroom =>
      cases hranges
      rw [hroom]
      exact .full _
    · split at hranges
      · cases hranges
      · split at hranges
        · cases hranges
        · next chunks hchunks =>
          split at hranges
          · cases hranges
          · next rest hrest =>
            cases hranges
            have htranslates := vumapChunks_translates (Nat.mod_lt _ (by decide)) hchunks
            have hmore := ih hrest
            rw [requested]
            by_cases hleft : chunks.length < room
            · exact .append (htranslates.all hleft) htranslates.fits hmore
            · obtain rfl : rest = [] := by
                apply eq_nil_of_length_eq_zero
                have hfits := hmore.fits
                omega
              rw [append_nil]
              exact htranslates.full_append hleft _

/-- The bytes of the ranges, in order, are the translations of the first of the
bytes asked for, and of all of them if the limit was not reached.  There is at
least one range, as the code asserts. -/
theorem vmVumapVector_translates (frames : ℕ → Option ℕ) (vvec : List (ℕ × ℕ)) (offset pmax : ℕ)
    (pvec : List (ℕ × ℕ)) (hrun : vmVumapVector frames vvec offset pmax = .ok pvec) :
    pvec ≠ [] ∧ physicalBytes pvec <+: (requested vvec offset).map (pgdVa2pa frames) ∧
      (pvec.length < pmax →
        physicalBytes pvec = (requested vvec offset).map (pgdVa2pa frames)) := by
  rw [vmVumapVector] at hrun
  split at hrun
  · cases hrun
  · next hsome =>
    rw [not_or] at hsome
    have htranslates := vumapRanges_translates hrun
    refine ⟨?_, htranslates.front, htranslates.all⟩
    rintro rfl
    have hnone := htranslates.all (pos_of_ne_zero hsome.2)
    cases vvec with
    | nil => exact hsome.1 rfl
    | cons range vvec =>
      rw [vumapRanges, if_neg hsome.2] at hrun
      split at hrun
      · cases hrun
      · next hoffset =>
        simp [physicalBytes, requested, bytesFrom, Nat.sub_eq_zero_iff_le, hoffset] at hnone

/-- Two pages next to each other, and room left. -/
theorem vmVumapVector_adjacent : physicalBytes [(8188, 8)] = (requested [(4090, 10)] 2).map
    (pgdVa2pa fun page => some (page * 4096 + 4096)) :=
  (vmVumapVector_translates (fun page => some (page * 4096 + 4096)) [(4090, 10)] 2 4 [(8188, 8)]
    (by decide)).2.2 (by decide)

end Soda.Storpu
