import Soda.Ftl.Segments

/-!
# Scatter lists

`handle_cached_read` and `write_buffers` fill one I/O vector for each
transaction of a request, in an array with room for `maxIovecs`.  The write
path stops before the array is full; the read path does not look.
-/

namespace Soda

open Prog Sys List

variable {D μ : Type}

/-! ### Commands -/

/-- The opcodes that `process_ftl_command` knows. -/
inductive RwOpcode
  | read | write | flush | writeZeroes
  deriving DecidableEq, Repr

def RwOpcode.reqType : RwOpcode → ReqType
  | read => .read
  | write => .write
  | flush => .flush
  | writeZeroes => .writeZeroes

/-- `struct nvme_rw_command`; `data` is what the PRP entries lead to. -/
structure NvmeRwCommand (D : Type) where
  opcode : RwOpcode
  nsid : ℕ
  slba : BitVec 64
  length : BitVec 16
  data : ℕ → D

/-- The request that `process_ftl_command` makes of a command. -/
def NvmeRwCommand.request (cmd : NvmeRwCommand D) : Request D where
  type := cmd.opcode.reqType
  nsid := cmd.nsid
  startLba := cmd.slba.toNat
  sectorCount := cmd.length.toNat + 1
  data := cmd.data

/-! ### The vectors that are filled -/

/-- The first loop of `handle_cached_read` fills one vector for each item it
prepares, in order. -/
def readIovecs (items : List (ReadItem D)) : List ℕ := range items.length

/-- The first loop of `write_buffers` fills the vector of every transaction for
which it has an entry. -/
def writeIovecs (txns : List (Txn D)) : List ℕ :=
  (range txns.length).filter fun index => ((txns[index]?.bind Txn.entry).isSome : Bool)

/-- The set-up of a request: the indices of the vectors written. -/
def setupIovecs [Zero D] (env : Env D) (req : Request D) : Coro D μ (List ℕ) := do
  let memory ← segmentUserRequest env req
  match memory with
  | none => pure []
  | some txns =>
    match req.type with
    | .read => do
        let (_, items) ← prepareReads env txns
        pure (readIovecs items)
    | .write | .writeZeroes => do
        let s ← get
        let (_, txns, _, _) ← acquireEntries env
          (decide (req.type = .writeZeroes)) 0 (env.stray s.tick) txns
        pure (writeIovecs txns)
    | _ => pure []

/-- However the coroutines are scheduled and whatever fails, the vectors filled
for the command are inside the array. -/
def IovecsInBounds [Zero D] (μ : Type) (cmd : NvmeRwCommand D) : Prop :=
  ∀ (env : Env D) (s : Sys D μ), wp (havoc fun _ => True) (setupIovecs env cmd.request)
      (fun indices _ => ∀ index ∈ indices, index < maxIovecs) s

/-! ### Writes -/

section Writes

variable [Zero D] {env : Env D} {s : Sys D μ}

/-- A transaction is given an entry only as long as there is a vector left. -/
theorem wp_acquireEntries_bound {zeroes : Bool} {index : ℕ} {status : Status}
    {txns : List (Txn D)} (hentries : ∀ txn ∈ txns, txn.entry = none) :
    wp (havoc fun _ => True) (acquireEntries env zeroes index status txns)
      (fun result _ => ∀ k : ℕ, (result.2.1[k]?.bind Txn.entry).isSome →
        index + k < maxIovecs) s := by
  induction txns generalizing index status s with
  | nil => simp [acquireEntries]
  | cons txn txns ih =>
    have hnone : ∀ k : ℕ, ((txn :: txns)[k]?.bind Txn.entry).isSome = false := by
      intro k
      cases hget : (txn :: txns)[k]? with
      | none => rfl
      | some item => simp [hentries item (mem_of_getElem? hget)]
    rw [acquireEntries, wp_ite]
    split
    · simp [hnone]
    · rename_i hroom
      rw [wp_bind]
      refine wp_mono wp_havoc_trivial ?_
      rintro ⟨status, slot, writebacks⟩ s' -
      cases slot with
      | none => simp [hnone]
      | some slot =>
        have hrest : ∀ s' : Sys D μ, wp (havoc fun _ => True)
            (acquireEntries env zeroes (index + 1) status txns)
            (fun result _ => ∀ k : ℕ, (({ txn with entry := some slot } ::
              result.2.1)[k]?.bind Txn.entry).isSome → index + k < maxIovecs) s' := by
          intro s'
          refine wp_mono (ih fun item hitem => hentries item (.tail txn hitem)) ?_
          intro result _ hbound k hk
          cases k with
          | zero => omega
          | succ k =>
            have hlt := hbound k hk
            omega
        simp only [wp_ite, wp_bind, wp_modify, wp_pure]
        split
        · exact hrest _
        · exact hrest _

end Writes

/-! ### Reads -/

section Reads

variable {env : Env D} {s : Sys D μ}

variable {txns : List (Txn D)} {rules : Rules (Sys D μ) Wait (Answer D) Fault}

theorem wp_prepareReads_length :
    wp (havoc fun _ => True) (prepareReads env txns)
      (fun result _ => result.2.length ≤ txns.length) s := by
  induction txns generalizing s with
  | nil => exact le_rfl
  | cons txn txns ih =>
    rw [prepareReads, wp_bind]
    refine wp_mono wp_havoc_trivial ?_
    rintro (_ | item) s' -
    · exact Nat.zero_le _
    · rw [wp_bind]
      refine wp_mono ih ?_
      intro result s' hlength
      exact Nat.succ_le_succ hlength

/-- With an empty cache and enough memory every transaction gets a buffer and
fills a vector. -/
theorem wp_prepareReads_misses (hreliable : env.Reliable) (hempty : s.cache.tree = [])
    {post : Status × List (ReadItem D) → Sys D μ → Prop}
    (hwp : wp rules (prepareReads env txns) post s) :
    ∃ result s', result.2.length = txns.length ∧ post result s' := by
  induction txns generalizing s post with
  | nil => exact ⟨_, _, rfl, hwp⟩
  | cons txn txns ih =>
    have hmiss : s.cache.find txn.nsid txn.lpa = none := by
      rw [DataCache.find, hempty]
      rfl
    simp only [prepareReads, prepareRead, wp_bind, wp_get, hmiss, wp_allocBuffer,
      hreliable _, if_true, wp_pure] at hwp
    obtain ⟨result, s', hlength, hpost⟩ := ih (s := { s with tick := s.tick + 1 }) hempty hwp
    exact ⟨_, s', congrArg (· + 1) hlength, hpost⟩

theorem wp_allocTxns_iff (hreliable : env.Reliable) {count : ℕ} {post : Bool → Sys D μ → Prop} :
    wp rules (allocTxns env count) post s ↔ post true { s with tick := s.tick + count } := by
  induction count generalizing s with
  | zero => exact Iff.rfl
  | succ count ih =>
    simp only [allocTxns, wp_bind, wp_allocMem, hreliable _, decide_true, if_true,
      ih, add_assoc, add_comm 1 count]

end Reads

/-! ### Commands of any length -/

section Commands

variable [Zero D] {cmd : NvmeRwCommand D}

/-- The flash pages that a command touches. -/
theorem length_segments_request :
    (segments cmd.request).length = (cmd.slba.toNat % sectorsPerFlashPg + (cmd.length.toNat + 1) +
        (sectorsPerFlashPg - 1)) / sectorsPerFlashPg :=
  length_segmentLoop (Nat.succ_pos _) le_rfl

/-- The write path keeps inside the array whatever the length. -/
theorem wp_setup_writes {env : Env D} {s : Sys D μ} (zeroes : Bool) :
    wp (havoc fun _ => True) (do
        let s ← get
        let (_, txns, _, _) ← acquireEntries env zeroes 0 (env.stray s.tick) (segments cmd.request)
        pure (writeIovecs txns))
      (fun indices _ => ∀ index ∈ indices, index < maxIovecs) s := by
  rw [wp_bind, wp_get, wp_bind]
  refine wp_mono (wp_acquireEntries_bound fun txn htxn => (segments_pieces htxn).2.2.2.2.2) ?_
  rintro ⟨status, txns, writebacks, complete⟩ s' hbound index hindex
  rw [writeIovecs, mem_filter] at hindex
  have hlt := hbound index hindex.2
  rwa [zero_add] at hlt

theorem iovecsInBounds_of_fits
    (hfits : cmd.opcode = .read → (segments cmd.request).length ≤ maxIovecs) :
    IovecsInBounds μ cmd := by
  intro env s
  rw [setupIovecs, segmentUserRequest, wp_bind, wp_bind]
  refine wp_mono wp_havoc_trivial ?_
  rintro (_ | _) s' -
  · simp
  · have htype : cmd.request.type = cmd.opcode.reqType := rfl
    simp only [wp_pure, if_true, htype]
    cases hopcode : cmd.opcode with
    | read =>
      rw [RwOpcode.reqType, wp_bind]
      refine wp_mono wp_prepareReads_length ?_
      intro result s' hlength index hindex
      rw [readIovecs, mem_range] at hindex
      exact hindex.trans_le (hlength.trans (hfits hopcode))
    | write | writeZeroes => exact wp_setup_writes _
    | flush => exact fun index hindex => absurd hindex not_mem_nil

/-- A read of more pages than the array has vectors, with enough memory and
nothing in the cache. -/
theorem not_iovecsInBounds_of_long [Inhabited μ] (hread : cmd.opcode = .read)
    (hlong : maxIovecs < (segments cmd.request).length) : ¬IovecsInBounds μ cmd := by
  intro hbounds
  let env : Env D := ⟨deviceConfig, ⟨fun _ => 0, fun _ _ _ => false⟩,
    fun _ => none, fun _ _ => 0, fun _ => none⟩
  let s : Sys D μ := ⟨DataCache.init 0, default, 0, {}, 0, []⟩
  have hreliable : env.Reliable := fun _ => rfl
  -- a run of the set-up in which nothing is found in the cache
  have hmisses : ∀ s' : Sys D μ, s'.cache.tree = [] →
      wp (havoc fun _ => True) (prepareReads env (segments cmd.request))
        (fun result _ => ∀ index ∈ readIovecs result.2, index < maxIovecs) s' → False := by
    intro s' hempty hwp
    obtain ⟨result, _, hlength, hbound⟩ := wp_prepareReads_misses hreliable hempty hwp
    have hlt := hbound maxIovecs (by rw [readIovecs, mem_range]; omega)
    omega
  have hwp := hbounds env s
  have htype : cmd.request.type = .read := congrArg RwOpcode.reqType hread
  simp only [setupIovecs, segmentUserRequest, wp_bind, wp_allocTxns_iff hreliable,
    if_true, wp_pure, htype] at hwp
  exact hmisses _ rfl hwp

/-- The vectors filled for a command are inside the array exactly if it is not
a read of more pages than the array has vectors. -/
theorem iovecsInBounds_iff [Inhabited μ] (cmd : NvmeRwCommand D) :
    IovecsInBounds μ cmd ↔ (cmd.opcode = .read →
      cmd.slba.toNat % sectorsPerFlashPg + (cmd.length.toNat + 1) ≤
        sectorsPerFlashPg * maxIovecs) := by
  have hlength : (segments cmd.request).length = _ := length_segments_request
  simp only [sectorsPerFlashPg, maxIovecs] at hlength ⊢
  constructor
  · intro hbounds hread
    by_contra hlong
    refine not_iovecsInBounds_of_long hread ?_ hbounds
    simp only [maxIovecs]
    omega
  · intro hfits
    apply iovecsInBounds_of_fits
    intro hread
    have hle := hfits hread
    simp only [maxIovecs]
    omega

end Commands

/-- A device before its first start. -/
instance : Inhabited (Backend D) where
  default :=
    { domains := fun _ => ⟨false, 0, .cwdp, [], XlatePcache.init 0⟩
      planes := fun _ => PlaneAllocator.init deviceGeometry
      flash := fun _ => .xlate fun _ => noPpa
      outstanding := []
      manifest := ⟨Bitmap.zero namespaceMax, Bitmap.zero namespaceMax,
        fun _ => ⟨0, 0, 0⟩⟩
      files := ⟨⟨none, none⟩, none, fun _ => none⟩ }

def longRead : NvmeRwCommand ℕ where
  opcode := .read
  nsid := 1
  slba := 0
  length := 1024
  data := fun _ => 0

theorem not_iovecsInBounds_longRead : ¬IovecsInBounds (Backend ℕ) longRead := by
  apply not_iovecsInBounds_of_long rfl
  rw [length_segments_request]
  decide

end Soda
