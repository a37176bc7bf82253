import Soda.Ftl.Segments

/-!
# The data cache refines a flat sector store

Reads, writes, writes of zeroes and flushes, one after another, over any layer
that keeps the sectors written to it: every read returns for every sector the
content of the last write to it.
-/

namespace Soda

variable {D μ : Type}

open Prog Sys List DataCache Store

/-! ### One request -/

def Store.serve [Zero D] (store : Store D) (req : Request D) : Store D :=
  match req.type with
  | .write => store.absorbAll (hostTxns req.data 0 (segments req))
  | .writeZeroes => store.absorbAll (hostTxns (fun _ => 0) 0 (segments req))
  | _ => store

def ReqType.Writes (type : ReqType) : Prop := type = .write ∨ type = .writeZeroes

def ReqType.Flushes (type : ReqType) : Prop := type = .flush ∨ type = .flushData ∨ type = .sync

section Serve

variable {lower : Tid → Wait → Sys D μ → Option (Answer D × Sys D μ)} {env : Env D}
  {tolerated : Fault → Prop} {virgin : D → Prop} {layer : MappingLayer lower env tolerated virgin}
  {back : μ} {store : Store D} {cache : DataCache D} {req : Request D} {s : Sys D μ}
  {tick credits : ℕ}

theorem wp_allocTxns {rules : Rules (Sys D μ) Wait (Answer D) Fault}
    (hreliable : env.Reliable) (count : ℕ) {post : Bool → Sys D μ → Prop}
    (hpost : ∀ tick', post true (s.dc cache back tick')) :
    wp rules (allocTxns env count) post (s.dc cache back tick) := by
  induction count generalizing tick with
  | zero => exact hpost tick
  | succ count ih =>
    simp only [allocTxns, wp_bind, wp_allocMem, tick_dc, hreliable _, decide_true,
      if_true, advance_dc]
    exact ih

/-- `process_io_request` on pages that the layer below serves. -/
theorem wp_processIoRequest [Zero D] (hreliable : env.Reliable) (htypes : req.InTypes)
    (hio : ¬req.type.Flushes) (hserves : ∀ txn ∈ segments req, layer.Serves back txn.nsid txn.lpa)
    (hlength : req.type.Writes → maxIovecs < (segments req).length ∨
      cache.capacityPages < (segments req).length → tolerated .nullPointer)
    (hcached : Cached layer (credits + (segments req).length) cache unheld back store)
    {post : Status × List D → Sys D μ → Prop} (hdone : ∀ cache' back' tick' data,
      Cached layer credits cache' unheld back' (store.serve req) →
      (∀ nsid lpa, layer.Serves back nsid lpa → layer.Serves back' nsid lpa) →
      cache'.capacityPages = cache.capacityPages →
      (req.type = .read → List.Forall₂ (Served store virgin)
        ((segments req).flatMap Txn.positions) data) → post (none, data) (s.dc cache' back' tick'))
    (hfailed : ∀ s' tick', req.type = .writeZeroes →
      (∀ txn ∈ segments req, cache.find txn.nsid txn.lpa ≠ none) →
      env.stray tick' ≠ none → post (env.stray tick', []) s') :
    wp (aloneOver lower env tolerated False)
      (processIoRequest env layer.dispatch req) post (s.dc cache back tick) := by
  have hpages := segments_pages_nodup htypes
  have hexact : ∀ txn ∈ segments req, txn.Exact := fun txn htxn => (segments_pieces htxn).1
  have hfits : ∀ txn ∈ segments req, BitmapFits txn.bitmap := fun txn htxn =>
    (segments_pieces htxn).2.2.2.2.1
  have hnew : ∀ txn ∈ segments req, txn.entry = none := fun txn htxn =>
    (segments_pieces htxn).2.2.2.2.2
  simp only [processIoRequest, segmentUserRequest, wp_bind]
  apply wp_allocTxns hreliable
  intro tick'
  simp only [wp_pure, if_true, dcProcessRequest]
  cases htype : req.type with
  | read =>
    simp only
    refine wp_handleCachedRead hreliable ?_ hexact hserves hpages hcached ?_
    · intro txn htxn
      rw [(segments_pieces htxn).2.2.2.1, if_pos htype]
    · intro cache' back' tick'' data hserved hcached' hserves' halike
      refine hdone cache' back' tick'' data ?_ hserves' halike.capacity_eq fun _ => hserved
      simp only [serve, htype]
      exact hcached'
  | write =>
    have hwrites : req.type.Writes := .inl htype
    simp only [wp_bind]
    refine wp_writeBuffers hreliable (hlength hwrites) hnew hexact hfits hserves
      hpages hcached ?_ (by simp)
    intro cache' back' tick'' hcached' hserves' hcapacity
    refine hdone cache' back' tick'' [] ?_ hserves' hcapacity ?_
    · simp only [serve, htype]
      exact hcached'
    · intro hread
      rw [htype] at hread
      exact absurd hread (by simp)
  | writeZeroes =>
    have hwrites : req.type.Writes := .inr htype
    simp only [wp_bind]
    refine wp_writeBuffers hreliable (hlength hwrites) hnew hexact hfits hserves
      hpages hcached ?_ ?_
    · intro cache' back' tick'' hcached' hserves' hcapacity
      refine hdone cache' back' tick'' [] ?_ hserves' hcapacity ?_
      · simp only [serve, htype]
        exact hcached'
      · intro hread
        rw [htype] at hread
        exact absurd hread (by simp)
    · intro s' _ hfound hstray
      exact hfailed s' tick' htype hfound hstray
  | flush => exact absurd (.inl htype) hio
  | flushData => exact absurd (.inr (.inl htype)) hio
  | sync => exact absurd (.inr (.inr htype)) hio

/-- `ftl_process_request`, as far as the data cache sees it. -/
def serveRequest [Zero D] (env : Env D) (dispatch : Dispatch D μ)
    (req : Request D) : Coro D μ (Status × List D) :=
  match req.type with
  | .flush | .flushData | .sync => do
      dcFlushNs (runFlushers env dispatch) req.nsid
      pure (none, [])
  | _ => processIoRequest env dispatch req

theorem serveRequest_flush [Zero D] {dispatch : Dispatch D μ}
    (htype : req.type.Flushes) : serveRequest env dispatch req = (do
      dcFlushNs (runFlushers env dispatch) req.nsid
      pure (none, [])) := by
  rcases htype with htype | htype | htype <;> simp only [serveRequest, htype]

theorem serveRequest_io [Zero D] {dispatch : Dispatch D μ} (htype : ¬req.type.Flushes) :
    serveRequest env dispatch req = processIoRequest env dispatch req := by
  cases hreq : req.type with
  | read | write | writeZeroes => simp only [serveRequest, hreq]
  | flush => exact absurd (.inl hreq) htype
  | flushData => exact absurd (.inr (.inl hreq)) htype
  | sync => exact absurd (.inr (.inr hreq)) htype

/-- The requests one after another, up to the first that fails. -/
def runRequests [Zero D] (env : Env D) (dispatch : Dispatch D μ) :
    List (Request D) → Coro D μ (List (Status × List D))
  | [] => pure []
  | req :: reqs => do
      let answer ← serveRequest env dispatch req
      if answer.1 = none then do
        let answers ← runRequests env dispatch reqs
        pure (answer :: answers)
      else pure [answer]

end Serve

/-! ### Sector numbers -/

/-- The last content of each sector of each namespace. -/
abbrev SectorStore (D : Type) := ℕ → ℕ → Option D

namespace SectorStore

/-- `count` sectors from `start` on; sector numbers have 64 bits. -/
def write (sectors : SectorStore D) (nsid start count : ℕ) (data : ℕ → D) :
    SectorStore D := fun other sector =>
  let index := (sector + (2 ^ 64 - start)) % 2 ^ 64
  if other = nsid ∧ sector < 2 ^ 64 ∧ index < count then some (data index)
  else sectors other sector

def apply [Zero D] (sectors : SectorStore D) (req : Request D) : SectorStore D :=
  match req.type with
  | .write => sectors.write req.nsid req.startLba req.sectorCount req.data
  | .writeZeroes => sectors.write req.nsid req.startLba req.sectorCount fun _ => 0
  | _ => sectors

/-- A read returns the content of every sector that has one. -/
structure ReadsBack (sectors : SectorStore D) (req : Request D) (data : List D) : Prop where
  length_eq : data.length = req.sectorCount
  last : ∀ index < req.sectorCount, ∀ value, sectors req.nsid (req.sectorAt index) = some value →
      data[index]? = some value

/-- The answers to a sequence of requests, up to the first failure. -/
def Answers [Zero D] : SectorStore D → List (Request D) → List (Status × List D) → Prop
  | _, [], answers => answers = []
  | sectors, req :: reqs, answers =>
    ∃ answer rest, answers = answer :: rest ∧ if answer.1 = none then
        (req.type = .read → sectors.ReadsBack req answer.2) ∧ (sectors.apply req).Answers reqs rest
      else rest = []

def ofStore (store : Store D) : SectorStore D := fun nsid sector =>
  store nsid (sector / sectorsPerFlashPg) (sector % sectorsPerFlashPg)

end SectorStore

theorem position_eq {nsid sector nsid' sector' : ℕ} :
    position nsid sector = position nsid' sector' ↔ nsid = nsid' ∧ sector = sector' := by
  simp only [position, Prod.mk.injEq, sectorsPerFlashPg]
  omega

namespace SectorStore

variable [Zero D] {store : Store D} {req : Request D}

theorem ofStore_absorbAll (htypes : req.InTypes) (data : ℕ → D) :
    ofStore (store.absorbAll (hostTxns data 0 (segments req))) =
      (ofStore store).write req.nsid req.startLba req.sectorCount data := by
  funext nsid sector
  have hexact : ∀ txn ∈ segments req, txn.Exact := fun txn htxn => (segments_pieces htxn).1
  have haligned : ∀ txn ∈ segments req, txn.Aligned := fun txn htxn => (segments_pieces htxn).2.1
  have hstart := htypes.startLba_lt
  have hcount := htypes.sectorCount_lt
  simp only [write]
  split
  · rename_i hinside
    obtain ⟨rfl, hsector, hindex⟩ := hinside
    have hat : ((segments req).flatMap
        Txn.positions)[(sector + (2 ^ 64 - req.startLba)) % 2 ^ 64]? =
          some (position req.nsid sector) := by
      rw [segments_positions htypes, getElem?_map,
        getElem?_range hindex, Option.map_some, Request.sectorAt]
      congr 2
      omega
    rw [ofStore, absorbAll_hostTxns_at (segments_pages_nodup htypes) hexact hat, zero_add]
  · rename_i houtside
    refine absorbAll_hostTxns_off hexact haligned ?_
    rw [segments_positions htypes]
    intro hmem
    obtain ⟨index, hindex, hsame⟩ := mem_map.mp hmem
    obtain ⟨rfl, rfl⟩ := position_eq.mp hsame
    rw [mem_range] at hindex
    refine houtside ⟨rfl, Nat.mod_lt _ (by norm_num), ?_⟩
    rw [Request.sectorAt]
    omega

theorem ofStore_serve (htypes : req.InTypes) :
    ofStore (store.serve req) = (ofStore store).apply req := by
  rw [serve, apply]
  cases req.type with
  | write => exact ofStore_absorbAll htypes req.data
  | writeZeroes => exact ofStore_absorbAll htypes fun _ => 0
  | read | flush | flushData | sync => rfl

/-- What the data cache answers is what the flat store has. -/
theorem readsBack_of_served {virgin : D → Prop} {data : List D} (htypes : req.InTypes)
    (hserved : List.Forall₂ (Served store virgin) ((segments req).flatMap Txn.positions) data) :
    (ofStore store).ReadsBack req data := by
  rw [segments_positions htypes, forall₂_map_left_iff] at hserved
  have hlength := hserved.length_eq
  rw [length_range] at hlength
  refine ⟨hlength.symm, ?_⟩
  intro index hindex value hvalue
  have hlt : index < data.length := by omega
  have hthis := (forall₂_iff_get.mp hserved).2 index (by rw [length_range]; exact hindex) hlt
  rw [get_eq_getElem, get_eq_getElem, getElem_range] at hthis
  rw [getElem?_eq_getElem hlt, hthis.last value hvalue]

end SectorStore

/-! ### Sequences of requests -/

def MappingLayer.weaken {lower : Tid → Wait → Sys D μ → Option (Answer D × Sys D μ)} {env : Env D}
    {tolerated more : Fault → Prop} {virgin : D → Prop}
    (layer : MappingLayer lower env tolerated virgin)
    (hmore : ∀ fault, tolerated fault → more fault) : MappingLayer lower env more virgin where
  dispatch := layer.dispatch
  Holds := layer.Holds
  Serves := layer.Serves
  holds_mono := layer.holds_mono
  write_spec := fun hholds hwrites hpages =>
    wp_alone_weaken hmore (layer.write_spec hholds hwrites hpages)
  read_spec := fun hholds hreads => wp_alone_weaken hmore (layer.read_spec hholds hreads)

/-- A layer that takes every page and never runs out of room. -/
structure MappingLayer.Boundless
    {lower : Tid → Wait → Sys D μ → Option (Answer D × Sys D μ)} {env : Env D}
    {tolerated : Fault → Prop} {virgin : D → Prop}
    (layer : MappingLayer lower env tolerated virgin) : Prop where
  serves : ∀ back nsid lpa, layer.Serves back nsid lpa
  holds : ∀ credits back store, layer.Holds 0 back store → layer.Holds credits back store

section Run

variable [Zero D] {lower : Tid → Wait → Sys D μ → Option (Answer D × Sys D μ)} {env : Env D}
  {tolerated : Fault → Prop} {virgin : D → Prop} {layer : MappingLayer lower env tolerated virgin}
  {s : Sys D μ} {store : Store D}

/-- Nothing is going on and the cache holds the store. -/
structure Resting (layer : MappingLayer lower env tolerated virgin)
    (s : Sys D μ) (store : Store D) : Prop where
  cached : Cached layer 0 s.cache unheld s.back store
  idle : s.flusher.Idle

omit [Zero D] in
theorem Resting.enough (hboundless : layer.Boundless)
    (hresting : Resting layer s store) (credits : ℕ) :
    Cached layer credits s.cache unheld s.back store := by
  obtain ⟨low, hholds, htracks⟩ := hresting.cached.tracks
  exact ⟨hresting.cached.inv, ⟨low, hboundless.holds credits s.back low hholds, htracks⟩,
    hresting.cached.fits, hresting.cached.served⟩

/-- One request. -/
theorem wp_serveRequest (hreliable : env.Reliable) (hboundless : layer.Boundless) {req : Request D}
    (htypes : req.InTypes) (hlength : req.type.Writes → maxIovecs < (segments req).length ∨
      s.cache.capacityPages < (segments req).length → tolerated .nullPointer)
    (hresting : Resting layer s store) :
    wp (aloneOver lower env tolerated False) (serveRequest env layer.dispatch req)
      (fun answer s' => answer.1 = none → Resting layer s' (store.serve req) ∧
        s'.cache.capacityPages = s.cache.capacityPages ∧
        (req.type = .read → (SectorStore.ofStore store).ReadsBack req answer.2)) s := by
  by_cases htype : req.type.Flushes
  · have hsame : store.serve req = store := by
      rcases htype with htype | htype | htype <;> simp only [serve, htype]
    rw [serveRequest_flush htype, hsame, ← dc_self s, wp_bind]
    refine wp_dcFlushNs hreliable hresting.idle (hresting.enough hboundless (0 + _)) ?_
    intro slots cache back tick flusher hflushed _ hidle _
    refine ⟨⟨hflushed.cached.mono (Nat.zero_le _), hidle⟩, hflushed.cleaned.capacity_eq, ?_⟩
    intro hread
    rcases htype with htype | htype | htype <;> simp [htype] at hread
  · rw [serveRequest_io htype, ← dc_self s]
    refine wp_processIoRequest hreliable htypes htype (fun _ _ => hboundless.serves _ _ _) hlength
      (hresting.enough hboundless (0 + _)) ?_ ?_
    · intro cache back tick data hcached _ hcapacity hread _
      refine ⟨⟨hcached, hresting.idle⟩, hcapacity, ?_⟩
      intro hreq
      exact SectorStore.readsBack_of_served htypes (hread hreq)
    · intro s' tick' _ _ hstray hnone
      exact absurd hnone hstray

/-- Requests one after another. -/
theorem wp_runRequests (hreliable : env.Reliable)
    (hboundless : layer.Boundless) {capacity : ℕ} (reqs : List (Request D))
    (hfits : ∀ req ∈ reqs, req.InTypes ∧ (req.type.Writes → (segments req).length ≤ capacity))
    (hlength : ∀ req ∈ reqs, req.type.Writes →
      maxIovecs < (segments req).length → tolerated .nullPointer) (hresting : Resting layer s store)
    (hcapacity : s.cache.capacityPages = capacity) :
    wp (aloneOver lower env tolerated False) (runRequests env layer.dispatch reqs)
      (fun answers _ => (SectorStore.ofStore store).Answers reqs answers) s := by
  induction reqs generalizing s store with
  | nil => rfl
  | cons req reqs ih =>
    obtain ⟨htypes, hroom⟩ := hfits req mem_cons_self
    rw [runRequests, wp_bind]
    refine wp_mono (wp_serveRequest hreliable hboundless htypes ?_ hresting) ?_
    · intro hwrites hlong
      rw [hcapacity] at hlong
      exact hlength req mem_cons_self hwrites (hlong.resolve_right (not_lt.mpr (hroom hwrites)))
    · intro answer s' hanswer
      by_cases hnone : answer.1 = none
      · obtain ⟨hresting', hcapacity', hread⟩ := hanswer hnone
        rw [if_pos hnone, wp_bind]
        refine wp_mono (ih (fun other hother =>
          hfits other (.tail req hother)) (fun other hother =>
          hlength other (.tail req hother)) hresting'
          (hcapacity'.trans hcapacity)) ?_
        intro answers _ hanswers
        rw [SectorStore.ofStore_serve htypes] at hanswers
        refine ⟨answer, answers, rfl, ?_⟩
        rw [if_pos hnone]
        exact ⟨hread, hanswers⟩
      · rw [if_neg hnone]
        refine ⟨answer, [], rfl, ?_⟩
        rw [if_neg hnone]

/-- An empty cache holds what lies below. -/
theorem resting_init {capacity : ℕ} (hholds : layer.Holds 0 s.back store)
    (hcache : s.cache = init capacity) (hidle : s.flusher.Idle) : Resting layer s store := by
  refine ⟨⟨?_, ⟨store, hholds, ?_⟩, ?_, ?_⟩, hidle⟩
  · rw [hcache]
    exact init_inv capacity
  · rw [hcache]
    exact ⟨nofun, fun _ _ _ _ => rfl⟩
  · rw [hcache]
    exact nofun
  · rw [hcache]
    exact nofun

end Run

/-! ### The simplest layer -/

def storeDispatch : Dispatch D (Store D) := fun txns => do
  let s ← get
  modify fun s => { s with
    back := s.back.absorbAll (txns.filter fun txn => txn.type = .write) }
  pure (none, txns.map fun txn =>
    match txn.type with
    | .read => { txn with data := fun sector =>
      (s.back txn.nsid txn.lpa sector).getD (txn.data sector) }
    | .write => txn)

def storeLayer (lower : Tid → Wait → Sys D (Store D) → Option (Answer D × Sys D (Store D)))
    (env : Env D) : MappingLayer lower env (fun _ => False) fun _ => True where
  dispatch := storeDispatch
  Holds := fun _ back store => back = store
  Serves := fun _ _ _ => True
  holds_mono := fun _ hholds => hholds
  write_spec := by
    rintro s store txns credits rfl hwrites -
    rw [storeDispatch, wp_bind, wp_get, wp_bind, wp_modify, wp_pure]
    refine ⟨rfl, ?_, rfl, fun _ _ hserved => hserved, ?_⟩
    · rw [map_map]
      apply map_congr_left
      intro txn htxn
      rw [Function.comp_apply, (hwrites txn htxn).1]
    · rw [filter_eq_self.mpr]
      intro txn htxn
      exact decide_eq_true (hwrites txn htxn).1
  read_spec := by
    rintro s store txns credits rfl hreads
    rw [storeDispatch, wp_bind, wp_get, wp_bind, wp_modify, wp_pure]
    refine ⟨rfl, ?_, rfl, fun _ _ hserved => hserved, ?_⟩
    · rw [forall₂_map_right_iff, forall₂_same]
      intro txn htxn
      rw [(hreads txn htxn).1]
      refine ⟨rfl, rfl, rfl, ?_, fun _ _ _ => trivial⟩
      intro sector value _ hvalue
      simp only [hvalue, Option.getD_some]
    · rw [filter_eq_nil_iff.mpr]
      · rfl
      · intro txn htxn
        simp [(hreads txn htxn).1]

/-- A device whose data cache has two pages, over a store. -/
def storeSys : Sys ℕ (Store ℕ) where
  cache := init 2
  back := fun _ _ _ => none
  current := 0
  flusher := {}
  tick := 0
  log := []

/-- A write over a page boundary, zeroes on a third page, which evicts one of
the first two, and a read. -/
def storeRequests : List (Request ℕ) :=
  [⟨.write, 1, 3, 3, fun index => index + 7⟩, ⟨.writeZeroes, 1, 9, 2, fun _ => 0⟩,
    ⟨.flush, 1, 0, 0, fun _ => 0⟩, ⟨.read, 1, 2, 5, fun _ => 0⟩]

end Soda
