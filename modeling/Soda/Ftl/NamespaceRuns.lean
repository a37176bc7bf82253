import Soda.Ftl.NamespaceState

/-!
# Runs of namespace calls

A run is a sequence of namespace calls, saves of the manifest, power cycles
followed by `ftl_init`, and other traffic between them, each with its own
failures.  `ftl_init` attaches the active namespaces of the manifest one after
the other and panics when one of them cannot be attached.
-/

namespace Soda

variable {D : Type}

open Function Prog Sys List

/-! ### Starts -/

/-- The namespaces of `rest` are still to be looked at by `ftl_init`. -/
structure NsView.Booting (v : NsView) (rest : List ℕ) : Prop where
  wf : v.manifest.WellFormed
  file : ∀ manifest, v.file = some (some manifest) → manifest.WellFormed
  attached_iff : ∀ index < namespaceMax, v.attached (index + 1) = true ↔
    v.manifest.activeNamespace.getBit index = true ∧ index ∉ rest
  loaded : ∀ index < namespaceMax, v.attached (index + 1) = true →
    v.length (index + 1) = totalXlatePages (v.total (index + 1))

namespace NsView.Booting

variable {v : NsView} {index : ℕ} {rest : List ℕ}

theorem inv (hboot : v.Booting []) : v.Inv := by
  refine ⟨hboot.wf, hboot.file, fun index hindex => ?_, hboot.loaded⟩
  rw [hboot.attached_iff index hindex]
  simp

theorem skip (hboot : v.Booting (index :: rest))
    (hinactive : v.manifest.activeNamespace.getBit index = false) : v.Booting rest := by
  refine ⟨hboot.wf, hboot.file, fun other hother => ?_, hboot.loaded⟩
  rw [hboot.attached_iff other hother, mem_cons, not_or]
  constructor
  · exact fun h => ⟨h.1, h.2.2⟩
  · rintro ⟨hactive, hrest⟩
    refine ⟨hactive, ?_, hrest⟩
    rintro rfl
    rw [hinactive] at hactive
    cases hactive

theorem attach (hboot : v.Booting (index :: rest)) (hrest : index ∉ rest)
    (hactive : v.manifest.activeNamespace.getBit index = true) (total : ℕ) :
    (v.registered index total (totalXlatePages total)).Booting rest := by
  refine ⟨hboot.wf, hboot.file, fun other hother => ?_, fun other hother hattached => ?_⟩
  · simp only [registered]
    by_cases hsame : other = index
    · subst hsame
      simp [hactive, hrest]
    · have hne : other + 1 ≠ index + 1 := by omega
      rw [update_of_ne hne, hboot.attached_iff other hother]
      simp [hsame]
  · simp only [registered] at hattached ⊢
    by_cases hsame : other + 1 = index + 1
    · rw [hsame, update_self, update_self]
    · rw [update_of_ne hsame] at hattached
      rw [update_of_ne hsame, update_of_ne hsame]
      exact hboot.loaded other hother hattached

end NsView.Booting

/-- There is memory for the directory of every namespace that `ftl_init`
attaches. -/
def DirectoriesFit (env : Env D) (wipeMt : Bool) :
    List ℕ → Sys D (Backend D) → Prop
  | [], _ => True
  | index :: rest, s =>
    (s.back.manifest.activeNamespace.getBit index = true → DirectoryFits env s (index + 1)) ∧
    ∀ s', runAlone env (attachActive env wipeMt [index]) s = .done ((), s') →
      DirectoriesFit env wipeMt rest s'

section Start

variable {env : Env D} {s : Sys D (Backend D)} {wipeMt : Bool} {index : ℕ} {rest : List ℕ}

theorem wp_attachActive_cons {post : Unit → Sys D (Backend D) → Prop} :
    wp (nsRules env) (attachActive env wipeMt (index :: rest)) post s ↔
      wp (nsRules env) (attachActive env wipeMt [index])
        (fun _ middle => wp (nsRules env) (attachActive env wipeMt rest) post middle) s := by
  simp only [attachActive, wp_bind, wp_get, wp_ite, wp_pure]

theorem wp_attachActive_one (hindex : index < namespaceMax)
    (hrest : index ∉ rest) (hboot : (nsView s).Booting (index :: rest))
    (hfits : s.back.manifest.activeNamespace.getBit index = true →
      DirectoryFits env s (index + 1)) :
    wp (nsRules env) (attachActive env wipeMt [index])
      (fun _ s' => (nsView s').Booting rest) s := by
  simp only [attachActive, wp_bind, wp_get, wp_ite, wp_pure]
  split
  · rename_i hactive
    have hfree : (nsView s).attached (index + 1) = false := by
      rw [← Bool.not_eq_true, hboot.attached_iff index hindex]
      simp
    apply wp_amuAttachDomain hindex hfree
    · intro status s' hne _
      rw [wp_assert, if_neg (by simpa using hne)]
      trivial
    · intro s' hmemory hview
      rw [wp_assert, if_pos (by simp), hview]
      have hlength : directoryLength env (s.tick + 1)
          (logicalPages (s.back.manifest.namespaces index).sizeBlocks) = totalXlatePages
            (logicalPages (s.back.manifest.namespaces index).sizeBlocks) :=
        (hfits hactive).length_eq hmemory
      rw [hlength]
      exact hboot.attach hrest hactive _
  · rename_i hinactive
    exact hboot.skip (Bool.not_eq_true _ ▸ hinactive)

theorem wp_attachActive (hnodup : rest.Nodup) (hlt : ∀ index ∈ rest, index < namespaceMax)
    (hboot : (nsView s).Booting rest) (hfits : DirectoriesFit env wipeMt rest s) :
    wp (nsRules env) (attachActive env wipeMt rest) (fun _ s' => (nsView s').Inv) s := by
  induction rest generalizing s with
  | nil => exact hboot.inv
  | cons index rest ih =>
    obtain ⟨hnotMem, hrest⟩ := nodup_cons.mp hnodup
    rw [wp_attachActive_cons]
    refine wp_mono (wp_alone_done (wp_attachActive_one
      (hlt index mem_cons_self) hnotMem hboot hfits.1)) ?_
    rintro ⟨⟩ middle ⟨hboot', hexec⟩
    exact ih hrest (fun other hother => hlt other (.tail _ hother)) hboot' (hfits.2 middle hexec)

/-- What `ftl_init` does after a power cycle before it attaches namespaces. -/
def initState [Zero D] (env : Env D) (wipeManifest wipeSsd fullScan : Bool) : AmuM D Unit := do
  modify powerCycle
  initManifest env wipeManifest
  modify (modifyCache fun _ => DataCache.init env.cfg.dataCachePages)
  initBlocks env wipeSsd fullScan

variable (hfile : ∀ manifest, (nsView s).file = some (some manifest) → manifest.WellFormed)
include hfile

theorem wp_restoreManifest
    {post : Status → Sys D (Backend D) → Prop} (hpost : ∀ status s', (status = none →
      ∃ manifest, manifest.WellFormed ∧
        nsView s' = { nsView s with manifest := manifest }) → post status s') :
    wp (nsRules env) (restoreManifest env) post s := by
  simp only [restoreManifest, wp_bind, wp_outcome, wp_get]
  split
  · rename_i manifest hsome
    simp only [wp_ite, wp_bind, wp_modify, wp_pure]
    split
    · exact hpost _ _ fun _ => ⟨manifest, hfile manifest hsome, rfl⟩
    · exact hpost _ _ (by simp)
  · exact hpost _ _ (by simp)

theorem wp_initManifest {wipeManifest : Bool}
    {post : Unit → Sys D (Backend D) → Prop} (hpost : ∀ s', (nsView s').manifest.WellFormed →
      (∀ manifest, (nsView s').file = some (some manifest) → manifest.WellFormed) →
      (nsView s').attached = (nsView s).attached → post () s') :
    wp (nsRules env) (initManifest env wipeManifest) post s := by
  simp only [initManifest, wp_bind, wp_get, wp_outcome, wp_ite, wp_modify, wp_pure]
  split
  · apply wp_saveManifest
    intro status s' hsaves
    have hwf : (resetManifest env.cfg).WellFormed := resetManifest_wellFormed _
    apply hpost
    · rw [hsaves.manifest]
      exact hwf
    · intro manifest hsome
      rcases hsaves.file manifest hsome with hold | rfl
      · exact hfile manifest hold
      · exact hwf
    · rw [hsaves.attached]
      rfl
  · apply wp_restoreManifest
    · exact hfile
    intro status s' hdone
    rw [wp_assert]
    split
    · rename_i hnone
      obtain ⟨manifest, hwf, hview⟩ := hdone (by simpa using hnone)
      apply hpost
      · rw [hview]
        exact hwf
      · rw [hview]
        exact hfile
      · rw [hview]
        rfl
    · trivial

theorem wp_initState [Zero D] {wipeManifest wipeSsd fullScan : Bool} :
    wp (nsRules env) (initState env wipeManifest wipeSsd fullScan)
      (fun _ s' => (nsView s').Booting (range namespaceMax)) s := by
  simp only [initState, wp_bind, wp_modify]
  apply wp_initManifest
  · exact hfile
  intro s' hwf hfile' hattached
  have hoff : ∀ nsid, (nsView s').attached nsid = false := by
    intro nsid
    rw [hattached]
    rfl
  have hboot : (nsView s').Booting (range namespaceMax) := by
    refine ⟨hwf, hfile', fun index hindex => ?_, fun index _ hon => ?_⟩
    · rw [hoff, mem_range]
      simp [hindex]
    · rw [hoff] at hon
      cases hon
  simp only [initBlocks, wp_bind, wp_get]
  split
  · trivial
  · exact hboot

end Start

/-! ### Runs -/

/-- What other requests leave behind: caches, flash and the contents of
translation pages and directories. -/
structure Traffic (D : Type) where
  cache : DataCache D
  planes : Planes
  flash : ℕ → PageData D
  pcache : ℕ → XlatePcache
  mppn : ℕ → ℕ → ℕ

def Traffic.apply (traffic : Traffic D) (s : Sys D (Backend D)) : Sys D (Backend D) :=
  { s with
    cache := traffic.cache
    back := { s.back with
      planes := traffic.planes
      flash := traffic.flash
      domains := fun nsid => { s.back.domains nsid with
        pcache := traffic.pcache nsid
        gtd := (range (s.back.domains nsid).gtd.length).map (traffic.mppn nsid) } } }

inductive NsOp (D : Type)
  | create (sizeBlocks capacityBlocks : ℕ)
  | attach (nsid : ℕ)
  | detach (nsid : ℕ)
  | delete (nsid : ℕ)
  | save
  | start (wipeManifest wipeSsd wipeMt fullScan : Bool)
  | other (traffic : Traffic D)

section Runs

variable [Zero D]

def nsProg (env : Env D) : NsOp D → AmuM D Status
  | .create sizeBlocks capacityBlocks => do
      let result ← ftlCreateNamespace env sizeBlocks capacityBlocks
      pure result.1
  | .attach nsid => ftlAttachNamespace env nsid
  | .detach nsid => ftlDetachNamespace env nsid
  | .delete nsid => ftlDeleteNamespace env nsid
  | .save => saveManifest env
  | .start wipeManifest wipeSsd wipeMt fullScan => do
      modify powerCycle
      ftlInit env wipeManifest wipeSsd wipeMt fullScan
      pure none
  | .other traffic => do
      modify traffic.apply
      pure none

/-- A call that returns: its return code and the state after it. -/
def nsCall (s : Sys D (Backend D)) (call : Env D × NsOp D) : Option (Status × Sys D (Backend D)) :=
  match runAlone call.1 (nsProg call.1 call.2) s with
  | .done result => some result
  | .fault _ => none
  | .stuck => none

def nsStep (s : Sys D (Backend D)) (call : Env D × NsOp D) : Option (Sys D (Backend D)) :=
  (nsCall s call).map Prod.snd

/-- There is memory for every directory that the call allocates, and the
directory file of an active namespace that is deleted can be examined. -/
def Provided (s : Sys D (Backend D)) (call : Env D × NsOp D) : Prop :=
  match call.2 with
  | .attach nsid => nsAllocated s.back.manifest nsid = true →
      nsActive s.back.manifest nsid = false → DirectoryFits call.1 s nsid
  | .delete nsid => FileSeen call.1 s nsid
  | .start wipeManifest wipeSsd wipeMt fullScan =>
    ∀ s', runAlone call.1 (initState call.1 wipeManifest wipeSsd fullScan) s = .done ((), s') →
        DirectoriesFit call.1 wipeMt (range namespaceMax) s'
  | _ => True

omit [Zero D] in
theorem nsView_other (traffic : Traffic D) (s : Sys D (Backend D)) :
    nsView (traffic.apply s) = nsView s := by
  simp only [nsView, Traffic.apply, length_map, length_range]

variable {s : Sys D (Backend D)} {call : Env D × NsOp D}

theorem wp_nsProg (hinv : (nsView s).Inv) (hprovided : Provided s call) :
    wp (nsRules call.1) (nsProg call.1 call.2) (CallKeeps s) s := by
  obtain ⟨env, op⟩ := call
  cases op with
  | create sizeBlocks capacityBlocks =>
    rw [nsProg, wp_bind]
    exact wp_ftlCreateNamespace hinv sizeBlocks capacityBlocks
  | attach nsid => exact wp_ftlAttachNamespace hinv nsid hprovided
  | detach nsid => exact wp_ftlDetachNamespace hinv nsid
  | delete nsid => exact wp_ftlDeleteNamespace hinv nsid hprovided
  | save =>
    apply wp_saveManifest
    intro status s' hsaves
    have hmanifest : s'.back.manifest = s.back.manifest := hsaves.manifest
    refine ⟨hinv.saves hsaves, fun _ => ?_⟩
    rw [hmanifest]
  | start wipeManifest wipeSsd wipeMt fullScan =>
    have hinit := wp_alone_done (wp_initState hinv.file
      : wp (nsRules env) (initState env wipeManifest wipeSsd fullScan) _ s)
    simp only [initState, wp_bind, wp_modify] at hinit
    simp only [nsProg, ftlInit, wp_bind, wp_modify, wp_pure]
    refine wp_mono hinit fun _ middle hmiddle => ?_
    refine wp_mono hmiddle fun _ ready hready => ?_
    refine wp_mono (wp_attachActive nodup_range (fun index => mem_range.mp) hready.1
      (hprovided ready hready.2)) fun _ s' hdone => ?_
    exact ⟨hdone, fun hne => absurd rfl hne⟩
  | other traffic =>
    refine ⟨?_, fun hne => absurd rfl hne⟩
    rw [nsView_other]
    exact hinv

theorem nsCall_keeps {s' : Sys D (Backend D)} {status : Status}
    (hinv : (nsView s).Inv) (hprovided : Provided s call)
    (hcall : nsCall s call = some (status, s')) : CallKeeps s status s' := by
  have hmeets : (runAlone call.1 (nsProg call.1 call.2) s).Meets
      (fun _ => True) True (CallKeeps s) := wp_alone.mp (wp_nsProg hinv hprovided)
  rw [nsCall] at hcall
  split at hcall
  · rename_i result hdone
    rw [hdone, Option.some.inj hcall] at hmeets
    exact hmeets
  · cases hcall
  · cases hcall

/-- From a power cycle on, over every run of namespace calls, saves and starts
that have memory for directories and see the files they delete: active
namespaces are allocated, they are the ones with a registered and loaded
domain, and a call that fails leaves both bitmaps alone. -/
theorem namespaces_consistent (s₀ : Sys D (Backend D))
    (hfile : ∀ manifest, s₀.back.files.manifest = some (some manifest) → manifest.WellFormed)
    (calls : List (Env D × NsOp D)) {s : Sys D (Backend D)}
    (hrun : Run nsStep Provided (powerCycle s₀) calls s) :
    (∀ nsid, 0 < nsid → nsid ≤ namespaceMax → nsActive s.back.manifest nsid = true →
        nsAllocated s.back.manifest nsid = true) ∧ (∀ nsid, 0 < nsid → nsid ≤ namespaceMax →
      (nsActive s.back.manifest nsid = true ↔ (s.back.domains nsid).attached = true ∧
          (s.back.domains nsid).gtd.length =
            totalXlatePages (s.back.domains nsid).totalLogicalPages)) ∧
    ∀ call status s', Provided s call → nsCall s call = some (status, s') →
      status ≠ none → s'.back.manifest.bitmaps = s.back.manifest.bitmaps := by
  have hstart : (nsView (powerCycle s₀)).Inv := by
    refine ⟨⟨rfl, rfl, fun index _ hactive => ?_⟩, hfile, fun index _ => ?_, fun index _ hon => ?_⟩
    · exact absurd hactive (by simp [nsView, powerCycle])
    · simp [nsView, powerCycle]
    · exact absurd hon (by simp [nsView, powerCycle])
  have hkeeps : ∀ (before : Sys D (Backend D)) (call : Env D × NsOp D)
      (after : Sys D (Backend D)), (nsView before).Inv →
      Provided before call → nsStep before call = some after → (nsView after).Inv := by
    intro before call after hbefore hprovided hstep
    obtain ⟨⟨status, _⟩, hcall, rfl⟩ := Option.map_eq_some_iff.mp hstep
    exact (nsCall_keeps hbefore hprovided hcall).1
  have hinv : (nsView s).Inv := Run.invariant hkeeps hrun hstart
  refine ⟨fun nsid hpos hle hactive => ?_, fun nsid hpos hle => ?_,
    fun call status s' hprovided hcall hne => ?_⟩
  · exact hinv.wf.allocated_of_active (nsid - 1) (by omega) hactive
  · obtain ⟨index, rfl⟩ : ∃ index, nsid = index + 1 := ⟨nsid - 1, by omega⟩
    have hindex : index < namespaceMax := by omega
    have hiff := hinv.attached_iff index hindex
    constructor
    · intro hactive
      exact ⟨hiff.mpr hactive, hinv.loaded index hindex (hiff.mpr hactive)⟩
    · exact fun h => hiff.mp h.1
  · exact (nsCall_keeps hinv hprovided hcall).2 hne

/-- A call during which nothing fails. -/
theorem provided_of_reliable (hreliable : call.1.Reliable) : Provided s call := by
  have hfits : ∀ (s : Sys D (Backend D)) nsid, DirectoryFits call.1 s nsid :=
    fun s _ _ => .inl (hreliable (s.tick + 1))
  have hall : ∀ wipeMt rest s, DirectoriesFit call.1 wipeMt rest s := by
    intro wipeMt rest
    induction rest with
    | nil => exact fun _ => trivial
    | cons index rest ih => exact fun s => ⟨fun _ => hfits s _, fun s' _ => ih s'⟩
  rw [Provided]
  split
  · exact fun _ _ => hfits s _
  · exact fun _ s' _ => hreliable s'.tick
  · exact fun s' _ => hall _ _ s'
  · trivial

end Runs

def blankDevice : Sys ℕ (Backend ℕ) :=
  powerCycle
    { cache := DataCache.init 0
      back :=
        { domains := fun _ => ⟨false, 0, .cwdp, [], XlatePcache.init 0⟩
          planes := fun _ => PlaneAllocator.init benchGeometry
          flash := fun _ => .user fun _ => 0
          outstanding := []
          manifest := ⟨[], [], fun _ => ⟨0, 0, 0⟩⟩
          files := ⟨⟨none, none⟩, none, fun _ => none⟩ }
      current := 0
      flusher := {}
      tick := 0
      log := [] }

def benchCalls : List (Env ℕ × NsOp ℕ) :=
  [(benchDevice, .start false false false false), (benchDevice, .create 64 64),
    (benchDevice, .attach 2)]

theorem namespaces_consistent_bench :
    ∃ s, runActions nsStep (powerCycle blankDevice) benchCalls = some s ∧
      (nsActive s.back.manifest 2 = true ↔ (s.back.domains 2).attached = true ∧
          (s.back.domains 2).gtd.length =
            totalXlatePages (s.back.domains 2).totalLogicalPages) := by
  have hreliable : ∀ call ∈ benchCalls, call.1.Reliable := by
    intro call hmem
    simp only [benchCalls, mem_cons, not_mem_nil, or_false] at hmem
    rcases hmem with rfl | rfl | rfl <;> exact fun _ => rfl
  refine ⟨_, rfl, (namespaces_consistent blankDevice (fun _ hfile => ?_)
    benchCalls ?_).2.1 2 (by decide) (by decide)⟩
  · cases hfile
  · exact ((freeRun_of_runActions rfl).restrict hreliable).weaken fun _ _ => provided_of_reliable

def failingDevice (tick : ℕ) : Env ℕ :=
  { benchDevice with faults := fun t => if t = tick then some .eio else none }

/-- A first start without memory for the directory of the only namespace, and
a deletion whose `f_stat` fails. -/
theorem not_namespaces_consistent :
    (∃ s, runActions nsStep (powerCycle blankDevice)
        [(failingDevice 5, .start false false false false)] = some s ∧
      nsActive s.back.manifest 1 = true ∧ (s.back.domains 1).gtd.length ≠
        totalXlatePages (s.back.domains 1).totalLogicalPages) ∧
    ∃ s s', runActions nsStep (powerCycle blankDevice)
        [(benchDevice, .start false false false false)] = some s ∧
      nsCall s (failingDevice 16, .delete 1) = some (some .eio, s') ∧
      s'.back.manifest.bitmaps ≠ s.back.manifest.bitmaps :=
  ⟨⟨_, rfl, by decide, by decide⟩, ⟨_, _, rfl, rfl, by decide⟩⟩

end Soda
