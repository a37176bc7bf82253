import Soda.Core.Runs
import Soda.Ftl.NamespaceFrame
import Soda.Ftl.Sequential

/-!
# Namespace calls

Create, attach, detach and delete change two bitmaps of the manifest and the
table of registered domains.  The bitmaps and the table agree after every call,
whatever memory allocation or file access fails, except where the directory of
a domain cannot be allocated: `domain_init` then returns success.  A call that
fails leaves the bitmaps alone, except the deletion of an active namespace
whose directory file cannot be examined after the namespace was detached.
-/

namespace Soda

variable {D : Type}

open Function Prog Sys Bitmap Manifest NsView

/-! ### Manifests -/

namespace Manifest

/-- The bitmaps have their size, and every active namespace is allocated. -/
structure WellFormed (manifest : Manifest) : Prop where
  allocated_length : manifest.allocatedNamespace.length = bitchunks namespaceMax
  active_length : manifest.activeNamespace.length = bitchunks namespaceMax
  allocated_of_active : ∀ index < namespaceMax, manifest.activeNamespace.getBit index = true →
      manifest.allocatedNamespace.getBit index = true

def bitmaps (manifest : Manifest) : Bitmap × Bitmap :=
  (manifest.allocatedNamespace, manifest.activeNamespace)

variable {manifest : Manifest} {index : ℕ}

theorem chunk_lt {map : Bitmap} (hlength : map.length =
    bitchunks namespaceMax) (hindex : index < namespaceMax) : index / 64 < map.length := by
  rw [hlength]
  exact lt_bitchunks hindex

def activate (manifest : Manifest) (index : ℕ) : Manifest :=
  { manifest with
    activeNamespace := manifest.activeNamespace.setBit index }

def deactivate (manifest : Manifest) (index : ℕ) : Manifest :=
  { manifest with
    activeNamespace := manifest.activeNamespace.unsetBit index }

def release (manifest : Manifest) (index : ℕ) : Manifest :=
  { manifest with
    allocatedNamespace := manifest.allocatedNamespace.unsetBit index }

def reserve (manifest : Manifest) (index : ℕ) (meta' : NamespaceMetadata) : Manifest :=
  { manifest with
    namespaces := update manifest.namespaces index meta'
    allocatedNamespace := manifest.allocatedNamespace.setBit index }

variable (hwf : manifest.WellFormed) (hindex : index < namespaceMax)

include hwf hindex

theorem getBit_activate (other : ℕ) :
    (manifest.activate index).activeNamespace.getBit other =
      (decide (index = other) || manifest.activeNamespace.getBit other) :=
  getBit_setBit _ _ _ (chunk_lt hwf.active_length hindex)

theorem getBit_deactivate (other : ℕ) :
    (manifest.deactivate index).activeNamespace.getBit other =
      (!decide (index = other) && manifest.activeNamespace.getBit other) :=
  getBit_unsetBit _ _ _ (chunk_lt hwf.active_length hindex)

theorem WellFormed.activate (hallocated : manifest.allocatedNamespace.getBit index = true) :
    (manifest.activate index).WellFormed := by
  refine ⟨hwf.allocated_length, ?_, fun other hother hactive => ?_⟩
  · rw [Manifest.activate, length_setBit, hwf.active_length]
  · rw [getBit_activate hwf hindex, Bool.or_eq_true, decide_eq_true_eq] at hactive
    rcases hactive with rfl | hactive
    · exact hallocated
    · exact hwf.allocated_of_active other hother hactive

theorem WellFormed.deactivate : (manifest.deactivate index).WellFormed := by
  refine ⟨hwf.allocated_length, ?_, fun other hother hactive => ?_⟩
  · rw [Manifest.deactivate, length_unsetBit, hwf.active_length]
  · rw [getBit_deactivate hwf hindex, Bool.and_eq_true] at hactive
    exact hwf.allocated_of_active other hother hactive.2

theorem WellFormed.release (hinactive : manifest.activeNamespace.getBit index = false) :
    (manifest.release index).WellFormed := by
  refine ⟨?_, hwf.active_length, fun other hother hactive => ?_⟩
  · rw [Manifest.release, length_unsetBit, hwf.allocated_length]
  · have hne : index ≠ other := by
      rintro rfl
      rw [Manifest.release, hinactive] at hactive
      cases hactive
    rw [Manifest.release, getBit_unsetBit _ _ _ (chunk_lt hwf.allocated_length hindex)]
    simp [hne, hwf.allocated_of_active other hother hactive]

theorem WellFormed.reserve (meta' : NamespaceMetadata) :
    (manifest.reserve index meta').WellFormed := by
  refine ⟨?_, hwf.active_length, fun other hother hactive => ?_⟩
  · rw [Manifest.reserve, length_setBit, hwf.allocated_length]
  · rw [Manifest.reserve, getBit_setBit _ _ _ (chunk_lt hwf.allocated_length hindex)]
    simp [hwf.allocated_of_active other hother hactive]

end Manifest

theorem resetManifest_wellFormed (cfg : Config) : (resetManifest cfg).WellFormed :=
  ⟨rfl, rfl, fun _ _ hactive => hactive⟩

/-! ### Registered domains -/

namespace NsView

variable {v v' : NsView} {index : ℕ}

/-- Bitmaps, domain table and directories agree. -/
structure Inv (v : NsView) : Prop where
  wf : v.manifest.WellFormed
  file : ∀ manifest, v.file = some (some manifest) → manifest.WellFormed
  attached_iff : ∀ index < namespaceMax, v.attached (index + 1) = true ↔
    v.manifest.activeNamespace.getBit index = true
  loaded : ∀ index < namespaceMax, v.attached (index + 1) = true →
    v.length (index + 1) = totalXlatePages (v.total (index + 1))

structure Saves (v v' : NsView) : Prop where
  manifest : v'.manifest = v.manifest
  attached : v'.attached = v.attached
  total : v'.total = v.total
  length : v'.length = v.length
  file : ∀ manifest, v'.file = some (some manifest) →
    v.file = some (some manifest) ∨ manifest = v.manifest

/-- The domain of one namespace, perhaps not registered, has changed. -/
def Resized (v : NsView) (index : ℕ) (v' : NsView) : Prop :=
  ∃ total length, v' = { v with
    total := update v.total (index + 1) total
    length := update v.length (index + 1) length }

def registered (v : NsView) (index total length : ℕ) : NsView :=
  { v with
    attached := update v.attached (index + 1) true
    total := update v.total (index + 1) total
    length := update v.length (index + 1) length }

def detached (v : NsView) (index : ℕ) : NsView :=
  { v with
    manifest := v.manifest.deactivate index
    attached := update v.attached (index + 1) false }

variable (hinv : v.Inv)
include hinv

theorem Inv.saves (hsaves : v.Saves v') : v'.Inv := by
  constructor
  case wf =>
    rw [hsaves.manifest]
    exact hinv.wf
  case file =>
    intro manifest hfile
    rcases hsaves.file manifest hfile with hold | rfl
    · exact hinv.file manifest hold
    · exact hinv.wf
  case attached_iff =>
    rw [hsaves.attached, hsaves.manifest]
    exact hinv.attached_iff
  case loaded =>
    rw [hsaves.attached, hsaves.length, hsaves.total]
    exact hinv.loaded

theorem Inv.resized (hfree : v.attached (index + 1) = false)
    (hresized : v.Resized index v') : v'.Inv := by
  obtain ⟨total, length, rfl⟩ := hresized
  refine ⟨hinv.wf, hinv.file, hinv.attached_iff, fun other hother hattached => ?_⟩
  simp only at hattached ⊢
  have hne : other + 1 ≠ index + 1 := by
    intro heq
    rw [heq, hfree] at hattached
    cases hattached
  rw [update_of_ne hne, update_of_ne hne]
  exact hinv.loaded other hother hattached

theorem Inv.attach (hindex : index < namespaceMax)
    (hallocated : v.manifest.allocatedNamespace.getBit index = true) (total : ℕ) :
    NsView.Inv { v.registered index total (totalXlatePages total) with
      manifest := v.manifest.activate index } := by
  refine ⟨hinv.wf.activate hindex hallocated, hinv.file,
    fun other hother => ?_, fun other hother hattached => ?_⟩
  · simp only [registered]
    rw [getBit_activate hinv.wf hindex]
    by_cases hsame : index = other
    · subst hsame
      simp
    · have hne : other + 1 ≠ index + 1 := by omega
      rw [update_of_ne hne, hinv.attached_iff other hother]
      simp [hsame]
  · simp only [registered] at hattached ⊢
    by_cases hsame : other + 1 = index + 1
    · rw [hsame, update_self, update_self]
    · rw [update_of_ne hsame] at hattached
      rw [update_of_ne hsame, update_of_ne hsame]
      exact hinv.loaded other hother hattached

theorem Inv.detach (hindex : index < namespaceMax) : (v.detached index).Inv := by
  refine ⟨hinv.wf.deactivate hindex, hinv.file, fun other hother => ?_,
    fun other hother hattached => ?_⟩
  · simp only [detached]
    rw [getBit_deactivate hinv.wf hindex]
    by_cases hsame : index = other
    · subst hsame
      simp
    · have hne : other + 1 ≠ index + 1 := by omega
      rw [update_of_ne hne, hinv.attached_iff other hother]
      simp [hsame]
  · simp only [detached] at hattached ⊢
    by_cases hsame : other + 1 = index + 1
    · rw [hsame, update_self] at hattached
      cases hattached
    · rw [update_of_ne hsame] at hattached
      exact hinv.loaded other hother hattached

/-- A manifest with the same active namespaces. -/
theorem Inv.setManifest {manifest : Manifest} (hwf : manifest.WellFormed)
    (hactive : manifest.activeNamespace = v.manifest.activeNamespace) :
    NsView.Inv { v with manifest := manifest } := by
  refine ⟨hwf, hinv.file, fun other hother => ?_, hinv.loaded⟩
  simp only [hactive]
  exact hinv.attached_iff other hother

end NsView

/-! ### The parts of the calls -/

/-- Rules under which a panic and a wait without an end are not looked at. -/
abbrev nsRules (env : Env D) :
    Rules (Sys D (Backend D)) Wait (Answer D) Fault :=
  aloneRules env (fun _ => True) True

section Calls

variable {env : Env D} {s : Sys D (Backend D)} {index : ℕ}

theorem NsKeeps.wp_view {α : Type} {prog : AmuM D α} (hkeeps : NsKeeps env prog)
    {post : α → Sys D (Backend D) → Prop}
    (hpost : ∀ value s', nsView s' = nsView s → post value s') : wp (nsRules env) prog post s :=
  wp_mono (Keeps.wp (hkeeps (nsView s)) rfl) hpost

variable {post : Status → Sys D (Backend D) → Prop}

theorem wp_saveManifest (hpost : ∀ status s', (nsView s).Saves (nsView s') → post status s') :
    wp (nsRules env) (saveManifest env) post s := by
  simp only [saveManifest, wp_bind, wp_outcome, wp_ite, wp_modify, wp_pure]
  split
  · split
    · apply hpost
      refine ⟨rfl, rfl, rfl, rfl, fun manifest hfile => .inr ?_⟩
      simp only [nsView, setManifestFile, Option.some.injEq] at hfile
      exact hfile.symm
    · apply hpost
      refine ⟨rfl, rfl, rfl, rfl, fun manifest hfile => ?_⟩
      simp only [nsView, setManifestFile, Option.some.injEq, reduceCtorEq] at hfile
  · apply hpost
    exact ⟨rfl, rfl, rfl, rfl, fun manifest hfile => .inl hfile⟩

theorem wp_restoreGtd (nsid total : ℕ) {post : Status × List ℕ → Sys D (Backend D) → Prop}
    (hpost : ∀ status gtd s', (status = none → gtd.length = total) →
      nsView s' = nsView s → post (status, gtd) s') :
    wp (nsRules env) (restoreGtd env nsid total) post s := by
  simp only [restoreGtd, wp_bind, wp_get, wp_outcome]
  split
  · exact hpost _ _ _ (by simp) rfl
  · rename_i file _
    split
    · rename_i hfits
      refine hpost _ _ _ (fun _ => ?_) rfl
      rw [List.length_take, min_eq_left hfits.2]
    · exact hpost _ _ _ (by simp) rfl

/-- Length of the directory that `domain_init` leaves on success. -/
def directoryLength (env : Env D) (tick total : ℕ) : ℕ :=
  if env.faults tick = none then totalXlatePages total else 0

theorem wp_domainGtd (index total : ℕ) (reset : Bool)
    {post : Status × List ℕ → Sys D (Backend D) → Prop} (hpost : ∀ status gtd s',
      (status = none → gtd.length = directoryLength env s.tick total) →
      (∃ length, nsView s' = { nsView s with
        length := update (nsView s).length (index + 1) length }) →
      post (status, gtd) s') :
    wp (nsRules env) (domainGtd env (index + 1) total reset) post s := by
  have hsame : ∃ length, nsView s = { nsView s with
      length := update (nsView s).length (index + 1) length } :=
    ⟨(nsView s).length (index + 1), by simp⟩
  simp only [domainGtd, wp_bind, wp_allocMem, wp_ite, wp_get, wp_outcome,
    wp_modify, wp_pure, decide_eq_true_eq]
  by_cases hmemory : env.faults s.tick = none
  · have hlength : directoryLength env s.tick total = totalXlatePages total := if_pos hmemory
    rw [if_pos hmemory]
    split
    · apply NsKeeps.saveGtd.wp_view
      intro status s' hview
      apply hpost
      · intro _
        rw [List.length_replicate, hlength]
      · rw [hview, nsView_modifyDomain]
        refine ⟨totalXlatePages total, ?_⟩
        simp only [NsView.mk.injEq, List.length_replicate]
        exact ⟨rfl, rfl, update_eq_self _ _, update_eq_self _ _, rfl⟩
    · apply wp_restoreGtd
      intro status gtd s' hgtd hview
      apply hpost
      · rw [hlength]
        exact hgtd
      · rw [hview]
        exact hsame
  · rw [if_neg hmemory]
    apply hpost
    · intro _
      exact (if_neg hmemory).symm
    · exact hsame

theorem wp_amuAttachDomain (hindex : index < namespaceMax)
    (hfree : (nsView s).attached (index + 1) = false) (capacity total : ℕ)
    (reset : Bool) (herror : ∀ status s', status ≠ none →
      (nsView s).Resized index (nsView s') → post status s')
    (hdone : ∀ s', env.faults s.tick = none → nsView s' = (nsView s).registered index total
        (directoryLength env (s.tick + 1) total) → post none s') :
    wp (nsRules env) (amuAttachDomain env (index + 1) capacity total reset) post s := by
  have hrange : ¬ (index + 1 = 0 ∨ namespaceMax < index + 1) := by omega
  have hunattached : ¬ (s.back.domains (index + 1)).attached = true := by
    simpa [nsView] using hfree
  simp only [amuAttachDomain, if_neg hrange, wp_bind, wp_get, wp_ite,
    if_neg hunattached, wp_allocMem, wp_modify, wp_pure, decide_eq_true_eq]
  by_cases hmemory : env.faults s.tick = none
  · rw [if_pos hmemory]
    apply wp_domainGtd
    intro status gtd s' hgtd hlength
    obtain ⟨length, hview⟩ := hlength
    have hattached : update (nsView s).attached (index + 1) false = (nsView s).attached := by
      rw [← hfree]
      exact update_eq_self _ _
    have hinit : nsView s' = { nsView s with
        total := update (nsView s).total (index + 1) total
        length := update (nsView s).length (index + 1) length } := by
      rw [hview, nsView_modifyDomain]
      simp only [update_idem, NsView.mk.injEq]
      exact ⟨rfl, rfl, hattached, rfl, rfl⟩
    split
    · rename_i hnone
      apply hdone _ hmemory
      have htotal : (s'.back.domains (index + 1)).totalLogicalPages = total := by
        have heq := congrFun (congrArg NsView.total hinit) (index + 1)
        simpa [nsView] using heq
      rw [nsView_modifyDomain, htotal, hgtd hnone, hinit]
      simp only [update_idem, registered, modifyDomain]
    · rename_i hsome
      exact herror _ _ hsome ⟨total, length, hinit⟩
  · rw [if_neg hmemory]
    apply herror _ _ (by simp)
    exact ⟨(nsView s).total (index + 1), (nsView s).length (index + 1),
      by simp [nsView]⟩

theorem wp_amuDetachDomain (hindex : index < namespaceMax)
    (hattached : (nsView s).attached (index + 1) = true)
    (hpost : ∀ s', nsView s' = { nsView s with
      attached := update (nsView s).attached (index + 1) false } → post none s') :
    wp (nsRules env) (amuDetachDomain env (index + 1)) post s := by
  have hrange : ¬ (index + 1 = 0 ∨ namespaceMax < index + 1) := by omega
  have hon : (s.back.domains (index + 1)).attached = true := hattached
  simp only [amuDetachDomain, if_neg hrange, wp_bind, wp_get, wp_ite, if_pos hon,
    wp_modify, wp_pure]
  apply NsKeeps.saveDomain.wp_view
  intro status s' hview
  apply hpost
  rw [hview, nsView_modifyDomain]
  simp only [NsView.mk.injEq, true_and]
  exact ⟨update_eq_self _ _, update_eq_self _ _⟩

/-! ### The calls -/

/-- What a call should do: keep the agreement, and change no bitmap when it
fails. -/
def CallKeeps (s : Sys D (Backend D)) (status : Status) (s' : Sys D (Backend D)) : Prop :=
  (nsView s').Inv ∧ (status ≠ none → s'.back.manifest.bitmaps = s.back.manifest.bitmaps)

variable (hinv : (nsView s).Inv)

include hinv

theorem callKeeps_self (status : Status) : CallKeeps s status s := ⟨hinv, fun _ => rfl⟩

theorem wp_ftlCreateNamespace (sizeBlocks capacityBlocks : ℕ) :
    wp (nsRules env) (ftlCreateNamespace env sizeBlocks capacityBlocks)
      (fun result => CallKeeps s result.1) s := by
  simp only [ftlCreateNamespace, wp_bind, wp_get, wp_ite, wp_pure, wp_modify]
  split
  · exact callKeeps_self hinv _
  · rename_i hroom
    apply wp_saveManifest
    intro status s' hsaves
    refine ⟨?_, fun hne => absurd rfl hne⟩
    refine NsView.Inv.saves ?_ hsaves
    exact hinv.setManifest (hinv.wf.reserve (not_le.mp hroom) _) rfl

/-- The directory file of an active namespace can be examined after the
namespace was detached. -/
def FileSeen (env : Env D) (s : Sys D (Backend D)) (nsid : ℕ) : Prop :=
  nsActive s.back.manifest nsid = true →
    ∀ s', runAlone env (ftlDetachNamespace env nsid) s = .done (none, s') →
      env.faults s'.tick = none

/-- There is memory for the directory of a namespace that is attached from this
state on. -/
def DirectoryFits (env : Env D) (s : Sys D (Backend D)) (nsid : ℕ) : Prop :=
  env.faults s.tick = none → env.faults (s.tick + 1) = none ∨
    totalXlatePages (logicalPages (nsSize s.back.manifest nsid)) = 0

omit hinv in
theorem DirectoryFits.length_eq (hfits : DirectoryFits env s (index + 1))
    (hmemory : env.faults s.tick = none) :
    directoryLength env (s.tick + 1) (logicalPages (nsSize s.back.manifest (index + 1))) =
      totalXlatePages (logicalPages (nsSize s.back.manifest (index + 1))) := by
  rw [directoryLength]
  rcases hfits hmemory with hnone | hempty
  · rw [if_pos hnone]
  · rw [hempty, ite_self]

theorem wp_ftlAttachNamespace (nsid : ℕ)
    (hfits : nsAllocated s.back.manifest nsid = true →
      nsActive s.back.manifest nsid = false → DirectoryFits env s nsid) :
    wp (nsRules env) (ftlAttachNamespace env nsid) (CallKeeps s) s := by
  by_cases hrange : nsid = 0 ∨ namespaceMax < nsid
  · rw [ftlAttachNamespace, if_pos hrange]
    exact callKeeps_self hinv _
  · obtain ⟨index, rfl⟩ : ∃ index, nsid = index + 1 := ⟨nsid - 1, by omega⟩
    have hindex : index < namespaceMax := by omega
    simp only [ftlAttachNamespace, if_neg hrange, wp_bind, wp_get, wp_ite, wp_pure]
    split
    · exact callKeeps_self hinv _
    · rename_i hallocated
      split
      · exact callKeeps_self hinv _
      · rename_i hinactive
        have hfree : (nsView s).attached (index + 1) = false := by
          rw [← Bool.not_eq_true, hinv.attached_iff index hindex]
          exact hinactive
        apply wp_amuAttachDomain hindex hfree
        · intro status s' hne hresized
          rw [if_neg hne]
          have hmanifest : s'.back.manifest = s.back.manifest := by
            obtain ⟨total, length, hview⟩ := hresized
            exact congrArg manifest hview
          refine ⟨hinv.resized hfree hresized, fun _ => ?_⟩
          rw [hmanifest]
        · intro middle hmemory hview
          rw [(hfits (not_not.mp hallocated)
            (Bool.not_eq_true _ ▸ hinactive)).length_eq hmemory] at hview
          apply wp_saveManifest
          intro status s' hsaves
          refine ⟨?_, fun hne => absurd rfl hne⟩
          have hnext : nsView (modifyManifest (fun manifest =>
              { manifest with activeNamespace :=
                manifest.activeNamespace.setBit (index + 1 - 1) }) middle) =
              { nsView middle with
                manifest := (nsView middle).manifest.activate index } := rfl
          rw [hnext, hview] at hsaves
          refine NsView.Inv.saves ?_ hsaves
          exact hinv.attach hindex (not_not.mp hallocated) _

variable (hindex : index < namespaceMax)
include hindex

/-- A detach of an active namespace succeeds. -/
theorem wp_ftlDetachNamespace_active (hactive : s.back.manifest.activeNamespace.getBit index = true)
    (hpost : ∀ s', ((nsView s).detached index).Saves (nsView s') → post none s') :
    wp (nsRules env) (ftlDetachNamespace env (index + 1)) post s := by
  have hrange : ¬ (index + 1 = 0 ∨ namespaceMax < index + 1) := by omega
  have hon : nsActive s.back.manifest (index + 1) = true := hactive
  simp only [ftlDetachNamespace, if_neg hrange, wp_bind, wp_get, wp_ite, if_pos hon]
  apply wp_amuDetachDomain hindex ((hinv.attached_iff index hindex).mpr hactive)
  intro middle hmiddle
  apply wp_saveManifest
  intro status s' hsaves
  apply hpost
  have hview : nsView (modifyManifest (fun manifest =>
      { manifest with
        activeNamespace := manifest.activeNamespace.unsetBit (index + 1 - 1) })
        middle) = (nsView s).detached index := by
    calc
      _ = { nsView middle with
            manifest := (nsView middle).manifest.deactivate index } := rfl
      _ = (nsView s).detached index := by
        rw [hmiddle]
        rfl
  rw [hview] at hsaves
  exact hsaves

omit hinv in
theorem wp_amuDeleteDomain
    (hpost : ∀ status s', (env.faults s.tick = none → status = none) →
      nsView s' = nsView s → post status s') :
    wp (nsRules env) (amuDeleteDomain env (index + 1)) post s := by
  have hrange : ¬ (index + 1 = 0 ∨ namespaceMax < index + 1) := by omega
  simp only [amuDeleteDomain, if_neg hrange, wp_bind, wp_get, wp_outcome, wp_ite,
    wp_modify, wp_pure]
  split
  · rename_i hstat
    exact hpost _ _ (fun hnone => absurd hnone hstat) rfl
  · split
    · exact hpost _ _ (fun _ => rfl) rfl
    · split <;> exact hpost _ _ (fun _ => rfl) rfl

/-- The end of a deletion: an inactive namespace is released. -/
theorem callKeeps_release (hinactive : s.back.manifest.activeNamespace.getBit index = false)
    {middle : Sys D (Backend D)} (hview : nsView middle = nsView s)
    (hpost : ∀ status s', (nsView s').Inv → post status s') :
    wp (nsRules env) (saveManifest env) post
      (modifyManifest (fun manifest => manifest.release index) middle) := by
  apply wp_saveManifest
  intro status s' hsaves
  apply hpost
  refine NsView.Inv.saves ?_ hsaves
  have hinv' : (nsView middle).Inv := hview ▸ hinv
  have hmanifest : middle.back.manifest = s.back.manifest := congrArg manifest hview
  refine hinv'.setManifest (hinv'.wf.release hindex ?_) rfl
  rw [nsView, hmanifest, hinactive]

omit hindex

theorem wp_ftlDetachNamespace (nsid : ℕ) :
    wp (nsRules env) (ftlDetachNamespace env nsid) (CallKeeps s) s := by
  by_cases hrange : nsid = 0 ∨ namespaceMax < nsid
  · rw [ftlDetachNamespace, if_pos hrange]
    exact callKeeps_self hinv _
  · obtain ⟨index, rfl⟩ : ∃ index, nsid = index + 1 := ⟨nsid - 1, by omega⟩
    have hindex : index < namespaceMax := by omega
    by_cases hactive : s.back.manifest.activeNamespace.getBit index = true
    · apply wp_ftlDetachNamespace_active hinv hindex hactive
      intro s' hsaves
      exact ⟨(hinv.detach hindex).saves hsaves, fun hne => absurd rfl hne⟩
    · have hoff : ¬ nsActive s.back.manifest (index + 1) = true := hactive
      simp only [ftlDetachNamespace, if_neg hrange, wp_bind, wp_get, wp_ite, if_neg hoff, wp_pure]
      exact callKeeps_self hinv _

theorem wp_ftlDeleteNamespace (nsid : ℕ) (hseen : FileSeen env s nsid) :
    wp (nsRules env) (ftlDeleteNamespace env nsid) (CallKeeps s) s := by
  by_cases hrange : nsid = 0 ∨ namespaceMax < nsid
  · rw [ftlDeleteNamespace, if_pos hrange]
    exact callKeeps_self hinv _
  · obtain ⟨index, rfl⟩ : ∃ index, nsid = index + 1 := ⟨nsid - 1, by omega⟩
    have hindex : index < namespaceMax := by omega
    simp only [ftlDeleteNamespace, if_neg hrange, wp_bind, wp_get, wp_ite, wp_pure]
    split
    · split
      · rename_i hactive
        have hdetach : wp (nsRules env) (ftlDetachNamespace env (index + 1))
            (fun status s' => status = none ∧ ((nsView s).detached index).Saves (nsView s')) s :=
          wp_ftlDetachNamespace_active hinv hindex hactive fun s' hsaves => ⟨rfl, hsaves⟩
        refine wp_mono (wp_alone_done hdetach) ?_
        rintro status middle ⟨⟨rfl, hsaves⟩, hexec⟩
        have hinv' : (nsView middle).Inv := (hinv.detach hindex).saves hsaves
        have hinactive : middle.back.manifest.activeNamespace.getBit index = false := by
          have hwf : s.back.manifest.WellFormed := hinv.wf
          have hmanifest : middle.back.manifest =
              s.back.manifest.deactivate index := hsaves.manifest
          rw [hmanifest, getBit_deactivate hwf hindex]
          simp
        apply wp_amuDeleteDomain hindex
        intro status s' hstat hview
        rw [if_pos (hstat (hseen hactive middle hexec))]
        apply callKeeps_release hinv' hindex hinactive hview
        exact fun _ s' hdone => ⟨hdone, fun hne => absurd rfl hne⟩
      · rename_i hactive
        have hinactive : s.back.manifest.activeNamespace.getBit index = false :=
          Bool.not_eq_true _ ▸ hactive
        apply wp_amuDeleteDomain hindex
        intro status middle _ hview
        split
        · apply callKeeps_release hinv hindex hinactive hview
          exact fun _ s' hdone => ⟨hdone, fun hne => absurd rfl hne⟩
        · have hmanifest : middle.back.manifest = s.back.manifest := congrArg manifest hview
          refine ⟨hview ▸ hinv, fun _ => ?_⟩
          rw [hmanifest]
    · exact callKeeps_self hinv _

end Calls

end Soda
