import Soda.Ftl.AmuInvariant

/-!
# Translating a batch of transactions

`translate_lpa` finds the physical page of a transaction or gives it a fresh
one, and the first loop of `amu_dispatch` does so for a whole batch before
anything is sent to flash.
-/

namespace Soda

variable {D : Type}

open Prog Sys Txn

def Txn.located (g : Geometry) (txn : Txn D) (ppa : ℕ) : Txn D :=
  { txn with ppa := ppa, addr := ppaToAddress g ppa, ppaReady := true }

/-- A transaction that was given a fresh physical page; `entry` is where the
logical page was before. -/
def Txn.placed [Zero D] (g : Geometry) (txn : Txn D) (entry : XlateEntry)
    (flash : ℕ → PageData D) (addr : FlashAddress) : Txn D :=
  { txn.merged entry (flash entry.ppa).sector with
    addr := addr, ppa := addressToPpa g addr, ppaReady := true }

def placedEntry [Zero D] (g : Geometry) (txn : Txn D) (entry : XlateEntry)
    (flash : ℕ → PageData D) (addr : FlashAddress) : XlateEntry :=
  ⟨addressToPpa g addr, entry.bitmap ||| (txn.merged entry (flash entry.ppa).sector).bitmap⟩

def Backend.planeFor (g : Geometry) (back : Backend D) (txn : Txn D) : PlaneAddr :=
  assignPlane g (back.domains txn.nsid).paScheme txn.lpa

theorem bitmap_merged_addr (txn : Txn D) (addr : FlashAddress)
    (entry : XlateEntry) (sectors : ℕ → D) :
    ({ txn with addr := addr }.merged entry sectors).bitmap =
      (txn.merged entry sectors).bitmap := by
  rw [merged, merged]
  split <;> rfl

theorem merged_addr (txn : Txn D) (addr final : FlashAddress) (ppa : ℕ)
    (entry : XlateEntry) (sectors : ℕ → D) :
    ({ { txn with addr := addr }.merged entry sectors with
        addr := final, ppa := ppa, ppaReady := true } : Txn D) =
      { txn.merged entry sectors with
        addr := final, ppa := ppa, ppaReady := true } := by
  rw [merged, merged]
  split <;> rfl

section Alone

variable {s : Sys D (Backend D)} {env : Env D} {tolerated : Fault → Prop}
  {stuck : Prop} {used : Set FlashAddress} {pages : ℕ → Finset ℕ}

variable {txn : Txn D} {post : Status × Txn D → Sys D (Backend D) → Prop}

/-- `alloc_page_for_write` as `translate_lpa` calls it, on a domain that may
have fetched the translation page already. -/
theorem wp_place [Zero D] {domain : AmDomain} {tick : ℕ}
    (hidle : s.back.outstanding = []) (hinv : domain.Inv s.back.flash unheld)
    (hscheme : domain.paScheme = (s.back.domains txn.nsid).paScheme)
    (hroom : (domain.pcache.find (getMvpn txn.lpa)).isSome ∨
      domain.pcache.size < domain.pcache.capacity)
    (hcalm : env.Fails → (domain.pcache.find (getMvpn txn.lpa)).isSome ∧
      (domain.lookup s.back.flash txn.lpa).ppa = noPpa)
    (hdirectory : ¬getMvpn txn.lpa < domain.gtd.length → tolerated .directoryBounds)
    (hfrontier : tolerated .nullFrontier) (hpost : ∀ addr planes' domain' tick',
      bmAllocPage env.cfg.geo (retired env.cfg.geo s.back.planes
          (domain.lookup s.back.flash txn.lpa)) txn.nsid
        (s.back.planeFor env.cfg.geo txn) false false = some (addr, planes') →
      domain.Next domain' s.back.flash unheld (getMvpn txn.lpa)
        (Function.update (domain.lookup s.back.flash) txn.lpa
          (placedEntry env.cfg.geo txn (domain.lookup s.back.flash txn.lpa) s.back.flash addr)) →
      post (none, txn.placed env.cfg.geo (domain.lookup s.back.flash txn.lpa) s.back.flash addr)
        (s.amu txn.nsid domain' planes' s.back.flash tick')) :
    wp (aloneRules env tolerated stuck) (do
        let txn ← assignTxn env txn
        let (status, txn) ← allocPageForWrite env txn false
        pure (status, { txn with ppaReady := decide (status = none) })) post
      (s.amu txn.nsid domain s.back.planes s.back.flash tick) := by
  simp only [assignTxn, wp_bind, wp_get, wp_pure, domains_amu, hscheme]
  refine wp_allocPageForWrite hidle hinv ?_ ?_ ?_ hfrontier ?_
  · exact hroom
  · exact hcalm
  · exact hdirectory
  · intro addr planes' domain' tick' halloc hnext
    rw [bitmap_merged_addr] at hnext
    have hdone := hpost addr planes' domain' tick' halloc hnext
    rw [placed, ← merged_addr txn ⟨assignPlane env.cfg.geo
      (s.back.domains txn.nsid).paScheme txn.lpa, txn.addr.block, txn.addr.page⟩] at hdone
    exact hdone

/-- `translate_lpa`. -/
theorem wp_translateLpa [Zero D] (hset : Settled env.cfg.geo s.back used pages)
    (hpage : getMvpn txn.lpa ∈ pages txn.nsid)
    (hcalm : env.Fails → (s.back.domains txn.nsid).attached → txn.type = .read)
    (hnsid : ¬(0 < txn.nsid ∧ txn.nsid ≤ namespaceMax) → tolerated .assertion)
    (hdirectory : ¬getMvpn txn.lpa < (s.back.domains txn.nsid).gtd.length →
      tolerated .directoryBounds) (hfrontier : tolerated .nullFrontier)
    (hfault : env.Fails → tolerated .nullPointer ∧ tolerated .assertion)
    (hdetached : (s.back.domains txn.nsid).attached = false → post (some .einval, txn) s)
    (hmemory : env.Fails → ∀ tick', post (some .enomem, txn) { s with tick := tick' })
    (hmapped : ∀ domain' tick', (s.back.domains txn.nsid).attached →
      txn.type = .read → (s.back.lookup txn.nsid txn.lpa).ppa ≠ noPpa →
      (s.back.domains txn.nsid).Next domain' s.back.flash unheld
        (getMvpn txn.lpa) (s.back.lookup txn.nsid) →
      post (none, txn.located env.cfg.geo (s.back.lookup txn.nsid txn.lpa).ppa)
        (s.amu txn.nsid domain' s.back.planes s.back.flash tick'))
    (halloc : ∀ addr planes' domain' tick', (s.back.domains txn.nsid).attached →
      (txn.type = .read → (s.back.lookup txn.nsid txn.lpa).ppa = noPpa) →
      bmAllocPage env.cfg.geo (retired env.cfg.geo s.back.planes
          (s.back.lookup txn.nsid txn.lpa)) txn.nsid
        (s.back.planeFor env.cfg.geo txn) false false = some (addr, planes') →
      (s.back.domains txn.nsid).Next domain' s.back.flash unheld
        (getMvpn txn.lpa) (Function.update (s.back.lookup txn.nsid) txn.lpa
          (placedEntry env.cfg.geo txn (s.back.lookup txn.nsid txn.lpa) s.back.flash addr)) →
      post (none, txn.placed env.cfg.geo (s.back.lookup txn.nsid txn.lpa) s.back.flash addr)
        (s.amu txn.nsid domain' planes' s.back.flash tick')) :
    wp (aloneRules env tolerated stuck) (translateLpa env txn) post s := by
  rw [translateLpa, wp_bind, wp_assert]
  by_cases hrange : 0 < txn.nsid ∧ txn.nsid ≤ namespaceMax
  swap
  · rw [if_neg (by simpa using hrange)]
    exact hnsid hrange
  rw [if_pos (by simpa using hrange), wp_bind, wp_get, wp_ite]
  by_cases hattached : (s.back.domains txn.nsid).attached = true
  swap
  · rw [if_neg hattached]
    exact hdetached (Bool.eq_false_of_not_eq_true hattached)
  rw [if_pos hattached]
  have hinv := hset.domain txn.nsid hattached
  have hroom := hset.room hattached hpage
  cases htype : txn.type with
  | write =>
    rw [← amu_self s txn.nsid]
    refine wp_place hset.idle hinv rfl hroom ?_ hdirectory hfrontier ?_
    · intro hfails
      have hread := hcalm hfails hattached
      rw [htype] at hread
      cases hread
    · intro addr planes' domain' tick' hpage' hnext
      refine halloc addr planes' domain' tick' hattached ?_ hpage' hnext
      intro hread
      rw [htype] at hread
      cases hread
  | read =>
    dsimp only
    rw [← amu_self s txn.nsid, wp_bind]
    apply wp_getPpa hset.idle hinv hroom hdirectory hfault
    · intro hfails tick'
      have hfailed := hmemory hfails tick'
      rw [← amu_self s txn.nsid] at hfailed
      exact hfailed
    intro domain' tick' hnext
    simp only [if_true, wp_ite]
    by_cases hppa : ((s.back.domains txn.nsid).lookup s.back.flash txn.lpa).ppa = noPpa
    · rw [if_pos hppa]
      have hcached : (domain'.pcache.find (getMvpn txn.lpa)).isSome :=
        (hnext.find_isSome _).mpr (.inr rfl)
      have hsame : domain'.lookup s.back.flash = s.back.lookup txn.nsid := hnext.lookup_eq
      refine wp_place hset.idle hnext.inv (by rw [hnext.rest_eq]) (.inl hcached) ?_ ?_ hfrontier ?_
      · intro _
        rw [hsame]
        exact ⟨hcached, hppa⟩
      · rw [hnext.gtd_eq]
        exact hdirectory
      · rw [hsame]
        intro addr planes' domain'' tick'' hpage' hnext'
        exact halloc addr planes' domain'' tick'' hattached (fun _ => hppa)
          hpage' (hnext.trans hnext')
    · rw [if_neg hppa]
      have hdone := hmapped domain' tick' hattached htype hppa hnext
      rw [located, htype] at hdone
      exact hdone

end Alone

end Soda
