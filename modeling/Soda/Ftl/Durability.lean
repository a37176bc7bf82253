import Soda.Ftl.SectorStore

/-!
# Flushed sectors

A flush after requests that succeed puts the last content of every sector of its
namespace below the data cache, where a new cache finds it.
-/

namespace Soda

open Prog Sys List SectorStore

variable {D μ : Type} [Zero D] {lower : Tid → Wait → Sys D μ → Option (Answer D × Sys D μ)}
  {env : Env D} {tolerated : Fault → Prop} {virgin : D → Prop}
  {layer : MappingLayer lower env tolerated virgin} {s : Sys D μ} {store : Store D}
  {capacity : ℕ} {reqs : List (Request D)}

/-- A write of more pages than the cache or the I/O vectors hold is a fault. -/
def Fitting (tolerated : Fault → Prop) (capacity : ℕ) (req : Request D) : Prop :=
  req.InTypes ∧ (req.type.Writes → maxIovecs < (segments req).length ∨
    capacity < (segments req).length → tolerated .nullPointer)

/-- The cache is well formed, and without it requests are answered from the given
sectors of the namespace. -/
def Recovers (layer : MappingLayer lower env tolerated virgin) (nsid : ℕ)
    (sectors : SectorStore D) (s : Sys D μ) : Prop :=
  s.cache.Inv unheld ∧ ∃ found : SectorStore D,
    (∀ sector < 2 ^ 64, found nsid sector = sectors nsid sector) ∧
      ∀ capacity reqs, (∀ req ∈ reqs, Fitting tolerated capacity req) →
        (exec (resumeAlone lower env) (runRequests env layer.dispatch reqs)
          { s with cache := .init capacity }).Meets tolerated False
            fun answers _ => found.Answers reqs answers

section Requests

variable (hreliable : env.Reliable) (hboundless : layer.Boundless)
include hreliable hboundless

theorem wp_runRequests_fitting (hfits : ∀ req ∈ reqs, Fitting tolerated capacity req)
    (hresting : Resting layer s store) (hcapacity : s.cache.capacityPages = capacity) :
    wp (aloneOver lower env tolerated False) (runRequests env layer.dispatch reqs)
      (fun answers s' => (ofStore store).Answers reqs answers ∧
        ((∀ answer ∈ answers, answer.1 = none) → ∃ store', Resting layer s' store' ∧
          ofStore store' = reqs.foldl apply (ofStore store))) s := by
  induction reqs generalizing s store with
  | nil => exact ⟨rfl, fun _ => ⟨store, hresting, rfl⟩⟩
  | cons req reqs ih =>
    obtain ⟨⟨htypes, hlength⟩, hrest⟩ := forall_mem_cons.mp hfits
    rw [← hcapacity] at hlength
    rw [runRequests, wp_bind]
    refine wp_mono (wp_serveRequest hreliable hboundless htypes hlength hresting) ?_
    intro answer s' hanswer
    by_cases hnone : answer.1 = none
    · obtain ⟨hresting', hsame, hread⟩ := hanswer hnone
      rw [if_pos hnone, wp_bind]
      refine wp_mono (ih hrest hresting' (hsame.trans hcapacity)) ?_
      rintro answers s'' ⟨hanswers, hdone⟩
      rw [ofStore_serve htypes] at hanswers hdone
      exact ⟨⟨answer, answers, rfl, (if_pos hnone).mpr ⟨hread, hanswers⟩⟩, fun hall =>
        hdone (forall_mem_cons.mp hall).2⟩
    · rw [if_neg hnone]
      exact ⟨⟨answer, [], rfl, (if_neg hnone).mpr rfl⟩, fun hall =>
        absurd (hall answer mem_cons_self) hnone⟩

end Requests

end Soda
