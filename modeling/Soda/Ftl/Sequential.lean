import Soda.Ftl.Runtime

/-!
# One coroutine at a time

Weakest preconditions of the primitives when the running coroutine is alone:
no mutex is held by anybody else and flash has nothing else to do.
-/

namespace Soda

variable {D μ α : Type}

open Prog Sys

def unheld : ℕ → Option Tid := fun _ => none

section AnyRules

variable {rules : Rules (Sys D μ) Wait (Answer D) Fault} {s : Sys D μ} {env : Env D}

@[simp]
theorem wp_outcome {post : Status → Sys D μ → Prop} :
    wp rules (outcome env) post s ↔
      post (env.faults s.tick) { s with tick := s.tick + 1 } := Iff.rfl

@[simp]
theorem wp_allocMem {post : Bool → Sys D μ → Prop} :
    wp rules (allocMem env) post s ↔
      post (decide (env.faults s.tick = none)) { s with tick := s.tick + 1 } :=
  Iff.rfl

@[simp]
theorem wp_allocBuffer {post : Option (ℕ → D) → Sys D μ → Prop} :
    wp rules (allocBuffer env) post s ↔
      post (if env.faults s.tick = none then some (env.garbage s.tick) else none)
        { s with tick := s.tick + 1 } := Iff.rfl

theorem wp_lockWith_free {read : Sys D μ → Mutex}
    {write : (Mutex → Mutex) → Sys D μ → Sys D μ} {wait : Wait}
    {post : Unit → Sys D μ → Prop} (hfree : (read s).owner = none) :
    wp rules (lockWith read write wait) post s ↔
      post () (write (fun mutex => { mutex with owner := some s.current }) s) := by
  rw [lockWith, wp_bind, wp_get, hfree]
  exact Iff.rfl

end AnyRules

/-- Rules for a coroutine that is alone, over some lower layer. -/
abbrev aloneOver
    (lower : Tid → Wait → Sys D μ → Option (Answer D × Sys D μ))
    (env : Env D) (tolerated : Fault → Prop) (stuck : Prop) :
    Rules (Sys D μ) Wait (Answer D) Fault :=
  alone (resumeAlone lower env) tolerated stuck

/-- Rules for a coroutine that is alone on the device. -/
abbrev aloneRules (env : Env D) (tolerated : Fault → Prop) (stuck : Prop) :
    Rules (Sys D (Backend D)) Wait (Answer D) Fault :=
  aloneOver (resumeAmu env) env tolerated stuck

section Transfers

variable {lower : Tid → Wait → Sys D μ → Option (Answer D × Sys D μ)} {env : Env D}
  {tolerated : Fault → Prop} {stuck : Prop} {s : Sys D μ} {post : Answer D → Sys D μ → Prop}

@[simp]
theorem onBlock_hostDma :
    (aloneOver lower env tolerated stuck).onBlock .hostDma post s ↔
      post { status := env.faults s.tick } { s with tick := s.tick + 1 } := Iff.rfl

@[simp]
theorem onBlock_zdma :
    (aloneOver lower env tolerated stuck).onBlock .zdma post s ↔
      post { status := env.faults s.tick } { s with tick := s.tick + 1 } := Iff.rfl

end Transfers

section Amu

variable {env : Env D} {tolerated : Fault → Prop} {stuck : Prop} {s : Sys D (Backend D)}

theorem wp_lockXpg_free {rules : Rules (Sys D (Backend D)) Wait (Answer D) Fault}
    {nsid page : ℕ} {post : Unit → Sys D (Backend D) → Prop}
    (hfree : (s.xpg nsid page).mutex.owner = none) :
    wp rules (lockXpg nsid page) post s ↔ post () (s.modifyXpg nsid page fun xpg =>
        { xpg with mutex := { xpg.mutex with owner := some s.current } }) :=
  wp_lockWith_free hfree

/-- Flash with nothing else to do finishes an operation at once. -/
theorem resumeFlash_single (hidle : s.back.outstanding = []) (op : FlashOp D) :
    resumeFlash env s.current
        { s with back := { s.back with
          outstanding := s.back.outstanding ++ [(s.current, op)] } } =
      some (⟨env.faults s.tick, s.back.flash op.ppa⟩,
        { s with
          tick := s.tick + 1
          back := { s.back with
            flash := if env.faults s.tick = none then op.apply s.back.flash
              else s.back.flash } }) := by
  rcases s with ⟨cache, back, current, flusher, tick, log⟩
  rcases back with ⟨domains, planes, flash, outstanding, manifest, files⟩
  simp only at hidle
  subst hidle
  simp [resumeFlash]

theorem wp_amuSubmit (hidle : s.back.outstanding = []) {op : FlashOp D}
    {post : Answer D → Sys D (Backend D) → Prop} :
    wp (aloneRules env tolerated stuck) (amuSubmit op) post s ↔
      post ⟨env.faults s.tick, s.back.flash op.ppa⟩
        { s with
          tick := s.tick + 1
          back := { s.back with
            flash := if env.faults s.tick = none then op.apply s.back.flash
              else s.back.flash } } := by
  rw [amuSubmit, wp_bind, wp_modify, wp_await]
  exact alone_onBlock (resumeFlash_single hidle op)

end Amu

end Soda
