import Soda.Ftl.AddressMapping

/-!
# Ends of waits

`resume` says when a blocked coroutine can go on and what it is told.  A mutex
wait ends when the mutex has been handed over.  Flash finishes operations on
different pages in any order and those on one page in the order in which they
were submitted; a page reads as what was last programmed into it.
-/

namespace Soda

variable {D μ : Type}

open Prog Sys

def FlashOp.apply (op : FlashOp D) (flash : ℕ → PageData D) : ℕ → PageData D :=
  match op with
  | read _ => flash
  | program ppa data => Function.update flash ppa data

/-- A coroutine's flash operation is done, unless an older one is waiting for
the same page. -/
def resumeFlash (env : Env D) (self : Tid) (s : Sys D (Backend D)) :
    Option (Answer D × Sys D (Backend D)) :=
  match s.back.outstanding.find? fun item => item.1 = self with
  | none => none
  | some (_, op) =>
    let oldest := s.back.outstanding.find? fun item => item.2.ppa = op.ppa
    if oldest.map Prod.fst = some self then
      let status := env.faults s.tick
      some (⟨status, s.back.flash op.ppa⟩,
        { s with
          current := self
          tick := s.tick + 1
          back := { s.back with
            outstanding := s.back.outstanding.eraseP fun item => item.1 = self
            flash := if status = none then op.apply s.back.flash
              else s.back.flash } })
    else none

/-- Waits inside the address mapping unit. -/
def resumeAmu (env : Env D) (self : Tid) :
    Wait → Sys D (Backend D) → Option (Answer D × Sys D (Backend D))
  | .xlatePage nsid page, s =>
    if (s.xpg nsid page).mutex.owner = some self then
      some ({}, { s with current := self })
    else none
  | .flash, s => resumeFlash env self s
  | _, _ => none

variable (lower : Tid → Wait → Sys D μ → Option (Answer D × Sys D μ))

/-- All waits, over a layer that ends the waits inside it. -/
def resumeOver (env : Env D) (self : Tid) :
    Wait → Sys D μ → Option (Answer D × Sys D μ)
  | .command, s => some ({}, { s with current := self })
  | .entry slot, s =>
    if (s.cache.entries slot).mutex.owner = some self then
      some ({}, { s with current := self })
    else none
  | .hostDma, s | .zdma, s =>
    some ({ status := env.faults s.tick }, { s with current := self, tick := s.tick + 1 })
  | .flushIdle, s =>
    if s.flusher.flushing then none else some ({}, { s with current := self })
  | .flushDone, s =>
    if ∀ index < nrFlushers, s.flusher.active index = none then
      some ({}, { s with current := self })
    else none
  | .flush index, s =>
    if (s.flusher.active index).isSome then
      some ({}, { s with current := self })
    else none
  | wait, s => lower self wait s

def resume (env : Env D) : Tid → Wait → Sys D (Backend D) → Option (Answer D × Sys D (Backend D)) :=
  resumeOver (resumeAmu env) env

/-- The running coroutine is the only one. -/
def resumeAlone (env : Env D) (wait : Wait) (s : Sys D μ) : Option (Answer D × Sys D μ) :=
  resumeOver lower env s.current wait s

end Soda
