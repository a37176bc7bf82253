import Soda.Core.Runs
import Soda.Ftl.Ftl

/-!
# The namespace state of the device

The manifest in memory and on file, and for each namespace whether a domain is
registered and how long its directory is.  Saving a domain writes translation
pages to flash and changes directory elements; it leaves this state alone.
-/

namespace Soda

variable {D α : Type}

open Prog Sys Keeps Function

structure NsView where
  manifest : Manifest
  file : Option (Option Manifest)
  attached : ℕ → Bool
  total : ℕ → ℕ
  length : ℕ → ℕ

variable (s : Sys D (Backend D))

def nsView : NsView where
  manifest := s.back.manifest
  file := s.back.files.manifest
  attached := fun nsid => (s.back.domains nsid).attached
  total := fun nsid => (s.back.domains nsid).totalLogicalPages
  length := fun nsid => (s.back.domains nsid).gtd.length

/-- Only the entry of one domain changes. -/
theorem nsView_modifyDomain (nsid : ℕ) (update : AmDomain → AmDomain) :
    nsView (s.modifyDomain nsid update) =
      { nsView s with
        attached := Function.update (nsView s).attached nsid (update (s.back.domains nsid)).attached
        total := Function.update (nsView s).total nsid
          (update (s.back.domains nsid)).totalLogicalPages
        length := Function.update (nsView s).length nsid
          (update (s.back.domains nsid)).gtd.length } := by
  simp only [nsView, modifyDomain, NsView.mk.injEq, true_and]
  refine ⟨?_, ?_, ?_⟩ <;>
  · funext other
    by_cases hsame : other = nsid
    · rw [hsame, update_self, update_self]
    · rw [update_of_ne hsame, update_of_ne hsame]

theorem nsView_modifyDomain_same (nsid : ℕ) {update : AmDomain → AmDomain}
    (hattached : ∀ domain, (update domain).attached = domain.attached) (htotal : ∀ domain,
      (update domain).totalLogicalPages = domain.totalLogicalPages)
    (hlength : ∀ domain, (update domain).gtd.length = domain.gtd.length) :
    nsView (s.modifyDomain nsid update) = nsView s := by
  rw [nsView_modifyDomain, hattached, htotal, hlength]
  simp only [nsView, update_eq_self_iff.mpr]

theorem nsView_modifyPcache (nsid : ℕ)
    (update : XlatePcache → XlatePcache) : nsView (s.modifyPcache nsid update) = nsView s :=
  nsView_modifyDomain_same s nsid (fun _ => rfl) (fun _ => rfl) fun _ => rfl

theorem nsView_modifyXpg (nsid page : ℕ) (update : XlatePage → XlatePage) :
    nsView (s.modifyXpg nsid page update) = nsView s :=
  nsView_modifyPcache s nsid _

/-- A program of a device with nothing else to do. -/
abbrev runAlone (env : Env D) (prog : AmuM D α) (s : Sys D (Backend D)) :
    Outcome Fault (α × Sys D (Backend D)) :=
  exec (resumeAlone (resumeAmu env) env) prog s

/-- Every run of the program that returns leaves the namespace state alone. -/
abbrev NsKeeps (env : Env D) (prog : AmuM D α) : Prop :=
  ∀ view, Keeps (resumeAlone (resumeAmu env) env) (fun s => nsView s = view) prog

namespace NsKeeps

variable {env : Env D} {nsid page : ℕ}

theorem modify {update : Sys D (Backend D) → Sys D (Backend D)}
    (hupdate : ∀ s, nsView (update s) = nsView s) : NsKeeps env (modify update) :=
  fun _ => Keeps.modify fun s hview => (hupdate s).trans hview

theorem await (wait : Wait) : NsKeeps env (await wait) := by
  intro view
  apply Keeps.await
  intro s answered hview hanswer
  suffices hsame : nsView answered.2 = nsView s from hsame.trans hview
  cases wait with
  | flash =>
    simp only [resumeAlone, resumeOver, resumeAmu, resumeFlash] at hanswer
    split at hanswer
    · cases hanswer
    · obtain ⟨-, rfl⟩ := guard_some hanswer
      rfl
  | command => rw [← Option.some.inj hanswer]
  | hostDma | zdma =>
    cases hanswer
    rfl
  | flushIdle =>
    obtain ⟨-, rfl⟩ := unless_some hanswer
    rfl
  | entry | xlatePage | flushDone | flush =>
    obtain ⟨-, rfl⟩ := guard_some hanswer
    rfl

theorem outcome : NsKeeps env (Sys.outcome env) := by
  intro view
  refine bind get fun _ => ?_
  exact bind (modify (by intro s; rfl) view) fun _ => pure _

theorem allocMem : NsKeeps env (Sys.allocMem env) := fun view => bind (outcome view) fun _ => pure _

theorem lockXpg : NsKeeps env (Soda.lockXpg nsid page) := by
  intro view
  refine bind get fun s => ?_
  simp only
  split
  · exact modify (fun s => nsView_modifyXpg s nsid page _) view
  · refine ite (pure _) ?_
    refine bind (modify (fun s => nsView_modifyXpg s nsid page _) view) ?_
    exact fun _ => bind (await _ view) fun _ => pure _

theorem unlockXpg : NsKeeps env (Soda.unlockXpg nsid page) :=
  modify fun s => nsView_modifyXpg s nsid page _

theorem xpcPin : NsKeeps env (Soda.xpcPin nsid page) := modify fun s => nsView_modifyPcache s nsid _

theorem xpcUnpin : NsKeeps env (Soda.xpcUnpin nsid page) := fun view =>
  bind get fun _ => bind (assert _ _) fun _ => modify (fun s => nsView_modifyPcache s nsid _) view

theorem amuSubmit (op : FlashOp D) : NsKeeps env (Soda.amuSubmit op) :=
  fun view => bind (modify (by intro s; rfl) view) fun _ => await _ view

theorem readGtd (mvpn : ℕ) : NsKeeps env (Soda.readGtd nsid mvpn) := by
  intro view
  refine bind get fun s => ?_
  split
  · exact pure _
  · exact fault _

theorem invalidatePpa (ppa : ℕ) : NsKeeps env (Soda.invalidatePpa env ppa) :=
  modify (by intro s; rfl)

theorem allocPage (addr : PlaneAddr) (forGc forMapping : Bool) :
    NsKeeps env (Soda.allocPage env nsid addr forGc forMapping) := by
  intro view
  refine bind get fun s => ?_
  split
  · exact bind (modify (by intro s; rfl) view) fun _ => pure _
  · exact fault _

theorem allocPageForMapping (mvpn : ℕ) : NsKeeps env (Soda.allocPageForMapping env nsid mvpn) := by
  intro view
  refine bind get fun s => bind (readGtd mvpn view) fun mppn => ?_
  apply Keeps.ite
  · exact bind (invalidatePpa mppn view) fun _ => allocPage _ _ _ view
  · exact allocPage _ _ _ view

/-- A flushed translation page replaces one directory element. -/
theorem xpcFlushPage : NsKeeps env (Soda.xpcFlushPage env nsid page) := by
  intro view
  have hflushed : ∀ mvpn ppa, NsKeeps env (Prog.modify fun s =>
      (s.modifyXpg nsid page fun xpg =>
        { xpg with dirty := false }).modifyDomain nsid fun domain =>
          { domain with gtd := domain.gtd.set mvpn ppa }) := by
    intro mvpn ppa
    apply modify
    intro s
    rw [nsView_modifyDomain_same _ nsid (by intro domain; rfl)
      (by intro domain; rfl) (by intro domain; exact List.length_set), nsView_modifyXpg]
  refine bind get fun s => ite ?_ (pure _)
  refine bind (allocMem view) fun buffer => ite ?_ (pure _)
  refine bind (allocPageForMapping _ view) fun addr =>
    bind (amuSubmit _ view) fun answer => ite ?_ ?_
  · exact bind (hflushed _ _ view) fun _ => pure _
  · exact bind (modify (by intro s; rfl) view) fun _ => pure _

theorem flushDomainFrom (rounds start : ℕ) :
    NsKeeps env (Soda.flushDomainFrom env nsid rounds start) := by
  intro view
  induction rounds generalizing start with
  | zero => exact pure _
  | succ rounds ih =>
    refine bind get fun s => ?_
    split
    · exact pure _
    · apply Keeps.ite
      · refine bind (xpcPin view) fun _ => bind (lockXpg view) ?_
        exact fun _ => bind (xpcFlushPage view) fun _ =>
          bind (unlockXpg view) fun _ => bind (xpcUnpin view) fun _ => ih _
      · exact ih _

theorem saveGtd : NsKeeps env (Soda.saveGtd env nsid) := by
  intro view
  refine bind (outcome view) fun opened => ite ?_ (pure _)
  refine bind (outcome view) fun written => ite ?_ ?_
  · exact bind (modify (by intro s; rfl) view) fun _ => bind (outcome view) fun _ => pure _
  · exact bind (modify (by intro s; rfl) view) fun _ => pure _

theorem saveDomain : NsKeeps env (Soda.saveDomain env nsid) := fun view =>
  bind (flushDomainFrom _ _ view) fun _ => saveGtd view

end NsKeeps

end Soda
