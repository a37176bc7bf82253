import Soda.Core.Replay
import Soda.Core.Runs
import Soda.Ftl.Sequential

/-!
# Other faults

A run of the address mapping unit depends only on the outcomes it draws: with
faults that agree on these, the same program ends in the same state.
-/

namespace Soda

variable {D : Type}

open Prog Sys Oracles

def Env.withFaults (env : Env D) (faults : ℕ → Status) : Env D :=
  { env with faults := faults }

theorem cfg_withFaults (env : Env D) (faults : ℕ → Status) :
    (env.withFaults faults).cfg = env.cfg := rfl

def faultOracles (env : Env D) (faults : ℕ → Status) :
    Oracles (Sys D (Backend D)) Wait (Answer D) where
  clock := fun s => s.tick
  first := resumeAlone (resumeAmu env) env
  second := resumeAlone (resumeAmu (env.withFaults faults)) (env.withFaults faults)
  agree := fun position => env.faults position = faults position

/-- What a program does can be replayed with other faults. -/
abbrev Replayed {α : Type} (env : Env D) (faults : ℕ → Status) (prog : Env D → AmuM D α) : Prop :=
  (faultOracles env faults).Replays (prog env) (prog (env.withFaults faults))

section Replay

variable {env : Env D} {faults : ℕ → Status}

theorem agree_self {s s' : Sys D (Backend D)} (hagree : (faultOracles env faults).AgreeBetween s s')
    (htick : s'.tick = s.tick + 1) : env.faults s.tick = faults s.tick := by
  apply hagree s.tick le_rfl
  change s.tick < s'.tick
  rw [htick]
  exact Nat.lt_succ_self _

theorem replays_outcome : Replayed env faults fun env => outcome env := by
  rintro s value s' hexec
  cases hexec
  refine ⟨Nat.le_succ _, fun hagree => ?_⟩
  change Outcome.done (faults s.tick, _) = _
  rw [← agree_self hagree rfl]
  rfl

theorem replays_allocMem : Replayed env faults fun env => allocMem env :=
  replays_outcome.bind fun _ => .pure _

theorem replays_resumeFlash {self : Tid} {s s' : Sys D (Backend D)} {answer : Answer D}
    (hresume : resumeFlash env self s = some (answer, s')) :
    s.tick ≤ s'.tick ∧ ((faultOracles env faults).AgreeBetween s s' →
      resumeFlash (env.withFaults faults) self s = some (answer, s')) := by
  rw [resumeFlash] at hresume ⊢
  split at hresume
  · cases hresume
  · dsimp only at hresume ⊢
    obtain ⟨holdest, ⟨⟩⟩ := guard_some hresume
    refine ⟨Nat.le_succ _, fun hagree => ?_⟩
    have hsame := agree_self hagree rfl
    rw [if_pos holdest]
    simp only [Env.withFaults, hsame]
    rfl

theorem replays_await (wait : Wait) :
    Replayed env faults fun _ => (await wait : AmuM D (Answer D)) := by
  apply Replays.await
  intro s answer s' hresume
  cases wait with
  | flash => exact replays_resumeFlash hresume
  | xlatePage nsid page =>
    simp only [faultOracles, resumeAlone, resumeOver, resumeAmu] at hresume ⊢
    obtain ⟨howner, ⟨⟩⟩ := guard_some hresume
    exact ⟨le_refl _, fun _ => if_pos howner⟩
  | entry slot =>
    simp only [faultOracles, resumeAlone, resumeOver] at hresume ⊢
    obtain ⟨howner, ⟨⟩⟩ := guard_some hresume
    exact ⟨le_refl _, fun _ => if_pos howner⟩
  | command =>
    cases hresume
    exact ⟨le_refl _, fun _ => rfl⟩
  | hostDma | zdma =>
    cases hresume
    refine ⟨Nat.le_succ _, fun hagree => ?_⟩
    change some (({ status := faults s.tick } : Answer D), _) = _
    rw [← agree_self hagree rfl]
  | flushIdle =>
    simp only [faultOracles, resumeAlone, resumeOver] at hresume ⊢
    obtain ⟨hidle, ⟨⟩⟩ := unless_some hresume
    exact ⟨le_refl _, fun _ => if_neg hidle⟩
  | flushDone =>
    simp only [faultOracles, resumeAlone, resumeOver] at hresume ⊢
    obtain ⟨hdone, ⟨⟩⟩ := guard_some hresume
    exact ⟨le_refl _, fun _ => if_pos hdone⟩
  | flush index =>
    simp only [faultOracles, resumeAlone, resumeOver] at hresume ⊢
    obtain ⟨hactive, ⟨⟩⟩ := guard_some hresume
    exact ⟨le_refl _, fun _ => if_pos hactive⟩

theorem replays_lockXpg (nsid page : ℕ) :
    Replayed env faults fun _ => (lockXpg nsid page : AmuM D Unit) := by
  rw [lockXpg, lockWith]
  apply Replays.get.bind
  intro s
  split
  · exact .modify fun _ => rfl
  · apply Replays.ite
    · exact .pure _
    · refine .modifyThen (fun _ => rfl) ?_
      exact (replays_await _).bind fun _ => .pure _

theorem replays_xpcUnpin (nsid page : ℕ) :
    Replayed env faults fun _ => (xpcUnpin nsid page : AmuM D Unit) := by
  rw [xpcUnpin]
  apply Replays.get.bind
  intro s
  exact (Replays.assert _ _).bind fun _ => .modify fun _ => rfl

theorem replays_amuSubmit (op : FlashOp D) : Replayed env faults fun _ => amuSubmit op :=
  .modifyThen (fun _ => rfl) (replays_await _)

theorem replays_readGtd (nsid mvpn : ℕ) :
    Replayed env faults fun _ => (readGtd nsid mvpn : AmuM D ℕ) := by
  rw [readGtd]
  apply Replays.get.bind
  intro s
  split
  · exact .pure _
  · exact .fault _

theorem replays_allocPage (nsid : ℕ) (addr : PlaneAddr) (forGc forMapping : Bool) :
    Replayed env faults fun env => allocPage env nsid addr forGc forMapping := by
  unfold allocPage
  apply Replays.get.bind
  intro s
  rw [cfg_withFaults]
  split
  · exact .modifyThen (fun _ => rfl) (.pure _)
  · exact .fault _

theorem replays_xpcAdd (nsid mvpn : ℕ) : Replayed env faults fun env => xpcAdd env nsid mvpn := by
  unfold xpcAdd
  apply Replays.get.bind
  intro s
  apply Replays.ite
  · exact .pure _
  · apply replays_allocMem.bind
    intro struct
    apply (Replays.assert _ _).bind
    intro _
    apply replays_allocMem.bind
    intro buffer
    apply Replays.ite
    · exact .modifyThen (fun _ => rfl) (.pure _)
    · exact .pure _

theorem replays_xpcReadPage (nsid page : ℕ) :
    Replayed env faults fun env => xpcReadPage env nsid page := by
  unfold xpcReadPage
  apply Replays.get.bind
  intro s
  apply (replays_readGtd _ _).bind
  intro mppn
  apply (Replays.assert _ _).bind
  intro _
  apply replays_allocMem.bind
  intro buffer
  apply Replays.ite
  · apply (replays_amuSubmit _).bind
    intro answer
    apply Replays.ite
    · exact .modifyThen (fun _ => rfl) (.pure _)
    · exact .pure _
  · exact .pure _

theorem replays_allocPageForMapping (nsid mvpn : ℕ) :
    Replayed env faults fun env => allocPageForMapping env nsid mvpn := by
  unfold allocPageForMapping
  apply Replays.get.bind
  intro s
  apply (replays_readGtd _ _).bind
  intro mppn
  apply Replays.ite
  · refine .modifyThen (fun _ => rfl) ?_
    exact replays_allocPage _ _ _ _
  · exact replays_allocPage _ _ _ _

theorem replays_xpcFlushPage (nsid page : ℕ) :
    Replayed env faults fun env => xpcFlushPage env nsid page := by
  unfold xpcFlushPage
  apply Replays.get.bind
  intro s
  apply Replays.ite
  · apply replays_allocMem.bind
    intro buffer
    apply Replays.ite
    · apply (replays_allocPageForMapping _ _).bind
      intro addr
      apply (replays_amuSubmit _).bind
      intro answer
      apply Replays.ite
      · exact .modifyThen (fun _ => rfl) (.pure _)
      · exact .modifyThen (fun _ => rfl) (.pure _)
    · exact .pure _
  · exact .pure _

theorem replays_xpcEvict (nsid : ℕ) :
    Replayed env faults fun _ => (xpcEvict nsid : AmuM D (Status × ℕ)) := by
  rw [xpcEvict]
  apply Replays.get.bind
  intro s
  split
  · exact .pure _
  · apply (Replays.assert _ _).bind
    intro _
    exact .modifyThen (fun _ => rfl) (.pure _)

theorem replays_getTranslationPage (nsid mvpn : ℕ) :
    Replayed env faults fun env => getTranslationPage env nsid mvpn := by
  unfold getTranslationPage
  apply Replays.get.bind
  intro s
  split
  · refine .modifyThen (fun _ => rfl) ?_
    exact (replays_lockXpg _ _).bind fun _ => .pure _
  · apply (replays_xpcAdd _ _).bind
    rintro ⟨status, page⟩
    dsimp only
    split
    · apply (replays_xpcEvict _).bind
      rintro ⟨status, page⟩
      apply Replays.ite
      · apply (replays_xpcFlushPage _ _).bind
        intro _
        refine .modifyThen (fun _ => rfl) ?_
        refine .modifyThen (fun _ => rfl) ?_
        exact (replays_lockXpg _ _).bind fun _ => .pure _
      · exact .pure _
    · exact .pure _
    · apply (replays_lockXpg _ _).bind
      intro _
      apply (replays_readGtd _ _).bind
      intro mppn
      apply Replays.ite
      · exact .modifyThen (fun _ => rfl) (.pure _)
      · apply (replays_xpcReadPage _ _).bind
        intro status
        apply Replays.ite
        · exact .pure _
        · refine .modifyThen (fun _ => rfl) ?_
          refine .modifyThen (fun _ => rfl) ?_
          exact (replays_xpcUnpin _ _).bind fun _ => .pure _

theorem replays_getPpa (nsid lpa : ℕ) : Replayed env faults fun env => getPpa env nsid lpa := by
  unfold getPpa
  apply (replays_getTranslationPage _ _).bind
  rintro ⟨status, page⟩
  apply Replays.ite
  · apply Replays.get.bind
    intro s
    refine .modifyThen (fun _ => rfl) ?_
    exact (replays_xpcUnpin _ _).bind fun _ => .pure _
  · exact .pure _

theorem replays_updateRead [Zero D] (txn : Txn D) (entry : XlateEntry) :
    Replayed env faults fun env => updateRead env txn entry := by
  unfold updateRead
  apply (Replays.assert _ _).bind
  intro _
  apply (Replays.assert _ _).bind
  intro _
  apply replays_allocMem.bind
  intro buffer
  apply Replays.ite
  · apply (replays_amuSubmit _).bind
    intro answer
    apply Replays.ite
    · apply (replays_await _).bind
      intro copied
      apply Replays.ite
      · exact .pure _
      · exact .pure _
    · exact .pure _
  · exact .pure _

theorem replays_retireOldPage [Zero D] (txn : Txn D) (entry : XlateEntry) :
    Replayed env faults fun env => retireOldPage env txn entry := by
  have hafter : ∀ result : Status × Txn D, Replayed env faults fun env =>
      if result.1 = none then do
        invalidatePpa env entry.ppa
        pure (none, result.2)
      else pure (result.1, result.2) := by
    intro result
    apply Replays.ite
    · exact .modifyThen (fun _ => rfl) (.pure _)
    · exact .pure _
  unfold retireOldPage
  apply Replays.ite
  · apply Replays.ite
    · exact (replays_updateRead _ _).bind hafter
    · exact hafter (none, txn)
  · exact .pure _

theorem replays_allocPageForWrite [Zero D] (txn : Txn D) (forGc : Bool) :
    Replayed env faults fun env => allocPageForWrite env txn forGc := by
  unfold allocPageForWrite
  apply (replays_getTranslationPage _ _).bind
  rintro ⟨status, page⟩
  apply Replays.ite
  · apply Replays.get.bind
    intro s
    apply (replays_retireOldPage _ _).bind
    rintro ⟨status, txn⟩
    apply Replays.ite
    · apply (replays_allocPage _ _ _ _).bind
      intro addr
      refine .modifyThen (fun _ => rfl) ?_
      refine .modifyThen (fun _ => rfl) ?_
      exact (replays_xpcUnpin _ _).bind fun _ => .pure _
    · refine .modifyThen (fun _ => rfl) ?_
      exact (replays_xpcUnpin _ _).bind fun _ => .pure _
  · exact .pure _

theorem replays_translateLpa [Zero D] (txn : Txn D) :
    Replayed env faults fun env => translateLpa env txn := by
  have hplace : Replayed env faults (fun env => do
      let txn ← assignTxn env txn
      let placed ← allocPageForWrite env txn false
      pure (placed.1, { placed.2 with ppaReady := decide (placed.1 = none) })) := by
    apply (Replays.get.bind fun _ => .pure _).bind
    intro txn
    exact (replays_allocPageForWrite _ _).bind fun _ => .pure _
  unfold translateLpa
  apply (Replays.assert _ _).bind
  intro _
  apply Replays.get.bind
  intro s
  apply Replays.ite
  · split
    · apply (replays_getPpa _ _).bind
      rintro ⟨status, entry⟩
      apply Replays.ite
      · apply Replays.ite
        · exact hplace
        · exact .pure _
      · exact .pure _
    · exact hplace
  · exact .pure _

theorem replays_translateAll [Zero D] (txns : List (Txn D)) :
    Replayed env faults fun env => translateAll env txns := by
  induction txns with
  | nil => exact .pure _
  | cons txn txns ih =>
    unfold translateAll
    apply (replays_translateLpa _).bind
    rintro ⟨status, txn⟩
    apply Replays.ite
    · exact ih.bind fun _ => .pure _
    · exact .pure _

end Replay

end Soda
