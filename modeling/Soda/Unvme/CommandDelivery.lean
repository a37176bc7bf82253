import Soda.Unvme.Commands

/-!
# Completions reach their own command

As long as no command is registered under the id a new one is given, every
command that was not removed is the one the table has under its id, and so
completion entries, callbacks and waits all meet at the same submission.
-/

namespace Soda.Unvme

open Function Prod

variable {F R : Type}

namespace CommandTable

open UInt16 List

/-- The status and the result are those of the completion entry of
submission `n`. -/
def Answers (d : CommandTable F R) (n status : ℕ) (result : R) : Prop :=
  ∃ cqe, (n, cqe) ∈ d.completions ∧ status = (cqe.status >>> 1).toNat ∧ result = cqe.result

/-- Commands in flight have distinct ids, a callback made for an entry is that
of the submission the entry belongs to, a wait returns the status and the
result of the entry of its own submission, and no entry is left without a
command. -/
structure Delivers (d : CommandTable F R) : Prop where
  distinct : ∀ m n id, (d.submission m).entry = .inFlight id →
    (d.submission n).entry = .inFlight id → m = n
  called : ∀ n callback status result, (n, callback, status, result) ∈ d.callbacks →
      (d.submission n).callback = some callback ∧ d.Answers n status result
  returned : ∀ n status result, (n, status, result) ∈ d.returns →
    (d.submission n).callback = none ∧ d.Answers n status result
  none_lost : d.strays = []

/-- The command of submission `n` is registered under its id. -/
structure Registered (d : CommandTable F R) (n : ℕ) : Prop where
  mapped : d.commandMap (ofNat n) = some n
  pointer : (d.submission n).command = n
  id_eq : (d.command n).id = ofNat n
  callback_eq : (d.command n).callback = (d.submission n).callback
  stored : (d.command n).completed = true → (d.submission n).entry = .answered ∧
      d.Answers n (d.command n).status (d.command n).result

structure Sound (d : CommandTable F R) : Prop where
  counter_eq : d.commandIdCounter = ofNat d.made
  beyond : ∀ n, d.made ≤ n → (d.submission n).released = true
  registered : ∀ n, (d.submission n).released = false → d.Registered n
  owner : ∀ id pointer, d.commandMap id = some pointer →
    (d.submission pointer).released = false ∧ id = ofNat pointer
  open_entry : ∀ n, (d.submission n).entry ≠ .answered → (d.submission n).released = false
  open_wait : ∀ n, (d.submission n).returned = false →
    (d.submission n).callback = none → (d.submission n).released = false
  inFlight_id : ∀ n id, (d.submission n).entry = .inFlight id → id = ofNat n
  releasing : ∀ n id, (n, id) ∈ d.releases → id = ofNat n ∧
    (d.submission n).released = false ∧ (d.submission n).entry = .answered ∧
    ((d.submission n).callback = none → (d.submission n).returned = true)
  releases_nodup : (d.releases.map fst).Nodup
  logged : ∀ n cqe, (n, cqe) ∈ d.completions → n < d.made
  called : ∀ n callback status result, (n, callback, status, result) ∈ d.callbacks →
      (d.submission n).callback = some callback ∧ d.Answers n status result
  returned : ∀ n status result, (n, status, result) ∈ d.returns →
    (d.submission n).callback = none ∧ d.Answers n status result
  none_lost : d.strays = []

/-- No command that is still registered was submitted a multiple of 65536
submissions before. -/
def Fresh (d : CommandTable F R) : CommandAction F R → Prop
  | .setup _ => ∀ n < d.made, (d.submission n).released = false → n % 65536 ≠ d.made % 65536
  | _ => True

variable {d : CommandTable F R}

variable {n : ℕ}

variable {m status : ℕ} {d' : CommandTable F R} {result : R} {id : UInt16}

theorem ofNat_eq_iff : UInt16.ofNat m = UInt16.ofNat n ↔ m % 65536 = n % 65536 := by
  rw [← UInt16.toNat_inj]
  rfl

theorem Answers.mono (hanswers : d.Answers n status result)
    (hlog : d.completions ⊆ d'.completions) : d'.Answers n status result := by
  obtain ⟨cqe, hcqe, hvalues⟩ := hanswers
  exact ⟨cqe, hlog hcqe, hvalues⟩

/-- What a registered command depends on. -/
theorem Registered.congr (hown : d.Registered n)
    (hmap : d'.commandMap (ofNat n) = d.commandMap (ofNat n))
    (hcommand : d'.command n = d.command n)
    (hpointer : (d'.submission n).command = (d.submission n).command)
    (hcallback : (d'.submission n).callback = (d.submission n).callback)
    (hentry : (d.submission n).entry = .answered → (d'.submission n).entry = .answered)
    (hlog : d.completions ⊆ d'.completions) : d'.Registered n where
  mapped := by
    rw [hmap]
    exact hown.mapped
  pointer := by
    rw [hpointer]
    exact hown.pointer
  id_eq := by
    rw [hcommand]
    exact hown.id_eq
  callback_eq := by
    rw [hcommand, hcallback]
    exact hown.callback_eq
  stored := by
    rw [hcommand]
    intro hcompleted
    obtain ⟨hanswered, hanswers⟩ := hown.stored hcompleted
    exact ⟨hentry hanswered, hanswers.mono hlog⟩

/-- Under a free id the new command is its own. -/
theorem setupAsyncCommand_eq (callback : Option F) (hcounter : d.commandIdCounter = ofNat d.made)
    (hfree : d.commandMap (ofNat d.made) = none) :
    d.setupAsyncCommand callback = { d with
      commandIdCounter := ofNat (d.made + 1)
      commandMap := update d.commandMap (ofNat d.made) (some d.made)
      command := update d.command d.made
        { d.command d.made with
          id := ofNat d.made, completed := false, callback := callback }
      made := d.made + 1
      submission := update d.submission d.made ⟨callback, d.made, .prepared, false, false⟩ } := by
  rw [setupAsyncCommand, emplaced, hcounter, hfree, ofNat_add]
  rfl

theorem setSubmission_self (n : ℕ) (sub : Submission F) :
    (d.setSubmission n sub).submission n = sub :=
  update_self _ _ _

variable (hsound : d.Sound)
include hsound

theorem Sound.distinct (m n : ℕ) (id : UInt16) (hm : (d.submission m).entry = .inFlight id)
    (hn : (d.submission n).entry = .inFlight id) : m = n := by
  have hopen : ∀ k, (d.submission k).entry = .inFlight id → d.commandMap id = some k := by
    intro k hk
    have hown := hsound.registered k
      (hsound.open_entry k (by rw [hk]; exact EntryState.noConfusion))
    rw [hsound.inFlight_id k id hk]
    exact hown.mapped
  exact Option.some.inj ((hopen m hm).symm.trans (hopen n hn))

theorem Sound.delivers : d.Delivers where
  distinct := hsound.distinct
  called := hsound.called
  returned := hsound.returned
  none_lost := hsound.none_lost

theorem Sound.lt_made {n : ℕ} (hanswers : d.Answers n status result) : n < d.made := by
  obtain ⟨cqe, hcqe, _⟩ := hanswers
  exact hsound.logged n cqe hcqe

theorem Sound.lt_of_open {n : ℕ} (hopen : (d.submission n).released = false) : n < d.made := by
  by_contra hge
  rw [hsound.beyond n (not_lt.mp hge)] at hopen
  cases hopen

theorem Sound.map_counter
    (hfresh : ∀ n < d.made, (d.submission n).released = false → n % 65536 ≠ d.made % 65536) :
    d.commandMap (ofNat d.made) = none := by
  cases hmap : d.commandMap (ofNat d.made) with
  | none => rfl
  | some pointer =>
    obtain ⟨hopen, hid⟩ := hsound.owner _ _ hmap
    rw [ofNat_eq_iff] at hid
    exact absurd hid.symm (hfresh pointer (hsound.lt_of_open hopen) hopen)

/-- One submission changes and may be registered or removed. -/
theorem Sound.put {n : ℕ} {sub : Submission F} (hsub : d'.submission = update d.submission n sub)
    (hcounter : d'.commandIdCounter = ofNat d'.made) (hmade : d.made ≤ d'.made) (hn : n < d'.made)
    (hself : sub.released = false → d'.Registered n)
    (hmap : ∀ m, m ≠ n → (d.submission m).released = false →
      d'.commandMap (ofNat m) = d.commandMap (ofNat m) ∧ d'.command m = d.command m)
    (howner : ∀ id pointer, d'.commandMap id = some pointer →
      d.commandMap id = some pointer ∧ pointer ≠ n ∨
        pointer = n ∧ sub.released = false ∧ id = ofNat n)
    (hclosed : sub.released = true →
      sub.entry = .answered ∧ (sub.callback = none → sub.returned = true))
    (hid : ∀ id, sub.entry = .inFlight id → id = ofNat n) (hreleases : d'.releases <+ d.releases)
    (hreleasing : ∀ id, (n, id) ∈ d'.releases → sub.released = false ∧ sub.entry = .answered ∧
      (sub.callback = none → sub.returned = true))
    (hcallback : n < d.made → sub.callback = (d.submission n).callback)
    (hcompletions : d'.completions = d.completions) (hcallbacks : d'.callbacks = d.callbacks)
    (hreturns : d'.returns = d.returns) (hstrays : d'.strays = d.strays) : d'.Sound := by
  have hat : d'.submission n = sub := by
    rw [hsub, update_self]
  have hkept : ∀ m, m ≠ n → d'.submission m = d.submission m := by
    intro m hm
    rw [hsub, update_of_ne hm]
  have hlog : d.completions ⊆ d'.completions := by
    rw [hcompletions]
    exact Subset.refl _
  have hsame : ∀ m < d.made, (d'.submission m).callback = (d.submission m).callback := by
    intro m hm
    by_cases hmn : m = n
    · rw [hmn, hat, hcallback (hmn ▸ hm)]
    · rw [hkept m hmn]
  have hopen : ∀ m, (d'.submission m).released = true → (d'.submission m).entry = .answered ∧
      ((d'.submission m).callback = none → (d'.submission m).returned = true) := by
    intro m hm
    by_cases hmn : m = n
    · rw [hmn, hat] at hm ⊢
      exact hclosed hm
    · rw [hkept m hmn] at hm ⊢
      refine ⟨?_, fun hnone => ?_⟩
      · by_contra hentry
        rw [hsound.open_entry m hentry] at hm
        cases hm
      · by_contra hwait
        rw [hsound.open_wait m (Bool.eq_false_of_not_eq_true hwait) hnone] at hm
        cases hm
  exact {
    counter_eq := hcounter
    beyond := by
      intro m hm
      rw [hkept m (hn.trans_le hm).ne']
      exact hsound.beyond m (hmade.trans hm)
    registered := by
      intro m hm
      by_cases hmn : m = n
      · rw [hmn, hat] at hm
        rw [hmn]
        exact hself hm
      · have hsub := hkept m hmn
        rw [hsub] at hm
        obtain ⟨hmapped, hcommand⟩ := hmap m hmn hm
        exact (hsound.registered m hm).congr hmapped hcommand (by rw [hsub]) (by rw [hsub])
          (by rw [hsub]; exact fun hm => hm) hlog
    owner := by
      intro id pointer hfound
      rcases howner id pointer hfound with ⟨hold, hne⟩ | ⟨rfl, hreleased, hnew⟩
      · rw [hkept pointer hne]
        exact hsound.owner id pointer hold
      · rw [hat]
        exact ⟨hreleased, hnew⟩
    open_entry := by
      intro m hentry
      by_contra hm
      exact hentry (hopen m (Bool.eq_true_of_not_eq_false hm)).1
    open_wait := by
      intro m hwait hnone
      by_contra hm
      rw [(hopen m (Bool.eq_true_of_not_eq_false hm)).2 hnone] at hwait
      cases hwait
    inFlight_id := by
      intro m id hm
      by_cases hmn : m = n
      · rw [hmn, hat] at hm
        rw [hmn]
        exact hid id hm
      · rw [hkept m hmn] at hm
        exact hsound.inFlight_id m id hm
    releasing := by
      intro m id hm
      obtain ⟨hold, hrest⟩ := hsound.releasing m id (hreleases.subset hm)
      by_cases hmn : m = n
      · subst hmn
        rw [hat]
        exact ⟨hold, hreleasing id hm⟩
      · rw [hkept m hmn]
        exact ⟨hold, hrest⟩
    releases_nodup := hsound.releases_nodup.sublist (hreleases.map fst)
    logged := by
      intro m cqe hm
      rw [hcompletions] at hm
      exact (hsound.logged m cqe hm).trans_le hmade
    called := by
      intro m callback status result hm
      rw [hcallbacks] at hm
      obtain ⟨hfound, hanswers⟩ := hsound.called m callback status result hm
      rw [hsame m (hsound.lt_made hanswers)]
      exact ⟨hfound, hanswers.mono hlog⟩
    returned := by
      intro m status result hm
      rw [hreturns] at hm
      obtain ⟨hfound, hanswers⟩ := hsound.returned m status result hm
      rw [hsame m (hsound.lt_made hanswers)]
      exact ⟨hfound, hanswers.mono hlog⟩
    none_lost := hstrays.trans hsound.none_lost }

theorem Sound.setup (callback : Option F)
    (hfresh : ∀ n < d.made, (d.submission n).released = false → n % 65536 ≠ d.made % 65536) :
    (d.setupAsyncCommand callback).Sound := by
  have hfree := hsound.map_counter hfresh
  rw [setupAsyncCommand_eq callback hsound.counter_eq hfree]
  have hne : ∀ n, (d.submission n).released = false → n ≠ d.made :=
    fun n hopen => (hsound.lt_of_open hopen).ne
  refine hsound.put (n := d.made) rfl rfl (Nat.le_succ _) (Nat.lt_succ_self _) ?_ ?_ ?_ nofun
    nofun (Sublist.refl _) ?_ (fun hlt => absurd hlt (lt_irrefl _)) rfl rfl rfl rfl
  · intro _
    constructor <;> simp
  · intro n hn hopen
    have hother : ofNat n ≠ ofNat d.made := by
      intro heq
      have hmapped := (hsound.registered n hopen).mapped
      rw [heq, hfree] at hmapped
      cases hmapped
    exact ⟨update_of_ne hother _ _, update_of_ne hn _ _⟩
  · intro id pointer hmap
    by_cases hid : id = ofNat d.made
    · simp only [hid, update_self] at hmap
      cases hmap
      exact .inr ⟨rfl, rfl, hid⟩
    · simp only [update_of_ne hid] at hmap
      exact .inl ⟨hmap, hne pointer (hsound.owner id pointer hmap).1⟩
  · intro id hmem
    exact absurd rfl (hne d.made (hsound.releasing d.made id hmem).2.1)

/-- A submission that stays registered goes on: its entry changes, or its
caller's wait ends. -/
theorem Sound.setSubmission {n : ℕ} {sub : Submission F} (hopen : (d.submission n).released = false)
    (hcallback : sub.callback = (d.submission n).callback)
    (hpointer : sub.command = (d.submission n).command) (hreleased : sub.released = false)
    (hid : ∀ id, sub.entry = .inFlight id → id = ofNat n)
    (hanswered : (d.submission n).entry = .answered → sub.entry = .answered)
    (hreturned : (d.submission n).returned = true → sub.returned = true) :
    (d.setSubmission n sub).Sound := by
  refine hsound.put (n := n) rfl hsound.counter_eq le_rfl (hsound.lt_of_open hopen) ?_
    (fun _ _ _ => ⟨rfl, rfl⟩) ?_ ?_ hid (Sublist.refl _) ?_ (fun _ => hcallback) rfl rfl rfl rfl
  · intro _
    refine (hsound.registered n hopen).congr rfl rfl ?_ ?_ ?_ (Subset.refl _)
    all_goals rw [setSubmission_self]
    exacts [hpointer, hcallback, hanswered]
  · intro id pointer hmap
    by_cases hn : pointer = n
    · rw [hn] at hmap
      exact .inr ⟨hn, hreleased, (hsound.owner id n hmap).2⟩
    · exact .inl ⟨hmap, hn⟩
  · rw [hreleased]
    exact nofun
  · intro id hmem
    obtain ⟨-, -, hentry, hwait⟩ := hsound.releasing n id hmem
    rw [hcallback]
    exact ⟨hreleased, hanswered hentry, fun hnone => hreturned (hwait hnone)⟩

theorem Sound.addRelease {n : ℕ} (id : UInt16)
    (hid : id = ofNat n) (hopen : (d.submission n).released = false)
    (hanswered : (d.submission n).entry = .answered) (hwait : (d.submission n).callback = none →
      (d.submission n).returned = true) (hlast : n ∉ d.releases.map fst) :
    ({ d with releases := d.releases ++ [(n, id)] } : CommandTable F R).Sound :=
  { hsound with
    registered := by
      intro m hm
      have hown := hsound.registered m hm
      exact { hown with }
    releasing := by
      intro m id' hm
      rcases mem_append.mp hm with hold | hnew
      · exact hsound.releasing m id' hold
      · cases mem_singleton.mp hnew
        exact ⟨hid, hopen, hanswered, hwait⟩
    releases_nodup := by
      rw [map_append, nodup_append]
      refine ⟨hsound.releases_nodup, nodup_singleton _, ?_⟩
      intro m hm k hk hmk
      rw [hmk, mem_singleton.mp hk] at hm
      exact hlast hm }

theorem Sound.submit {n : ℕ} (hprepared : (d.submission n).entry = .prepared) :
    (d.submitCommand n).Sound := by
  have hopen := hsound.open_entry n (by simp [hprepared])
  have hown := hsound.registered n hopen
  simp only [submitCommand, hown.pointer, hown.id_eq]
  refine hsound.setSubmission hopen rfl hown.pointer.symm hopen ?_ ?_ ?_
  · rintro id ⟨⟩
    rfl
  · intro hanswered
    rw [hprepared] at hanswered
    cases hanswered
  · exact id

theorem Sound.wait {n : ℕ} (hnone : (d.submission n).callback = none)
    (hwaiting : (d.submission n).returned = false)
    (hcompleted : (d.command (d.submission n).command).completed = true) :
    (d.waitReturns n).Sound := by
  have hopen := hsound.open_wait n hwaiting hnone
  have hown := hsound.registered n hopen
  rw [hown.pointer] at hcompleted
  obtain ⟨hanswered, hanswers⟩ := hown.stored hcompleted
  have hlast : n ∉ d.releases.map fst := by
    intro hmem
    obtain ⟨release, hrelease, rfl⟩ := mem_map.mp hmem
    rw [(hsound.releasing _ _ hrelease).2.2.2 hnone] at hwaiting
    cases hwaiting
  have hset : (d.setSubmission n { d.submission n with returned := true }).Sound := by
    refine hsound.setSubmission hopen rfl rfl hopen ?_ ?_ ?_
    · exact hsound.inFlight_id n
    · exact id
    · intro _
      rfl
  have hrelease := hset.addRelease (d.command n).id hown.id_eq
    (by rw [setSubmission_self]; exact hopen) (by rw [setSubmission_self]; exact hanswered)
    (by rw [setSubmission_self]; exact fun _ => rfl) hlast
  rw [waitReturns, hown.pointer]
  exact {
    hrelease with
    registered := by
      intro m hm
      have hown' := hrelease.registered m hm
      exact { hown' with }
    returned := by
      intro m status result hm
      rcases mem_append.mp hm with hold | hnew
      · exact hrelease.returned m status result hold
      · cases mem_singleton.mp hnew
        refine ⟨?_, hanswers⟩
        simp only [setSubmission_self]
        exact hnone }

/-- There is one removal under way for a submission at a time. -/
theorem Sound.other_release {n : ℕ} (hmem : (n, id) ∈ d.releases) (m : ℕ) (id' : UInt16)
    (hother : (m, id') ∈ d.releases.erase (n, id)) : m ≠ n := by
  have hperm := (perm_cons_erase hmem).map fst
  have hnodup := hperm.nodup_iff.mp hsound.releases_nodup
  rw [map_cons, nodup_cons] at hnodup
  rintro rfl
  exact hnodup.1 (mem_map.mpr ⟨(m, id'), hother, rfl⟩)

theorem Sound.remove {n : ℕ} (hmem : (n, id) ∈ d.releases) : (d.removeAsyncCommand n id).Sound := by
  obtain ⟨hid, hopen, hanswered, hreturned⟩ := hsound.releasing n id hmem
  have hown := hsound.registered n hopen
  refine hsound.put (n := n) rfl hsound.counter_eq le_rfl (hsound.lt_of_open hopen) nofun ?_ ?_
    (fun _ => ⟨hanswered, hreturned⟩) ?_ erase_sublist ?_ (fun _ => rfl) rfl rfl rfl rfl
  · -- the submission was the only one with this id
    intro m hmn hm
    refine ⟨update_of_ne ?_ _ _, rfl⟩
    intro heq
    have hmapped := (hsound.registered m hm).mapped
    rw [heq, hid, hown.mapped] at hmapped
    exact hmn (Option.some.inj hmapped).symm
  · intro id' pointer hfound
    have hne : id' ≠ id := by
      rintro rfl
      simp only [removeAsyncCommand, update_self] at hfound
      cases hfound
    simp only [removeAsyncCommand, update_of_ne hne] at hfound
    refine .inl ⟨hfound, ?_⟩
    rintro rfl
    exact hne ((hsound.owner id' pointer hfound).2.trans hid.symm)
  · intro id' hentry
    rw [hanswered] at hentry
    cases hentry
  · intro id' hother
    exact absurd rfl (hsound.other_release hmem n id' hother)

omit hsound

/-- The entry was taken off the queue and is about to be handed on. -/
def answered (d : CommandTable F R) (n : ℕ) (cqe : NvmeCompletion R) : CommandTable F R :=
  { d.setSubmission n { d.submission n with entry := .answered } with
    completions := d.completions ++ [(n, cqe)] }

theorem answered_answers (n : ℕ) (cqe : NvmeCompletion R) :
    (d.answered n cqe).Answers n (cqe.status >>> 1).toNat cqe.result :=
  ⟨cqe, mem_append_right _ mem_cons_self, rfl, rfl⟩

theorem Sound.answered (hsound : d.Sound) {n : ℕ}
    (hinflight : (d.submission n).entry = .inFlight id)
    (cqe : NvmeCompletion R) : (d.answered n cqe).Sound := by
  have hopen := hsound.open_entry n (by simp [hinflight])
  have hlt := hsound.lt_of_open hopen
  have hset : (d.setSubmission n { d.submission n with entry := .answered }).Sound := by
    refine hsound.setSubmission hopen rfl rfl hopen ?_ ?_ ?_
    · rintro id ⟨⟩
    · intro _
      rfl
    · exact fun hreturned => hreturned
  have hlog : (d.setSubmission n { d.submission n with entry := .answered }).completions ⊆
        (d.answered n cqe).completions :=
    subset_append_left _ _
  exact {
    hset with
    registered := by
      intro m hm
      exact (hset.registered m hm).congr rfl rfl rfl rfl (fun hm => hm) hlog
    logged := by
      intro m cqe' hm
      rcases mem_append.mp hm with hold | hnew
      · exact hset.logged m cqe' hold
      · cases mem_singleton.mp hnew
        exact hlt
    called := by
      intro m callback status result hm
      obtain ⟨hfound, hanswers⟩ := hset.called m callback status result hm
      exact ⟨hfound, hanswers.mono hlog⟩
    returned := by
      intro m status result hm
      obtain ⟨hfound, hanswers⟩ := hset.returned m status result hm
      exact ⟨hfound, hanswers.mono hlog⟩ }

theorem Sound.complete (hsound : d.Sound) {n : ℕ} (hopen : (d.submission n).released = false)
    (hanswered : (d.submission n).entry = .answered)
    (hlast : n ∉ d.releases.map fst) {cqe : NvmeCompletion R} (hid : cqe.commandId = ofNat n)
    (hanswers : d.Answers n (cqe.status >>> 1).toNat cqe.result) : (d.complete n n cqe).Sound := by
  have hown := hsound.registered n hopen
  simp only [CommandTable.complete]
  cases hcallback : (d.command n).callback with
  | some callback =>
    rw [hown.callback_eq] at hcallback
    have hrelease := hsound.addRelease _ hid hopen hanswered (by rw [hcallback]; rintro ⟨⟩) hlast
    exact {
      hrelease with
      registered := by
        intro m hm
        have hown' := hrelease.registered m hm
        exact { hown' with }
      called := by
        intro m found status result hm
        rcases mem_append.mp hm with hold | hnew
        · exact hsound.called m found status result hold
        · cases mem_singleton.mp hnew
          exact ⟨hcallback, hanswers⟩ }
  | none =>
    exact {
      hsound with
      registered := by
        intro m hm
        by_cases hmn : m = n
        · subst hmn
          exact {
            mapped := hown.mapped
            pointer := hown.pointer
            id_eq := by
              simp only [setCommand, update_self]
              exact hown.id_eq
            callback_eq := by
              simp only [setCommand, update_self]
              rw [← hown.callback_eq, hcallback]
            stored := by
              intro _
              simp only [setCommand, update_self]
              exact ⟨hanswered, hanswers⟩ }
        · have hcommand := update_of_ne (f := d.command) hmn
          exact (hsound.registered m hm).congr rfl (hcommand _) rfl rfl
            (fun hm => hm) (List.Subset.refl _) }

/-- The entry of a submission in flight finds the command of that
submission. -/
theorem Sound.handle (hsound : d.Sound) {n : ℕ}
    (hinflight : (d.submission n).entry = .inFlight id) (status : UInt16) (result : R) :
    (d.handleCqe n ⟨result, id, status⟩).Sound := by
  have hopen := hsound.open_entry n (by simp [hinflight])
  have hmapped := (hsound.registered n hopen).mapped
  have hid := hsound.inFlight_id n id hinflight
  have hlast : n ∉ d.releases.map fst := by
    intro hmem
    obtain ⟨release, hrelease, rfl⟩ := mem_map.mp hmem
    have hdone := (hsound.releasing _ _ hrelease).2.2.1
    rw [hinflight] at hdone
    cases hdone
  have hfind : d.handleCqe n ⟨result, id, status⟩ = (d.answered n ⟨result, id, status⟩).complete n n
        ⟨result, id, status⟩ := by
    rw [← hid] at hmapped
    simp only [handleCqe, CommandTable.answered, CommandTable.setSubmission, hmapped]
  have hself : (d.answered n ⟨result, id, status⟩).submission n =
      { d.submission n with entry := .answered } :=
    setSubmission_self n _
  rw [hfind]
  apply (hsound.answered hinflight ⟨result, id, status⟩).complete _ _ hlast hid
    (answered_answers n _)
  · rw [hself]
    exact hopen
  · rw [hself]

theorem empty_sound (zero : R) : (empty zero : CommandTable F R).Sound := by
  constructor <;> simp [empty]

end CommandTable

open CommandTable

theorem commandStep_sound (d : CommandTable F R) (action : CommandAction F R)
    (next : CommandTable F R) (hsound : d.Sound) (hfresh : d.Fresh action)
    (hstep : commandStep d action = some next) : next.Sound := by
  cases action with
  | setup callback =>
    cases hstep
    exact hsound.setup callback hfresh
  | submit n =>
    obtain ⟨hguard, rfl⟩ := guard_some hstep
    exact hsound.submit hguard
  | handleCqe n status result =>
    simp only [commandStep] at hstep
    split at hstep
    · next hinflight =>
      cases hstep
      exact hsound.handle hinflight status result
    · cases hstep
  | wait n =>
    obtain ⟨hguard, rfl⟩ := guard_some hstep
    exact hsound.wait hguard.1 hguard.2.1 hguard.2.2.2
  | remove n id =>
    obtain ⟨hguard, rfl⟩ := guard_some hstep
    exact hsound.remove hguard

/-- In every history whose submissions are all made while no command submitted
a multiple of 65536 submissions before is still registered, the ids in flight
are distinct and every completion is delivered to its own submission. -/
theorem commands_deliver (zero : R) {actions : List (CommandAction F R)} {last : CommandTable F R}
    (hrun : Run commandStep Fresh (empty zero) actions last) : last.Delivers :=
  (hrun.invariant commandStep_sound (empty_sound zero)).delivers

/-- A synchronous command and one with a callback, answered in the other
order. -/
theorem commands_deliver_swapped :
    ∃ last : CommandTable ℕ ℕ, Run commandStep Fresh (empty 0)
        [.setup none, .setup (some 4), .submit 0, .submit 1,
          .handleCqe 1 2 8, .handleCqe 0 6 9, .wait 0] last ∧
      last.callbacks = [(1, 4, 1, 8)] ∧ last.returns = [(0, 3, 9)] ∧ last.Delivers := by
  obtain ⟨last, hrun, hcallbacks, hreturns⟩ :
      ∃ last : CommandTable ℕ ℕ, Run commandStep Fresh (empty 0)
          [.setup none, .setup (some 4), .submit 0, .submit 1,
            .handleCqe 1 2 8, .handleCqe 0 6 9, .wait 0] last ∧
        last.callbacks = [(1, 4, 1, 8)] ∧ last.returns = [(0, 3, 9)] := by
    refine ⟨_, Run.cons ?first rfl (Run.cons ?second rfl (Run.cons trivial rfl
      (Run.cons trivial rfl (Run.cons trivial rfl (Run.cons trivial rfl
        (Run.cons trivial rfl (Run.nil _))))))), rfl, rfl⟩
    case first =>
      intro n hn
      cases hn
    case second =>
      intro n hn _
      have hzero : n = 0 := Nat.lt_one_iff.mp hn
      rw [hzero]
      decide
  exact ⟨last, hrun, hcallbacks, hreturns, commands_deliver 0 hrun⟩

/-- One invocation is in flight under the id 0, and `k` later commands came and
went. -/
structure Rounds (k : ℕ) (d : CommandTable ℕ ℕ) : Prop where
  counter_eq : d.commandIdCounter = UInt16.ofNat (k + 1)
  made_eq : d.made = k + 1
  first : (d.submission 0).entry = .inFlight 0
  mapped : d.commandMap 0 = some 0
  free : ∀ id, id ≠ 0 → d.commandMap id = none
  no_releases : d.releases = []
  id_eq : (d.command 0).id = 0

def roundActions (k : ℕ) : List (CommandAction ℕ ℕ) :=
  [.setup (some 0), .submit (k + 1), .handleCqe (k + 1) 0 0, .remove (k + 1) (UInt16.ofNat (k + 1))]

theorem Rounds.next {k : ℕ} {d : CommandTable ℕ ℕ} (hrounds : Rounds k d) (hk : k + 1 < 65536) :
    ∃ d', runActions commandStep d (roundActions k) = some d' ∧ Rounds (k + 1) d' := by
  have hne : UInt16.ofNat (k + 1) ≠ 0 := by
    intro heq
    have := (ofNat_eq_iff (n := 0)).mp heq
    omega
  have hfree := hrounds.free _ hne
  have hcounter : d.commandIdCounter = UInt16.ofNat d.made := by
    rw [hrounds.counter_eq, hrounds.made_eq]
  have hsetup := setupAsyncCommand_eq (some 0) hcounter (by rw [hrounds.made_eq]; exact hfree)
  rw [hrounds.made_eq] at hsetup
  refine ⟨(((d.setupAsyncCommand (some 0)).submitCommand (k + 1)).handleCqe
    (k + 1) ⟨0, UInt16.ofNat (k + 1), 0⟩).removeAsyncCommand (k + 1) (UInt16.ofNat (k + 1)), ?_, ?_⟩
  · simp [roundActions, runActions, commandStep, hsetup, submitCommand,
      setSubmission, handleCqe, complete, hrounds.no_releases]
  · constructor <;>
      simp [hsetup, submitCommand, setSubmission, handleCqe, complete,
        removeAsyncCommand, hrounds.no_releases, hrounds.first, hne.symm,
        hrounds.mapped, hrounds.id_eq, -UInt16.ofNat_add]
    intro id hid
    simp [update_apply, hrounds.free id hid]

theorem exists_rounds (k : ℕ) (hk : k < 65536) :
    ∃ actions d, runActions commandStep (empty 0) actions = some d ∧ Rounds k d := by
  induction k with
  | zero =>
    obtain ⟨d, hd, hrounds⟩ : ∃ d : CommandTable ℕ ℕ,
        runActions commandStep (empty 0) [.setup none, .submit 0] = some d ∧ Rounds 0 d := by
      refine ⟨_, rfl, ?_⟩
      constructor <;>
        simp [submitCommand, setSubmission, setupAsyncCommand, emplaced, empty]
      intro id hid
      exact update_of_ne hid _ _
    exact ⟨_, d, hd, hrounds⟩
  | succ k ih =>
    obtain ⟨actions, d, hd, hrounds⟩ := ih (by omega)
    obtain ⟨d', hd', hrounds'⟩ := hrounds.next hk
    refine ⟨actions ++ roundActions k, d', ?_, hrounds'⟩
    rw [runActions_append hd]
    exact hd'

/-- An invocation stays in flight while 65535 commands come and go; the next
one is given its id. -/
theorem not_commands_deliver :
    ¬∀ (actions : List (CommandAction ℕ ℕ)) (last : CommandTable ℕ ℕ),
      FreeRun commandStep (empty 0) actions last → last.Delivers := by
  intro hall
  obtain ⟨actions, d, hd, hrounds⟩ := exists_rounds 65535 (by decide)
  have hcounter : d.commandIdCounter = 0 := hrounds.counter_eq
  have hrun : runActions commandStep (empty 0) (actions ++ [.setup none, .submit 65536]) =
        some ((d.setupAsyncCommand none).submitCommand 65536) := by
    rw [runActions_append hd]
    simp [runActions, commandStep, setupAsyncCommand, hrounds.made_eq]
  have hdistinct := (hall _ _ (freeRun_of_runActions hrun)).distinct 0 65536 0
  have hfirst : (((d.setupAsyncCommand none).submitCommand 65536).submission
      0).entry = .inFlight 0 := by
    simp [submitCommand, setSubmission, setupAsyncCommand, hrounds.made_eq, hrounds.first]
  have hsecond : (((d.setupAsyncCommand none).submitCommand 65536).submission
      65536).entry = .inFlight 0 := by
    simp [submitCommand, setSubmission, setupAsyncCommand, emplaced, hcounter,
      hrounds.made_eq, hrounds.mapped]
  cases hdistinct hfirst hsecond

end Soda.Unvme
