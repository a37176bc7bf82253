import Soda.HostIf.DmaProgram

/-!
# A read reports every failed completion

The error flag of a thread is overwritten by every completion, so that it
speaks for the batch only if the last completion has an error whenever an
earlier one had.
-/

namespace Soda

open Function List DmaState

namespace DmaState

/-- A completion that counts is one of the command its entry was sent for, and
the last one of a batch has an error if an earlier one had. -/
def Orderly (s : DmaState) (event : RxCompletion) : Prop :=
  ∀ entry, s.rqQueue event.tag = some entry → entry.completed = false →
    entry.issue = some event.issue ∧ (event.error = false → s.pendingRcs entry.thread = 1 →
        s.failed entry.thread = false)

def Done (s : DmaState) (issued : List ℕ) : Prop := ∀ issue ∈ issued, (issue, false) ∈ s.results

structure Inv (s : DmaState) : Prop extends Table s where
  answered : ∀ tag entry, s.rqQueue tag = some entry →
    entry.completed = true → ∃ issue error, entry.issue = some issue ∧ (issue, error) ∈ s.results ∧
      (error = true → s.failed entry.thread = true)
  flagged : ∀ self, s.batch self ≠ [] → s.failed self = true →
    s.rcError self = true ∨ 0 < s.pendingRcs self
  returned : ∀ ret ∈ s.returns, ret.code = none → s.Done ret.issued

variable {s s' : DmaState} {self : Tid} {tag : ℕ}

theorem Done.mono {issued : List ℕ} (hdone : s.Done issued)
    (hresults : s.results ⊆ s'.results) : s'.Done issued :=
  fun issue hissue => hresults (hdone issue hissue)

/-- Commands come and go, and completions that do not count change nothing
else. -/
theorem Inv.took (hinv : s.Inv) (event : RxCompletion) : (s.took event).Inv where
  __ := hinv
  answered := by
    intro tag entry hentry hcompleted
    obtain ⟨issue, error, hissue, hresult, hfailed⟩ := hinv.answered tag entry hentry hcompleted
    exact ⟨issue, error, hissue, mem_cons_of_mem _ hresult, hfailed⟩
  returned := by
    intro ret hret hcode
    exact (hinv.returned ret hret hcode).mono (subset_cons_self _ _)

theorem Inv.callback {issue : ℕ} {error : Bool} {entry : RqEntry}
    (hinv : s.Inv) (hentry : s.rqQueue tag = some entry)
    (hcompleted : entry.completed = false) (hissue : entry.issue = some issue)
    (hresult : (issue, error) ∈ s.results) (hlast : error = false → s.pendingRcs entry.thread = 1 →
      s.failed entry.thread = false) : (s.callback tag entry error).Inv := by
  have hsent : entry.issue ≠ none := by simp [hissue]
  refine ⟨hinv.toTable.callback hentry hcompleted hsent, ?_, ?_, hinv.returned⟩
  · apply forall_update_some
    · intro _
      refine ⟨issue, error, hissue, hresult, ?_⟩
      intro herror
      simp [DmaState.callback, herror]
    · intro other _ found hfound hdone
      obtain ⟨number, ferror, hnumber, hfresult, hfailed⟩ := hinv.answered other found hfound hdone
      refine ⟨number, ferror, hnumber, hfresult, ?_⟩
      intro herror
      by_cases heq : found.thread = entry.thread
      · have htrue := hfailed herror
        rw [heq] at htrue ⊢
        simp [DmaState.callback, htrue]
      · exact (update_of_ne heq _ _).trans (hfailed herror)
  · intro thread hthread hfailed
    by_cases heq : thread = entry.thread
    · subst heq
      simp only [DmaState.callback, update_self] at hfailed ⊢
      cases error with
      | true => exact .inl rfl
      | false =>
        right
        rw [Bool.or_false] at hfailed
        have hnotOne : s.pendingRcs entry.thread ≠ 1 := by
          intro hone
          rw [hlast rfl hone] at hfailed
          exact absurd hfailed (by decide)
        have hcount := hinv.toTable.pending_callback false hentry hcompleted hsent
        omega
    · simp only [DmaState.callback, update_of_ne heq] at hfailed ⊢
      exact hinv.flagged thread hthread hfailed

theorem Inv.complete {event : RxCompletion} (hinv : s.Inv)
    (horderly : s.Orderly event) : (s.complete event).Inv := by
  cases hentry : s.rqQueue event.tag with
  | none =>
    rw [DmaState.complete, rxDmaCallback]
    simp only [hentry]
    exact hinv.took event
  | some entry =>
    cases hcompleted : entry.completed with
    | true =>
      rw [DmaState.complete, rxDmaCallback]
      simp only [hentry, hcompleted, if_true]
      exact hinv.took event
    | false =>
      obtain ⟨hissue, hlast⟩ := horderly entry hentry hcompleted
      rw [complete_eq_callback hentry hcompleted]
      exact (hinv.took event).callback hentry hcompleted hissue mem_cons_self hlast

end DmaState

/-- Waits may end in any way; completions have to be orderly. -/
def dmaContract : Contract dmaMachine where
  allows := fun _ _ _ _ => True
  allowsEvent := DmaState.Orderly
  inv := DmaState.Inv
  rely := DmaState.Rely
  stay := fun _ _ _ => True
  rely_refl := DmaState.Rely.refl
  rely_trans := fun _ _ _ _ hfirst hsecond => hfirst.trans hsecond
  event_inv := by
    intro s event s' hinv horderly hevent
    obtain ⟨_, rfl⟩ := guard_some hevent
    exact hinv.complete horderly
  event_rely := by
    intro self s event s' _ _ hevent
    obtain ⟨_, rfl⟩ := guard_some hevent
    exact rely_complete self s event
  stay_rely := fun _ _ _ _ _ _ _ => trivial

namespace DmaState

variable {s s' : DmaState} {self : Tid}

theorem Inv.setup {tag buf rxCount : ℕ} (hinv : s.Inv)
    (hfree : s.rqQueue tag = none) : (s.setup self tag buf rxCount).Inv := by
  refine ⟨hinv.toTable.setup hfree, ?_, hinv.flagged, hinv.returned⟩
  apply forall_update_some
  · intro hcompleted
    exact absurd hcompleted (by simp)
  · intro other _ entry hentry
    exact hinv.answered other entry hentry

theorem Inv.begin {bufs : List RqBuffer} (hinv : s.Inv) (hcollected : s.Collected self bufs) :
    (s.begin self (bufs.map RqBuffer.tag)).Inv := by
  refine ⟨hinv.toTable.begin hcollected, ?_, ?_, hinv.returned⟩
  · intro tag entry hentry hcompleted
    by_cases hthread : entry.thread = self
    · have hnot := (hinv.toTable.unsent_of_batch hcollected.batch hentry hthread).1
      rw [hcompleted] at hnot
      exact absurd hnot (by decide)
    · simp only [DmaState.begin, update_of_ne hthread]
      exact hinv.answered tag entry hentry hcompleted
  · intro thread hne hfailed
    by_cases hthread : thread = self
    · subst hthread
      simp [begin] at hfailed
    · simp only [DmaState.begin, update_of_ne hthread] at hne hfailed ⊢
      exact hinv.flagged thread hne hfailed

theorem Inv.send {buf : RqBuffer} (hinv : s.Inv)
    (hbatch : buf.tag ∈ s.batch self) (hholds : s.Holds self buf none) : (s.send buf).Inv := by
  refine ⟨hinv.toTable.send hbatch hholds, ?_, hinv.flagged, hinv.returned⟩
  obtain ⟨entry, hentry, _, hissue, _⟩ := hholds
  rw [rqQueue_send hentry]
  apply forall_update_some
  · intro hcompleted
    obtain ⟨issue, error, hsome, _⟩ := hinv.answered buf.tag entry hentry hcompleted
    rw [hissue] at hsome
    exact absurd hsome (by simp)
  · intro other _ found hfound
    exact hinv.answered other found hfound

theorem Inv.freed (hinv : s.Inv) (hfreed : Freed self (s.batch self) s s') : s'.Inv := by
  refine ⟨hinv.toTable.freed hfreed, ?_, ?_, ?_⟩
  · intro tag entry hentry hcompleted
    rw [hfreed.kept]
    exact hinv.answered tag entry (hfreed.was hentry).2 hcompleted
  · intro thread hne hfailed
    rw [hfreed.kept] at hfailed ⊢
    rw [hfreed.batch] at hne
    by_cases hthread : thread = self
    · subst hthread
      simp at hne
    · rw [update_of_ne hthread] at hne
      exact hinv.flagged thread hne hfailed
  · rw [hfreed.kept]
    exact hinv.returned

/-- When the whole batch has completed and the flag is clear, every command
of the batch succeeded. -/
theorem Sent.done {bufs : List RqBuffer} {issued : List ℕ}
    (hsent : s.Sent self bufs issued) (hinv : s.Inv) (hne : s.batch self ≠ [])
    (hbatch : s.batch self = bufs.map RqBuffer.tag) (hquiet : s.Quiet self)
    (hclear : s.rcError self = false) : s.Done issued := by
  have hpending : s.pendingRcs self = 0 := by
    rw [hinv.pending self hne, countP_eq_zero]
    intro tag hmem
    rw [hquiet tag hmem]
    exact Bool.false_ne_true
  have hfailed : s.failed self = false := by
    by_contra hfailed
    cases hinv.flagged self hne (by simpa using hfailed) with
    | inl hflag =>
      rw [hclear] at hflag
      exact absurd hflag (by decide)
    | inr hmore => omega
  intro issue hissue
  obtain ⟨position, hposition, rfl⟩ := mem_iff_getElem.mp hissue
  have hlt : position < bufs.length := hsent.length_eq ▸ hposition
  obtain ⟨entry, hentry, howner, hentryIssue, _⟩ := hsent.get hlt hposition
  have hmem : (bufs.get ⟨position, hlt⟩).tag ∈ s.batch self := by
    rw [hbatch]
    exact mem_map_of_mem (get_mem _ _)
  have hcompleted : entry.completed = true := by
    have hincomplete := hquiet _ hmem
    rw [incomplete, hentry] at hincomplete
    simpa using hincomplete
  obtain ⟨found, error, hfound, hresult, herror⟩ := hinv.answered _ entry hentry hcompleted
  rw [hentryIssue, Option.some.injEq] at hfound
  subst hfound
  cases error with
  | false => exact hresult
  | true =>
    have hbad := herror rfl
    rw [howner, hfailed] at hbad
    exact absurd hbad (by decide)

end DmaState

/-- A thread may leave entries behind. -/
theorem dmaRules : DmaRules dmaContract (fun issued s => s.Done issued) Set.univ where
  stay := fun _ _ _ => trivial
  rely := fun _ _ _ => Iff.rfl
  table := fun _ hinv => hinv.toTable
  setup := fun _ _ _ _ _ hinv _ _ hfree => hinv.setup hfree
  begin := fun _ _ _ hinv hcollected => hinv.begin hcollected
  send := fun _ _ _ hinv hbatch hholds _ => hinv.send hbatch hholds
  freed := fun _ _ _ _ hinv _ hfreed => hinv.freed hfreed
  record := by
    intro s ret hinv hret
    refine ⟨⟨hinv.unsent, hinv.owned, hinv.nodup, hinv.pending⟩, hinv.answered, hinv.flagged, ?_⟩
    intro ret' hret' hcode
    cases mem_cons.mp hret' with
    | inl hnew =>
      subst hnew
      exact hret hcode
    | inr hold => exact hinv.returned ret' hold hcode
  nil := fun _ _ hmem => absurd hmem not_mem_nil
  append := by
    intro s issued more hissued hmore issue hissue
    exact (mem_append.mp hissue).elim (hissued issue) (hmore issue)
  kept := fun _ _ _ hdone hresults => hdone.mono hresults
  success := by
    intro self bufs issued s hend
    obtain ⟨hclear, hquiet⟩ := hend.succeeds rfl
    exact hend.sent.done hend.inv hend.ne_nil hend.batch hquiet hclear
  failure := fun _ _ _ _ _ _ _ _ _ => .inl trivial
  done := fun _ _ _ => trivial

theorem inv_dmaInit (rxfifoAvail : ℕ) : (init rxfifoAvail).Inv := by
  refine ⟨?_, ?_, ?_, ?_⟩
  · constructor <;> simp [init]
  · simp [init]
  · simp [init]
  · simp [init]

/-- A return of zero means that every command of the read succeeded. -/
def DmaState.Reports (s : DmaState) : Prop := ∀ ret ∈ s.returns, ret.code = none → s.Done ret.issued

/-- Any threads, any reads, any order of completions, as long as each
completion that counts is that of the command its entry was sent for, and the
last one of a batch has an error if an earlier one had. -/
theorem dmaRun_reports (maxPayload rxfifoAvail : ℕ)
    (reads : Tid → List DmaRead) (moves : List (Move Tid Bool RxCompletion))
    (last : Pool Tid DmaState DmaWait Bool Fault) (hrun : Run dmaMachine.move dmaContract.Allowed
      (dmaPool maxPayload rxfifoAvail reads) moves last) : last.shared.Reports :=
  ((dmaRules.safe_dmaPool maxPayload reads (inv_dmaInit rxfifoAvail)).run hrun).inv.returned

theorem allowed_resume (pool : Pool Tid DmaState DmaWait Bool Fault) (self : Tid) (choice : Bool) :
    dmaContract.Allowed pool (.resume self choice) :=
  fun _ _ _ => trivial

theorem dmaRun_reports_bench :
    ∃ last, Run dmaMachine.move dmaContract.Allowed
        (dmaPool 4096 12288 (benchReads 1)) benchMoves last ∧
      last.shared.Reports ∧ last.shared.returns = [⟨0, none, [0]⟩] := by
  obtain ⟨last, hrun, hreturns⟩ : ∃ last, Run dmaMachine.move
      dmaContract.Allowed (dmaPool 4096 12288 (benchReads 1)) benchMoves last ∧
      last.shared.returns = [⟨0, none, [0]⟩] := by
    refine ⟨_, .cons (allowed_resume _ _ _) rfl
      (.cons (allowed_resume _ _ _) rfl (.cons (allowed_resume _ _ _) rfl
      (.cons (allowed_resume _ _ _) rfl (.cons ?_ rfl
      (.cons (allowed_resume _ _ _) rfl (.cons (allowed_resume _ _ _) rfl (.nil _))))))), rfl⟩
    intro entry hentry _
    cases hentry
    exact ⟨rfl, fun _ _ => rfl⟩
  exact ⟨last, hrun, dmaRun_reports 4096 12288 (benchReads 1) benchMoves last hrun, hreturns⟩

/-- Two requests in one batch; the first completes with an error and the
second one without. -/
def lostErrorMoves : List (Move Tid Bool RxCompletion) :=
  [.resume 0 false, .resume 0 false, .resume 0 false, .resume 0 false, .resume 0 false,
    .resume 0 false, .event ⟨0, 0, true⟩, .event ⟨1, 1, false⟩, .resume 0 false, .resume 0 false]

theorem not_dmaRun_reports :
    ∃ last, FreeRun dmaMachine.move (dmaPool 4096 12288 (benchReads 2))
      lostErrorMoves last ∧ ¬last.shared.Reports := by
  obtain ⟨last, hlast, hreturns, hresults⟩ : ∃ last,
      runActions dmaMachine.move (dmaPool 4096 12288 (benchReads 2)) lostErrorMoves = some last ∧
      last.shared.returns = [⟨0, none, [0, 1]⟩] ∧
      last.shared.results = [(1, false), (0, true)] := ⟨_, rfl, rfl, rfl⟩
  refine ⟨last, freeRun_of_runActions hlast, ?_⟩
  intro hreports
  have hdone := hreports ⟨0, none, [0, 1]⟩ (by simp [hreturns]) rfl 0 (by simp)
  simp [hresults] at hdone

end Soda
