import Soda.HostIf.DmaProgram

/-!
# Tags and credit of reads

A read takes an entry of the request table for each request and credit of the
receive buffer for each command it sends.  The entries are given back when the
batch has ended, the credit when the command completes.  A batch that times
out gives its entries back while commands are still outstanding, so that their
credit is lost, and a read that fails keeps the entry it took for the request
after the batch.
-/

namespace Soda

open Function Finset Option DmaState

namespace DmaState

/-- The command of an entry that the engine has not answered. -/
def flight (s : DmaState) (tag : ℕ) : Option ℕ :=
  (s.rqQueue tag).bind fun entry =>
    if entry.completed then none else entry.issue

def taken : Option RqEntry → ℕ
  | some entry =>
    if entry.completed = false ∧ entry.issue ≠ none then entry.rxCount else 0
  | none => 0

def occupied (value : Option RqEntry) : ℕ := if value.isSome then 1 else 0

def total (f : Option RqEntry → ℕ) (s : DmaState) : ℕ := ∑ tag ∈ range tagMax, f (s.rqQueue tag)

def NoSpare (s : DmaState) (self : Tid) : Prop :=
  ∀ tag, s.owner tag = some self → tag ∈ s.batch self

structure CreditInv (full : ℕ) (s : DmaState) : Prop extends Table s where
  fits : ∀ tag entry, s.rqQueue tag = some entry → tag < tagMax
  fresh : ∀ tag entry, s.rqQueue tag = some entry → entry.issue = none → entry.completed = false
  live : ∀ tag issue, (tag, issue) ∈ s.sent ↔ s.flight tag = some issue
  once : s.sent.Nodup
  credit : s.rxfifoAvail + s.total taken = full
  inUsed : s.rqesInUsed = s.total occupied
  flagged : ∀ self, s.batch self ≠ [] → s.rcError self = true →
    0 < s.pendingRcs self ∨ s.NoSpare self

variable {s s' : DmaState} {self : Tid} {tag full : ℕ} {entry : RqEntry}

theorem flight_of_update {value : Option RqEntry}
    (hqueue : s'.rqQueue = update s.rqQueue tag value) :
    s'.flight = update s.flight tag (value.bind fun entry =>
      if entry.completed then none else entry.issue) := by
  funext other
  rw [flight, hqueue]
  by_cases hother : other = tag
  · subst hother
    rw [update_self, update_self]
  · rw [update_of_ne hother, update_of_ne hother, flight]

theorem total_of_update {value : Option RqEntry} {f : Option RqEntry → ℕ} {before after : ℕ}
    (hqueue : s'.rqQueue = update s.rqQueue tag value)
    (hlt : tag < tagMax) (hbefore : f (s.rqQueue tag) = before)
    (hafter : f value = after) : s'.total f + before = s.total f + after := by
  rw [← hbefore, ← hafter, total, hqueue]
  exact sum_update_add f (mem_range.mpr hlt)

theorem NoSpare.congr (hspare : s.NoSpare self) (howner : s'.owner = s.owner)
    (hbatch : s'.batch self = s.batch self) : s'.NoSpare self := by
  intro tag hmine
  rw [howner] at hmine
  rw [hbatch]
  exact hspare tag hmine

theorem CreditInv.took (hinv : s.CreditInv full) (event : RxCompletion) : (s.took event).Table :=
  ⟨hinv.unsent, hinv.owned, hinv.nodup, hinv.pending⟩

/-- A completion is always that of the command its entry was sent for. -/
theorem CreditInv.complete {event : RxCompletion} (hinv : s.CreditInv full)
    (hsent : (event.tag, event.issue) ∈ s.sent)
    (hlast : event.error = true → ∀ entry, s.rqQueue event.tag = some entry →
      s.pendingRcs entry.thread = 1 → s.NoSpare entry.thread) :
    (s.complete event).CreditInv full := by
  have hflight := (hinv.live event.tag event.issue).mp hsent
  obtain ⟨entry, hentry, hopen⟩ := bind_eq_some_iff.mp hflight
  obtain ⟨hcompleted, hissue⟩ : entry.completed = false ∧ entry.issue = some event.issue := by
    simpa using hopen
  have hne : entry.issue ≠ none := by simp [hissue]
  have hlt := hinv.fits event.tag entry hentry
  have htook := hinv.took event
  rw [complete_eq_callback hentry hcompleted]
  constructor
  · exact htook.callback hentry hcompleted hne
  · apply forall_update_some
    · exact hinv.fits event.tag entry hentry
    · exact fun other _ => hinv.fits other
  · apply forall_update_some
    · intro hnone
      exact absurd hnone hne
    · exact fun other _ => hinv.fresh other
  · intro other issue
    rw [flight_of_update rfl]
    change (other, issue) ∈ s.sent.erase _ ↔ _
    rw [hinv.once.mem_erase_iff, hinv.live]
    by_cases hother : other = event.tag
    · subst hother
      rw [update_self, hflight, some.injEq]
      constructor
      · rintro ⟨hpair, rfl⟩
        exact absurd rfl hpair
      · intro hnone
        exact absurd hnone (by simp)
    · have hpair : (other, issue) ≠ (event.tag, event.issue) :=
        fun heq => hother (congrArg Prod.fst heq)
      rw [update_of_ne hother]
      exact and_iff_right hpair
  · exact hinv.once.erase _
  · have hbefore : taken (s.rqQueue event.tag) = entry.rxCount := by
      rw [hentry, taken, if_pos ⟨hcompleted, hne⟩]
    have hsum : ((s.took event).callback event.tag entry
        event.error).total taken + entry.rxCount = s.total taken + 0 :=
      total_of_update rfl hlt hbefore rfl
    have hcredit := hinv.credit
    change s.rxfifoAvail + entry.rxCount + _ = full
    omega
  · have hbefore : occupied (s.rqQueue event.tag) = 1 := by
      rw [hentry]
      rfl
    have hsum : ((s.took event).callback event.tag entry
        event.error).total occupied + 1 = s.total occupied + 1 :=
      total_of_update rfl hlt hbefore rfl
    exact hinv.inUsed.trans (add_right_cancel hsum).symm
  · intro thread hbatch hflag
    by_cases hthread : thread = entry.thread
    · subst hthread
      have hcount := htook.pending_callback event.error hentry hcompleted hne
      simp only [callback, update_self] at hflag hcount ⊢
      by_cases hone : s.pendingRcs entry.thread = 1
      · right
        exact (hlast hflag entry hentry hone).congr (owner_callback hentry) rfl
      · left
        change 0 < s.pendingRcs entry.thread - 1
        change s.pendingRcs entry.thread = _ + 1 at hcount
        omega
    · simp only [callback, update_of_ne hthread] at hflag ⊢
      apply (hinv.flagged thread hbatch hflag).imp_right
      exact fun hspare => hspare.congr (owner_callback hentry) rfl

end DmaState

/-- A wait that times out, and a last completion with an error, find the
thread without an entry outside its batch, and a batch is given back when all
its commands have completed. -/
def creditContract (full : ℕ) : Contract dmaMachine where
  allows := fun self wait s choice =>
    match wait with
    | .cpl => choice = true → s.NoSpare self
    | .irq => s.Quiet self
    | _ => True
  allowsEvent := fun s event =>
    event.error = true → ∀ entry, s.rqQueue event.tag = some entry →
      s.pendingRcs entry.thread = 1 → s.NoSpare entry.thread
  inv := DmaState.CreditInv full
  rely := DmaState.Rely
  stay := fun _ _ _ => True
  rely_refl := DmaState.Rely.refl
  rely_trans := fun _ _ _ _ hfirst hsecond => hfirst.trans hsecond
  event_inv := by
    intro s event s' hinv hlast hevent
    obtain ⟨hsent, rfl⟩ := guard_some hevent
    exact hinv.complete hsent hlast
  event_rely := by
    intro self s event s' _ _ hevent
    obtain ⟨_, rfl⟩ := guard_some hevent
    exact rely_complete self s event
  stay_rely := fun _ _ _ _ _ _ _ => trivial
  done := fun self s => ∀ tag, s.owner tag ≠ some self
  done_rely := fun _ _ _ hnone hrely tag hmine => hnone tag (hrely.mine tag hmine)

namespace DmaState

variable {s s' : DmaState} {self : Tid} {tag full : ℕ}

/-- A sum over the table when some entries are given back. -/
theorem Freed.total_eq {tags : List ℕ} (f : Option RqEntry → ℕ)
    (hfreed : Freed self tags s s') (hnone : f none = 0) (hnodup : tags.Nodup)
    (hfits : ∀ tag ∈ tags, tag < tagMax) {each : ℕ}
    (heach : ∀ tag ∈ tags, f (s.rqQueue tag) = each) :
    s'.total f + tags.length * each = s.total f := by
  have hsubset : tags.toFinset ⊆ range tagMax := by
    intro tag hmem
    exact mem_range.mpr (hfits tag (List.mem_toFinset.mp hmem))
  have hrest : ∑ tag ∈ range tagMax \ tags.toFinset, f (s'.rqQueue tag) =
      ∑ tag ∈ range tagMax \ tags.toFinset, f (s.rqQueue tag) := by
    apply sum_congr rfl
    intro tag hmem
    rw [hfreed.other tag (by simpa using (mem_sdiff.mp hmem).2)]
  have hgone : ∑ tag ∈ tags.toFinset, f (s'.rqQueue tag) = 0 := by
    apply sum_eq_zero
    intro tag hmem
    rw [hfreed.free tag (List.mem_toFinset.mp hmem), hnone]
  have hwas : ∑ tag ∈ tags.toFinset, f (s.rqQueue tag) = tags.length * each := by
    rw [sum_congr rfl fun tag hmem =>
      heach tag (List.mem_toFinset.mp hmem), sum_const, smul_eq_mul,
      List.toFinset_card_of_nodup hnodup]
  rw [total, total, ← sum_sdiff hsubset, ← sum_sdiff hsubset, hrest, hgone, hwas, add_zero]

variable (hinv : s.CreditInv full)
include hinv

theorem CreditInv.setup {buf rxCount : ℕ}
    (hbatch : s.batch self = []) (hlt : tag < tagMax) (hfree : s.rqQueue tag = none) :
    (s.setup self tag buf rxCount).CreditInv full := by
  constructor
  · exact hinv.toTable.setup hfree
  · apply forall_update_some
    · exact hlt
    · exact fun other _ => hinv.fits other
  · apply forall_update_some
    · exact fun _ => rfl
    · exact fun other _ => hinv.fresh other
  · intro other issue
    have hsame : (s.setup self tag buf rxCount).flight = s.flight := by
      rw [flight_of_update rfl, update_eq_self_iff, flight, hfree]
      rfl
    rw [hsame]
    exact hinv.live other issue
  · exact hinv.once
  · have hsum : (s.setup self tag buf rxCount).total taken + 0 = s.total taken + 0 :=
      total_of_update rfl hlt (congrArg taken hfree) rfl
    have hcredit := hinv.credit
    change s.rxfifoAvail + _ = full
    omega
  · have hsum : (s.setup self tag buf rxCount).total occupied + 0 = s.total occupied + 1 :=
      total_of_update rfl hlt (congrArg occupied hfree) rfl
    have hinUsed := hinv.inUsed
    change s.rqesInUsed + 1 = _
    omega
  · intro thread hne hflag
    have hthread : thread ≠ self := by
      rintro rfl
      exact hne hbatch
    apply (hinv.flagged thread hne hflag).imp_right
    intro hspare place hmine
    exact hspare place ((rely_setup hthread hfree).mine place hmine)

theorem CreditInv.begin {bufs : List RqBuffer} (hcollected : s.Collected self bufs) :
    (s.begin self (bufs.map RqBuffer.tag)).CreditInv full := by
  refine ⟨hinv.toTable.begin hcollected, hinv.fits, hinv.fresh, hinv.live,
    hinv.once, hinv.credit, hinv.inUsed, ?_⟩
  intro thread hne hflag
  by_cases hthread : thread = self
  · subst hthread
    simp [begin] at hflag
  · have hsame : (s.begin self (bufs.map RqBuffer.tag)).batch thread =
        s.batch thread := update_of_ne hthread _ _
    simp only [DmaState.begin, update_of_ne hthread] at hne hflag ⊢
    exact (hinv.flagged thread hne hflag).imp_right fun hspare => hspare.congr rfl hsame

theorem CreditInv.send {buf : RqBuffer}
    (hbatch : buf.tag ∈ s.batch self) (hholds : s.Holds self buf none)
    (hfits : buf.byteCount ≤ s.rxfifoAvail) : (s.send buf).CreditInv full := by
  have htable := hinv.toTable.send hbatch hholds
  obtain ⟨entry, hentry, _, hissue, hcount⟩ := hholds
  have hcompleted := hinv.fresh buf.tag entry hentry hissue
  have hlt := hinv.fits buf.tag entry hentry
  have hqueue := rqQueue_send hentry
  have hflight : s.flight buf.tag = none := by
    rw [flight, hentry, bind_some, hissue, ite_self]
  constructor
  · exact htable
  · rw [hqueue]
    apply forall_update_some
    · exact hinv.fits buf.tag entry hentry
    · exact fun other _ => hinv.fits other
  · rw [hqueue]
    apply forall_update_some
    · exact fun _ => hcompleted
    · exact fun other _ => hinv.fresh other
  · intro other issue
    rw [flight_of_update hqueue]
    change (other, issue) ∈ s.sent ++ [(buf.tag, s.issues)] ↔ _
    rw [List.mem_append, hinv.live, List.mem_singleton]
    by_cases hother : other = buf.tag
    · subst hother
      rw [update_self, hflight]
      simpa [hcompleted] using eq_comm
    · have hpair : (other, issue) ≠ (buf.tag, s.issues) :=
        fun heq => hother (congrArg Prod.fst heq)
      rw [update_of_ne hother, or_iff_left hpair]
  · apply hinv.once.append (List.nodup_singleton _)
    intro pair hold hnew
    obtain rfl := List.mem_singleton.mp hnew
    rw [hinv.live, hflight] at hold
    exact absurd hold (by simp)
  · have hbefore : taken (s.rqQueue buf.tag) = 0 := by
      rw [hentry, taken, hissue]
      simp
    have hafter : taken (some { entry with issue := some s.issues }) = buf.byteCount := by
      rw [taken, if_pos ⟨hcompleted, by simp⟩, hcount]
    have hsum := total_of_update hqueue hlt hbefore hafter
    have hcredit := hinv.credit
    change s.rxfifoAvail - buf.byteCount + _ = full
    omega
  · have hbefore : occupied (s.rqQueue buf.tag) = 1 := by
      rw [hentry]
      rfl
    have hsum : (s.send buf).total occupied + 1 = s.total occupied + 1 :=
      total_of_update hqueue hlt hbefore rfl
    exact hinv.inUsed.trans (add_right_cancel hsum).symm
  · intro thread hne hflag
    apply (hinv.flagged thread hne hflag).imp_right
    exact fun hspare => hspare.congr (owner_send buf) rfl

theorem CreditInv.freed (hquiet : s.Quiet self)
    (hfreed : Freed self (s.batch self) s s') : s'.CreditInv full := by
  have hclosed : ∀ tag ∈ s.batch self, ∃ entry, s.rqQueue tag = some entry ∧
      entry.completed = true := by
    intro tag hmem
    obtain ⟨entry, hentry, _⟩ := map_eq_some_iff.mp (hinv.owned self tag hmem)
    have hdone := hquiet tag hmem
    rw [incomplete, hentry] at hdone
    exact ⟨entry, hentry, by simpa using hdone⟩
  have hfits : ∀ tag ∈ s.batch self, tag < tagMax := by
    intro tag hmem
    obtain ⟨entry, hentry, _⟩ := hclosed tag hmem
    exact hinv.fits tag entry hentry
  constructor
  · exact hinv.toTable.freed hfreed
  · exact fun tag entry hentry => hinv.fits tag entry (hfreed.was hentry).2
  · exact fun tag entry hentry => hinv.fresh tag entry (hfreed.was hentry).2
  · intro tag issue
    have hsame : s'.flight tag = s.flight tag := by
      by_cases hmem : tag ∈ s.batch self
      · obtain ⟨entry, hentry, hcompleted⟩ := hclosed tag hmem
        rw [flight, hfreed.free tag hmem, flight, hentry]
        simp [hcompleted]
      · rw [flight, hfreed.other tag hmem, flight]
    rw [hsame, hfreed.kept]
    exact hinv.live tag issue
  · rw [hfreed.kept]
    exact hinv.once
  · have hzero : ∀ tag ∈ s.batch self, taken (s.rqQueue tag) = 0 := by
      intro tag hmem
      obtain ⟨entry, hentry, hcompleted⟩ := hclosed tag hmem
      rw [hentry, taken, hcompleted]
      simp
    have hsum := hfreed.total_eq taken rfl (hinv.nodup self) hfits hzero
    have hcredit := hinv.credit
    have havail : s'.rxfifoAvail = s.rxfifoAvail := by rw [hfreed.kept]
    omega
  · have hone : ∀ tag ∈ s.batch self, occupied (s.rqQueue tag) = 1 := by
      intro tag hmem
      obtain ⟨entry, hentry, _⟩ := hclosed tag hmem
      rw [hentry]
      rfl
    have hsum := hfreed.total_eq occupied rfl (hinv.nodup self) hfits hone
    have hinUsed := hinv.inUsed
    have hcount := hfreed.inUsed
    omega
  · intro thread hne hflag
    have hthread : thread ≠ self := by
      rintro rfl
      exact hne (by rw [hfreed.batch, update_self])
    have hbatch : s'.batch thread = s.batch thread := by
      rw [hfreed.batch, update_of_ne hthread]
    rw [hbatch] at hne
    rw [hfreed.kept] at hflag
    have hkept := hinv.flagged thread hne hflag
    rw [hfreed.kept]
    apply hkept.imp_right
    intro hspare tag hmine
    rw [← hfreed.kept] at hmine ⊢
    rw [hbatch]
    exact hspare tag ((hfreed.rely hthread).mine tag hmine)

end DmaState

theorem creditRules (full : ℕ) : DmaRules (creditContract full) (fun _ _ => True) ∅ where
  stay := fun _ _ _ => trivial
  rely := fun _ _ _ => Iff.rfl
  table := fun _ hinv => hinv.toTable
  setup := fun _ _ _ _ _ hinv hbatch hlt hfree => hinv.setup hbatch hlt hfree
  begin := fun _ _ _ hinv hcollected => hinv.begin hcollected
  send := fun _ _ _ hinv hbatch hholds hfits => hinv.send hbatch hholds hfits
  freed := fun _ _ _ _ hinv hquiet hfreed => hinv.freed hquiet hfreed
  record := fun _ _ hinv _ =>
    ⟨⟨hinv.unsent, hinv.owned, hinv.nodup, hinv.pending⟩, hinv.fits,
      hinv.fresh, hinv.live, hinv.once, hinv.credit, hinv.inUsed, hinv.flagged⟩
  nil := fun _ => trivial
  append := fun _ _ _ _ _ => trivial
  kept := fun _ _ _ _ _ => trivial
  success := fun _ _ _ _ _ => trivial
  failure := by
    intro self bufs issued code s hend hcode tag hmine
    right
    obtain ⟨_, hquiet⟩ := hend.allowed
    cases hend.fails hcode with
    | inl hflag =>
      have hinv := hend.inv
      have hzero : s.pendingRcs self = 0 := by
        rw [hinv.pending self hend.ne_nil, List.countP_eq_zero]
        intro place hmem
        rw [hquiet place hmem]
        exact Bool.false_ne_true
      have hspare := (hinv.flagged self hend.ne_nil hflag).resolve_left (by omega)
      exact hspare tag hmine
    | inr hlate =>
      obtain ⟨early, hallows, hrely⟩ := hlate
      rw [hrely.batch]
      exact hallows rfl tag (hrely.mine tag hmine)
  done := fun _ _ hnone tag hmine => hnone tag hmine

theorem creditInv_init (full : ℕ) : (init full).CreditInv full := by
  refine ⟨⟨?_, ?_, ?_, ?_⟩, ?_, ?_, ?_, ?_, ?_, ?_, ?_⟩ <;>
    simp [init, flight, taken, occupied, total]

/-- A thread whose reads have all returned has no tag, the counter of entries
in use is exact, and without commands at the engine all the credit is there. -/
structure DmaConserved (full : ℕ)
    (pool : Pool Tid DmaState DmaWait Bool Fault) : Prop where
  released : ∀ self, pool.thread self = .ret () → ∀ tag, pool.shared.owner tag ≠ some self
  inUsed : pool.shared.rqesInUsed = ((range tagMax).filter fun tag =>
    (pool.shared.rqQueue tag).isSome).card
  credit : pool.shared.sent = [] → pool.shared.rxfifoAvail = full

theorem DmaState.CreditInv.credit_eq {s : DmaState} {full : ℕ}
    (hinv : s.CreditInv full) (hsent : s.sent = []) : s.rxfifoAvail = full := by
  have hnone : s.total taken = 0 := by
    apply sum_eq_zero
    intro tag _
    cases hentry : s.rqQueue tag with
    | none => rfl
    | some entry =>
      rw [taken, if_neg]
      rintro ⟨hcompleted, hissue⟩
      obtain ⟨issue, hissue⟩ := ne_none_iff_exists'.mp hissue
      have hmem : (tag, issue) ∈ s.sent := by
        rw [hinv.live, flight, hentry]
        simp [hcompleted, hissue]
      rw [hsent] at hmem
      exact absurd hmem List.not_mem_nil
  have hcredit := hinv.credit
  omega

/-- Any threads, any reads, any order of completions, as long as no batch is
given up early and no read fails with an entry for its next request. -/
theorem dmaRun_conserves (maxPayload full : ℕ) (reads : Tid → List DmaRead)
    (moves : List (Move Tid Bool RxCompletion)) (last : Pool Tid DmaState DmaWait Bool Fault)
    (hrun : Run dmaMachine.move (creditContract full).Allowed
      (dmaPool maxPayload full reads) moves last) : DmaConserved full last := by
  have hsafe := ((creditRules full).safe_dmaPool maxPayload reads (creditInv_init full)).run hrun
  have hinv : last.shared.CreditInv full := hsafe.inv
  constructor
  · intro self hended
    have hresting := hsafe.resting self
    rw [hended] at hresting
    exact hresting
  · rw [hinv.inUsed, card_filter]
    rfl
  · exact hinv.credit_eq

theorem creditAllowed {pool : Pool Tid DmaState DmaWait Bool Fault}
    {full : ℕ} {self : Tid} {choice : Bool} {wait : DmaWait}
    {next : Bool → DmaM Unit} (hthread : pool.thread self = .block wait next)
    (hallows : (creditContract full).allows self wait pool.shared choice) :
    (creditContract full).Allowed pool (.resume self choice) := by
  intro wait' next' hthread'
  rw [hthread] at hthread'
  injection hthread' with hwait
  exact hwait ▸ hallows

theorem dmaRun_conserves_bench :
    ∃ last, Run dmaMachine.move (creditContract 12288).Allowed
        (dmaPool 4096 12288 (benchReads 1)) benchMoves last ∧
      DmaConserved 12288 last ∧ last.thread 0 = .ret () := by
  obtain ⟨last, hrun, hended⟩ : ∃ last, Run dmaMachine.move
      (creditContract 12288).Allowed (dmaPool 4096 12288 (benchReads 1))
      benchMoves last ∧ last.thread 0 = .ret () := by
    refine ⟨_, .cons (creditAllowed rfl ?_) rfl (.cons (creditAllowed rfl trivial) rfl
      (.cons (creditAllowed rfl ?_) rfl (.cons (creditAllowed rfl trivial) rfl (.cons ?_ rfl
      (.cons (creditAllowed rfl ?_) rfl (.cons (creditAllowed rfl ?_) rfl (.nil _))))))), rfl⟩
    · exact fun _ hmem => absurd hmem List.not_mem_nil
    · exact fun _ hmem => absurd hmem List.not_mem_nil
    · exact fun herror => absurd herror Bool.false_ne_true
    · exact fun hlate => absurd hlate Bool.false_ne_true
    · intro tag hmem
      obtain rfl := List.mem_singleton.mp hmem
      rfl
  exact ⟨last, hrun, dmaRun_conserves 4096 12288 (benchReads 1) benchMoves last hrun, hended⟩

/-- The wait for the only command times out, and the command completes after
the read has returned. -/
def lateMoves : List (Move Tid Bool RxCompletion) :=
  [.resume 0 false, .resume 0 false, .resume 0 false, .resume 0 false,
    .resume 0 true, .resume 0 false, .event ⟨0, 0, false⟩]

/-- Sixteen commands time out while the thread has the entry for a
seventeenth. -/
def leakMoves : List (Move Tid Bool RxCompletion) :=
  List.replicate 35 (.resume 0 false) ++ [.resume 0 true, .resume 0 false]

/-- The credit of the command is lost, and the entry stays taken. -/
theorem not_dmaRun_conserves :
    (∃ last, FreeRun dmaMachine.move (dmaPool 4096 12288 (benchReads 1))
      lateMoves last ∧ last.shared.sent = [] ∧
        last.shared.rxfifoAvail = 8192 ∧ ¬DmaConserved 12288 last) ∧
    ∃ last, FreeRun dmaMachine.move (dmaPool 4096 131072 (benchReads 17))
      leakMoves last ∧ last.thread 0 = .ret () ∧
        last.shared.owner 16 = some 0 ∧ ¬DmaConserved 131072 last := by
  constructor
  · obtain ⟨last, hlast, hsent, havail⟩ : ∃ last,
        runActions dmaMachine.move (dmaPool 4096 12288 (benchReads 1))
          lateMoves = some last ∧ last.shared.sent = [] ∧
        last.shared.rxfifoAvail = 8192 := ⟨_, rfl, rfl, rfl⟩
    refine ⟨last, freeRun_of_runActions hlast, hsent, havail, ?_⟩
    intro hconserved
    have hfull := hconserved.credit hsent
    omega
  · obtain ⟨last, hlast, hended, howner⟩ : ∃ last,
        runActions dmaMachine.move (dmaPool 4096 131072 (benchReads 17))
          leakMoves = some last ∧ last.thread 0 = .ret () ∧
        last.shared.owner 16 = some 0 := ⟨_, rfl, rfl, rfl⟩
    refine ⟨last, freeRun_of_runActions hlast, hended, howner, ?_⟩
    intro hconserved
    exact hconserved.released 0 hended 16 howner

end Soda
