import Soda.Storpu.RequestLayout

/-!
# Every request is answered once

The two loops keep the layout of the lists and the ledger, and each of their
rounds leaves less to do.  What follows for a whole run: no request is answered
twice, none is lost, and those that create or delete a context and the
invocations that fail are answered by the queue itself.
-/

namespace Soda.Storpu

open Function Linked

variable {A T : Type}

namespace RequestQueues

open List Multiset

variable {s : RequestQueues A T} {entry : Option A} {avail batch hand used : List A}

/-- `kept` are the requests of the batch that the loop has passed and left
linked, `rest` those from the cursor on. -/
def Cursor (s : RequestQueues A T) (kept rest : List A) : Prop :=
  match s.phase with
  | .idle => kept = [] ∧ rest = []
  | .contexts _ prev req => prev = kept.getLast? ∧ req = rest.head? ∧
      ∀ addr ∈ kept, (s.task addr).type = .invoke
  | .invocations _ prev req => kept = [] ∧ prev = none ∧ req = rest.head? ∧
      ∀ addr ∈ rest, (s.task addr).type = .invoke

theorem Cursor.congr {s' : RequestQueues A T} {kept rest : List A}
    (hcursor : s.Cursor kept rest) (hphase : s'.phase = s.phase) (htype : ∀ addr ∈ kept ++ rest,
      (s'.task addr).type = (s.task addr).type) : s'.Cursor kept rest := by
  simp only [Cursor, hphase] at hcursor ⊢
  cases hshape : s.phase with
  | idle =>
    rw [hshape] at hcursor
    exact hcursor
  | contexts entry prev req =>
    rw [hshape] at hcursor
    obtain ⟨hprev, hreq, hkept⟩ := hcursor
    refine ⟨hprev, hreq, ?_⟩
    intro addr haddr
    rw [htype addr (mem_append_left _ haddr)]
    exact hkept addr haddr
  | invocations entry prev req =>
    rw [hshape] at hcursor
    obtain ⟨hkept, hprev, hreq, hrest⟩ := hcursor
    refine ⟨hkept, hprev, hreq, ?_⟩
    intro addr haddr
    rw [htype addr (mem_append_right _ haddr)]
    exact hrest addr haddr

/-- The rounds left, at most, with their ends counted: a request is passed by
both loops. -/
def QueuePhase.work : QueuePhase A → List A → List A → ℕ
  | .idle, _, _ => 0
  | .contexts _ _ _, kept, rest => kept.length + 2 * rest.length + 2
  | .invocations _ _ _, _, rest => rest.length + 1

/-- What holds between any two steps, with `left` rounds to go. -/
def SettledIn (s : RequestQueues A T) (left : ℕ) : Prop :=
  ∃ avail kept rest used, s.Layout s.phase.entry avail (kept ++ rest) [] used ∧ s.Ledger used ∧
      s.Cursor kept rest ∧ QueuePhase.work s.phase kept rest = left

variable {addr req : A} {left : ℕ} {thread : T}

theorem Layout.number (hlayout : s.Layout entry avail batch hand used)
    (hmem : addr ∈ inLists avail batch hand used ∨ ∃ thread, (s.thread thread).task = some addr) :
    ∃ number, s.serving addr = some number := by
  rw [← hlayout.served, Option.isSome_iff_exists] at hmem
  exact hmem

/-- The cursor is on the first request of what is left. -/
theorem Layout.cursor_next {kept rest : List A}
    (hlayout : s.Layout entry avail (kept ++ req :: rest) hand used) : s.next req = rest.head? :=
  hlayout.batch_linked.next_eq

theorem empty_settled (task : SpuTask) : (empty task : RequestQueues A T).SettledIn 0 := by
  refine ⟨[], [], [], [], ?_, ?_, ⟨rfl, rfl⟩, rfl⟩
  · constructor
    case avail_linked | batch_linked | used_linked => exact .nil
    all_goals simp [empty, inLists]
  · constructor <;> simp [empty, answered]

/-- A request that is still to be answered: on `avail_queue`, in the batch that
is walked, or with a thread. -/
def Pending (s : RequestQueues A T) (addr : A) : Prop :=
  (∃ avail, Linked s.next s.availQueue avail ∧ addr ∈ avail) ∨
    (∃ batch, Linked s.next s.phase.entry batch ∧ addr ∈ batch) ∨
    ∃ thread, (s.thread thread).task = some addr

/-- No request is answered twice, and each is answered or pending, but not
both.  The queue answers those that got no thread, an invocation with an error;
the others are answered when their thread is reaped.  Between two batches the
requests that left `avail_queue` are answered or have their thread. -/
structure AnsweredOnce (s : RequestQueues A T) : Prop where
  once : s.answered.Nodup
  placed : ∀ number < s.requests.length, number ∈ s.answered ∨
    ∃ addr, s.serving addr = some number ∧ s.Pending addr
  unanswered : ∀ addr number, s.serving addr = some number → s.Pending addr → number ∉ s.answered
  atOnce : ∀ number retval, (number, Answer.atOnce retval) ∈ s.completions →
    number ∉ s.started ∧ (s.requests[number]? = some .invoke → retval ≠ 0)
  reaped : ∀ number result, (number, Answer.reaped result) ∈ s.completions →
    number ∈ s.started ∧ s.requests[number]? = some .invoke
  handled : s.phase = .idle → ∀ number < s.requests.length,
    number ∈ s.answered ∨ number ∈ s.started ∨ ∃ addr avail, s.serving addr = some number ∧
        Linked s.next s.availQueue avail ∧ addr ∈ avail

variable [DecidableEq A]

theorem type_update (task : A → SpuTask) (addr other : A) (retval result : ℕ) :
    (update task addr { task addr with retval := retval, result := result } other).type =
        (task other).type := by
  rw [update_apply]
  split
  · next heq => rw [heq]
  · rfl

/-- A request at hand that no thread has was not started. -/
theorem Layout.not_started {number : ℕ} (hlayout : s.Layout entry avail batch (addr :: hand) used)
    (hledger : s.Ledger used) (hnumber : s.serving addr = some number) : number ∉ s.started := by
  intro hstarted
  rcases hledger.working_of_started addr number hnumber hstarted with
    hmem | ⟨thread, htask⟩
  · exact hlayout.notMem_of_hand.2.2.2 hmem
  · apply hlayout.working thread addr htask
    rw [inLists_hand_cons]
    exact mem_cons_self _ _

/-- A request at hand is answered by the queue. -/
theorem answerAtOnce_settled (retval : ℕ) (hlayout : s.Layout entry avail batch (addr :: hand) used)
    (hledger : s.Ledger used) (hretval : (s.task addr).type = .invoke → retval ≠ 0) :
    (s.answerAtOnce addr retval).Layout entry avail batch hand (addr :: used) ∧
      (s.answerAtOnce addr retval).Ledger (addr :: used) ∧
      ∀ other, ((s.answerAtOnce addr retval).task other).type = (s.task other).type := by
  have hmem : addr ∈ inLists avail batch (addr :: hand) used := by
    rw [inLists_hand_cons]
    exact mem_cons_self _ _
  obtain ⟨number, hnumber⟩ := hlayout.number (.inl hmem)
  have htype := fun other => type_update s.task addr other retval (s.task addr).result
  have hused := hlayout.notMem_of_hand.2.2.2
  have htyped := hledger.typed addr number hnumber
  have hnew : number ∉ s.started ∧ (s.requests[number]? = some .invoke → retval ≠ 0) := by
    refine ⟨hlayout.not_started hledger hnumber, ?_⟩
    rw [htyped]
    exact fun heq => hretval (Option.some.inj heq)
  have hanswered := (hledger.setTask htype).complete (.atOnce retval) hnumber hused hnew
  have hlayout' := hlayout.complete (.atOnce retval)
  exact ⟨{ hlayout' with }, hanswered, htype⟩

theorem unlink_fst (entry prev reqNext : Option A) (s : RequestQueues A T) :
    (s.unlink entry prev reqNext).1 = { s with next := (s.unlink entry prev reqNext).1.next } := by
  cases prev <;> rfl

theorem SettledIn.contextsRound {prev : Option A} (retval : ℕ) (hsettled : s.SettledIn left)
    (hphase : s.phase = .contexts entry prev (some req)) :
    ∃ left' < left, (s.contextsRound entry prev req retval).SettledIn left' := by
  obtain ⟨avail, kept, rest, used, hlayout, hledger, hcursor, hleft⟩ := hsettled
  simp only [Cursor, hphase] at hcursor
  obtain ⟨rfl, hreq, hkept⟩ := hcursor
  cases rest with
  | nil => cases hreq
  | cons head rest =>
    cases hreq
    rw [hphase] at hlayout
    have hnext := hlayout.cursor_next
    rw [hphase, QueuePhase.work, length_cons] at hleft
    rw [RequestQueues.contextsRound]
    split
    · next htype =>
        refine ⟨kept.length + 1 + 2 * rest.length + 2, by omega, avail,
          kept ++ [req], rest, used, ?_, { hledger with }, ?_, by
            simp only [QueuePhase.work, length_append, length_singleton]⟩
        · rw [append_assoc]
          exact { hlayout with }
        · refine ⟨by simp, hnext, ?_⟩
          intro addr haddr
          rcases mem_append.mp haddr with hold | hnew
          · exact hkept addr hold
          · rw [List.mem_singleton.mp hnew]
            exact htype
    · next htype =>
        have hunlinked := hlayout.unlink kept
        have hsame := unlink_fst entry kept.getLast? (s.next req) s
        simp only [QueuePhase.entry] at hunlinked
        generalize s.unlink entry kept.getLast? (s.next req) = unlinked at hunlinked hsame
        obtain ⟨s1, entry1⟩ := unlinked
        simp only at hunlinked hsame ⊢
        have hledger1 : s1.Ledger used := by
          rw [hsame]
          exact { hledger with }
        have htask : s1.task = s.task := by
          rw [hsame]
        obtain ⟨hlayout2, hledger2, htypes⟩ := answerAtOnce_settled retval hunlinked hledger1
          (by rw [htask]; exact fun heq => absurd heq htype)
        refine ⟨kept.length + 2 * rest.length + 2, by omega, avail, kept, rest,
          req :: used, { hlayout2 with }, { hledger2 with }, ⟨rfl, hnext, ?_⟩, rfl⟩
        intro addr haddr
        show ((s1.answerAtOnce req retval).task addr).type = .invoke
        rw [htypes, htask]
        exact hkept addr haddr

variable (hsettled : s.SettledIn left)
include hsettled

theorem SettledIn.submit (hfree : s.serving addr = none) (type : SpuType) :
    (s.enqueueStorpuRequest addr type).SettledIn left := by
  obtain ⟨avail, kept, rest, used, hlayout, hledger, hcursor, hleft⟩ := hsettled
  have hnone : ¬(s.serving addr).isSome = true := by
    rw [hfree]
    exact Bool.false_ne_true
  rw [hlayout.served, not_or, mem_inLists, not_or, not_or, not_or] at hnone
  obtain ⟨⟨_, hbatch, _, hused⟩, hidle⟩ := hnone
  refine ⟨addr :: avail, kept, rest, used, hlayout.submit hfree type,
    hledger.submit hfree (fun thread htask => hidle ⟨thread, htask⟩) hused type,
    hcursor.congr rfl ?_, hleft⟩
  intro other hother
  have hne : other ≠ addr := by
    rintro rfl
    exact hbatch hother
  simp only [enqueueStorpuRequest, update_of_ne hne]

omit [DecidableEq A] in
theorem SettledIn.start (hphase : s.phase = .idle) : ∃ left, s.startQueue.SettledIn left := by
  obtain ⟨avail, kept, rest, used, hlayout, hledger, hcursor, hleft⟩ := hsettled
  have havail := hlayout.avail_linked
  simp only [Cursor, hphase] at hcursor
  obtain ⟨rfl, rfl⟩ := hcursor
  rw [startQueue]
  split
  · refine ⟨left, avail, [], [], used, hlayout, hledger, ?_, hleft⟩
    simp only [Cursor, hphase, and_self]
  · next first hfirst =>
      rw [hfirst] at havail
      refine ⟨_, [], [], avail, used, ?_, { hledger with }, ?_, rfl⟩
      · refine hlayout.move nil havail hlayout.used_linked ?_ rfl rfl
        simp only [inLists, append_nil, nil_append, coe_nil, zero_add, add_zero]
      · refine ⟨rfl, havail.head?_eq.symm, ?_⟩
        intro addr hmem
        cases hmem

theorem SettledIn.collect {addrs : List A} (haddrs : Linked s.next s.usedQueue addrs) :
    (s.dequeueStorpuCompletions addrs).SettledIn left := by
  obtain ⟨avail, kept, rest, used, hlayout, hledger, hcursor, hleft⟩ := hsettled
  obtain rfl := haddrs.unique hlayout.used_linked
  exact ⟨avail, kept, rest, [], hlayout.collect, hledger.collect,
    hcursor.congr rfl fun _ _ => rfl, hleft⟩

theorem SettledIn.answeredOnce : s.AnsweredOnce := by
  obtain ⟨avail, kept, rest, used, hlayout, hledger, hcursor, _⟩ := hsettled
  have hplaced : ∀ number < s.requests.length, number ∈ s.answered ∨
      ∃ addr, s.serving addr = some number ∧ (addr ∈ avail ∨
        addr ∈ kept ++ rest ∨ ∃ thread, (s.thread thread).task = some addr) := by
    intro number hlt
    rcases hledger.accounted number hlt with hmem | ⟨addr, hnumber⟩
    · exact .inl hmem
    · have hserved : (s.serving addr).isSome = true := by
        rw [hnumber]
        rfl
      rw [hlayout.served, mem_inLists] at hserved
      rcases hserved with (havail | hbatch | hhand | hused) | hworking
      · exact .inr ⟨addr, hnumber, .inl havail⟩
      · exact .inr ⟨addr, hnumber, .inr (.inl hbatch)⟩
      · cases hhand
      · exact .inl ((hledger.answered_iff addr number hnumber).mpr hused)
      · exact .inr ⟨addr, hnumber, .inr (.inr hworking)⟩
  exact {
    once := hledger.once
    placed := by
      intro number hlt
      rcases hplaced number hlt with hmem | ⟨addr, hnumber, hwhere⟩
      · exact .inl hmem
      · refine .inr ⟨addr, hnumber, ?_⟩
        rcases hwhere with havail | hbatch | hworking
        · exact .inl ⟨avail, hlayout.avail_linked, havail⟩
        · exact .inr (.inl ⟨_, hlayout.batch_linked, hbatch⟩)
        · exact .inr (.inr hworking)
    unanswered := by
      intro addr number hnumber hpending
      rw [hledger.answered_iff addr number hnumber]
      intro hused
      have hcount := Multiset.nodup_iff_count_le_one.mp hlayout.nodup addr
      simp only [inLists, count_add, coe_count] at hcount
      have husedCount := one_le_count_iff.mpr hused
      rcases hpending with ⟨avail', hlinked, hmem⟩ |
        ⟨batch', hlinked, hmem⟩ | ⟨thread, htask⟩
      · rw [hlinked.unique hlayout.avail_linked] at hmem
        have := one_le_count_iff.mpr hmem
        omega
      · rw [hlinked.unique hlayout.batch_linked] at hmem
        have := one_le_count_iff.mpr hmem
        omega
      · exact (hlayout.notMem_of_working htask).2.2.2 hused
    atOnce := hledger.atOnce
    reaped := by
      intro number result hmem
      have hstarted := hledger.reaped number result hmem
      exact ⟨hstarted, (hledger.started_lt number hstarted).2⟩
    handled := by
      intro hphase number hlt
      simp only [Cursor, hphase] at hcursor
      obtain ⟨rfl, rfl⟩ := hcursor
      rcases hplaced number hlt with hmem | ⟨addr, hnumber, hwhere⟩
      · exact .inl hmem
      · rcases hwhere with havail | hbatch | ⟨thread, htask⟩
        · exact .inr (.inr
            ⟨addr, avail, hnumber, hlayout.avail_linked, havail⟩)
        · cases hbatch
        · exact .inr (.inl
            (hledger.started_of_working thread addr number htask hnumber)) }

variable [DecidableEq T]

omit [DecidableEq A] in
theorem SettledIn.exit (hrunning : (s.thread thread).state = .running) (result : ℕ) :
    (s.threadExit thread result).SettledIn left := by
  obtain ⟨avail, kept, rest, used, hlayout, hledger, hcursor, hleft⟩ := hsettled
  exact ⟨avail, kept, rest, used, hlayout.exit hrunning, hledger.exit,
    hcursor.congr rfl fun _ _ => rfl, hleft⟩

theorem SettledIn.reap {next : RequestQueues A T}
    (hreap : s.threadReap thread = some next) : next.SettledIn left := by
  obtain ⟨avail, kept, rest, used, hlayout, hledger, hcursor, hleft⟩ := hsettled
  rw [threadReap] at hreap
  split at hreap
  · cases hreap
  · next addr htask =>
      cases hreap
      obtain ⟨number, hnumber⟩ := hlayout.number (.inr ⟨thread, htask⟩)
      have hused := (hlayout.notMem_of_working htask).2.2.2
      have hstarted := hledger.started_of_working thread addr number htask hnumber
      have htype := fun other => type_update s.task addr other 0 (s.thread thread).result
      have hanswered := (hledger.setTask htype).complete
        (.reaped (s.thread thread).result) hnumber hused hstarted
      refine ⟨avail, kept, rest, addr :: used,
        { (hlayout.stop htask).complete
          (.reaped (s.thread thread).result) with }, ?_, ?_, hleft⟩
      · exact hanswered.stop htask mem_cons_self
      · exact hcursor.congr rfl fun other _ => htype other

theorem SettledIn.invocationsRound {prev : Option A} {retval : ℕ}
    (hphase : s.phase = .invocations entry prev (some req))
    (hdead : retval = 0 → (s.thread thread).state = .dead) :
    ∃ left' < left, (s.invocationsRound entry prev req retval thread).SettledIn left' := by
  obtain ⟨avail, kept, rest, used, hlayout, hledger, hcursor, hleft⟩ := hsettled
  simp only [Cursor, hphase] at hcursor
  obtain ⟨rfl, rfl, hreq, hrest⟩ := hcursor
  cases rest with
  | nil => cases hreq
  | cons head rest =>
    cases hreq
    have hnext := hlayout.cursor_next
    rw [hphase, QueuePhase.work, length_cons] at hleft
    have hunlinked := hlayout.unlink []
    have htype := hrest req mem_cons_self
    have hafter : ∀ addr ∈ rest, (s.task addr).type = .invoke :=
      fun addr haddr => hrest addr (.tail _ haddr)
    rw [RequestQueues.invocationsRound, if_pos htype]
    simp only [getLast?_nil, RequestQueues.unlink, nil_append] at hunlinked ⊢
    by_cases hretval : retval = 0
    · rw [if_pos hretval]
      have hmem : req ∈ inLists avail rest [req] used := by
        rw [inLists_hand_cons]
        exact mem_cons_self _ _
      obtain ⟨number, hnumber⟩ := hunlinked.number (.inl hmem)
      have hused := hunlinked.notMem_of_hand.2.2.2
      have hlayout2 := hunlinked.create (hdead hretval)
      have hledger2 := hledger.create hnumber hused htype ((hlayout.live thread).mp (hdead hretval))
      exact ⟨rest.length + 1, by omega, avail, [], rest, used,
        { hlayout2 with }, { hledger2 with }, ⟨rfl, rfl, hnext, hafter⟩, rfl⟩
    · rw [if_neg hretval]
      obtain ⟨hlayout2, hledger2, htypes⟩ := answerAtOnce_settled
        retval hunlinked hledger fun _ => hretval
      refine ⟨rest.length + 1, by omega, avail, [], rest, req :: used,
        { hlayout2 with }, { hledger2 with }, ⟨rfl, rfl, hnext, ?_⟩, rfl⟩
      intro addr haddr
      show ((s.answerAtOnce req retval).task addr).type = .invoke
      rw [htypes]
      exact hafter addr haddr

theorem SettledIn.queueRound {retval : ℕ} {next : RequestQueues A T}
    (hround : s.queueRound retval thread = some next) : ∃ left' < left, next.SettledIn left' := by
  rw [RequestQueues.queueRound] at hround
  split at hround
  · cases hround
  · next entry prev req hphase =>
      cases hround
      exact hsettled.contextsRound retval hphase
  · next prev hphase =>
      cases hround
      obtain ⟨avail, kept, rest, used, hlayout, hledger, hcursor, hleft⟩ := hsettled
      rw [hphase] at hlayout
      have hbatch : kept ++ rest = [] := (unique hlayout.batch_linked nil)
      rw [hbatch] at hlayout
      rw [hphase, QueuePhase.work] at hleft
      exact ⟨0, by omega, avail, [], [], used, { hlayout with }, { hledger with }, ⟨rfl, rfl⟩, rfl⟩
  · next first prev hphase =>
      cases hround
      obtain ⟨avail, kept, rest, used, hlayout, hledger, hcursor, hleft⟩ := hsettled
      simp only [Cursor, hphase] at hcursor
      obtain ⟨_, hreq, hkept⟩ := hcursor
      rw [hphase] at hlayout
      have hrest : rest = [] := head?_eq_none_iff.mp hreq.symm
      rw [hrest, append_nil] at hlayout
      rw [hphase, QueuePhase.work] at hleft
      exact ⟨kept.length + 1, by omega, avail, [], kept, used, { hlayout with }, { hledger with },
        ⟨rfl, rfl, hlayout.batch_linked.head?_eq.symm, hkept⟩, rfl⟩
  · next entry prev req hphase =>
      obtain ⟨hguard, rfl⟩ := unless_some hround
      apply hsettled.invocationsRound hphase
      intro hretval
      by_contra hlive
      exact hguard ⟨hretval, hlive⟩
  · next entry prev hphase =>
      cases hround
      obtain ⟨avail, kept, rest, used, hlayout, hledger, hcursor, hleft⟩ := hsettled
      simp only [Cursor, hphase] at hcursor
      obtain ⟨rfl, _, hreq, _⟩ := hcursor
      have hrest : rest = [] := head?_eq_none_iff.mp hreq.symm
      rw [hrest] at hlayout
      rw [hphase, QueuePhase.work] at hleft
      exact ⟨0, by omega, avail, [], [], used,
        hlayout.move hlayout.avail_linked nil hlayout.used_linked rfl rfl
          rfl, { hledger with }, ⟨rfl, rfl⟩, rfl⟩

end RequestQueues

open RequestQueues

variable [DecidableEq A] [DecidableEq T]

theorem requestStep_settled (s : RequestQueues A T)
    (action : RequestAction A T) (next : RequestQueues A T) (hsettled : ∃ left, s.SettledIn left)
    (hstep : requestStep s action = some next) : ∃ left, next.SettledIn left := by
  obtain ⟨left, hsettled⟩ := hsettled
  cases action with
  | submit addr type =>
    simp only [requestStep] at hstep
    split at hstep
    · cases hstep
      exact ⟨left, hsettled.submit ‹_› type⟩
    · cases hstep
  | start =>
    simp only [requestStep] at hstep
    split at hstep
    · cases hstep
      exact hsettled.start ‹_›
    · cases hstep
  | round retval thread =>
    obtain ⟨left', _, hnext⟩ := hsettled.queueRound hstep
    exact ⟨left', hnext⟩
  | exit thread result =>
    obtain ⟨hrunning, rfl⟩ := guard_some hstep
    exact ⟨left, hsettled.exit hrunning result⟩
  | switch prev =>
    simp only [requestStep, finishThreadSwitch] at hstep
    split at hstep
    · exact ⟨left, hsettled.reap hstep⟩
    · cases hstep
      exact ⟨left, hsettled⟩
  | collect addrs =>
    obtain ⟨hlinked, rfl⟩ := guard_some hstep
    exact ⟨left, hsettled.collect hlinked⟩

/-- A round that fails its request is always possible while a loop runs. -/
theorem round_possible (s : RequestQueues A T) (hphase : s.phase ≠ .idle)
    (thread : T) : ∃ next, requestStep s (.round 1 thread) = some next := by
  simp only [requestStep, queueRound]
  split
  · exact absurd ‹_› hphase
  all_goals simp

/-- The loops end: every sequence of rounds is as long as there is work left,
at most. -/
theorem rounds_bounded {s last : RequestQueues A T} {left : ℕ}
    {rounds : List (RequestAction A T)} (hsettled : s.SettledIn left)
    (hrounds : ∀ action ∈ rounds, ∃ retval thread, action = .round retval thread)
    (hrun : FreeRun requestStep s rounds last) : rounds.length ≤ left := by
  induction hrun generalizing left with
  | nil s => exact Nat.zero_le _
  | @cons s next last action rounds _ hstep _ ih =>
    obtain ⟨retval, thread, rfl⟩ := hrounds _ List.mem_cons_self
    obtain ⟨left', hlt, hnext⟩ := hsettled.queueRound hstep
    have hrest := ih hnext fun action hmem => hrounds action (.tail _ hmem)
    rw [List.length_cons]
    omega

end Soda.Storpu
