import Soda.Storpu.RequestQueue

/-!
# Where the requests are

A request that was submitted is on `avail_queue`, in the batch that is being
walked, with a thread, or on `used_queue`, and in one of these places only.
The steps move requests from one place to the next; `hand` has those that a
step has unlinked and not yet handed on.
-/

namespace Soda.Storpu

open Function

variable {A T : Type}

namespace RequestQueues

open Multiset

def answered (s : RequestQueues A T) : List ℕ := s.completions.map Prod.fst

def inLists (avail batch hand used : List A) : Multiset A :=
  (avail : Multiset A) + batch + hand + used

/-- The lists are linked and hold different requests, which no thread has; the
requests at hand are in none of them. -/
structure Layout (s : RequestQueues A T) (entry : Option A)
    (avail batch hand used : List A) : Prop where
  avail_linked : Linked s.next s.availQueue avail
  batch_linked : Linked s.next entry batch
  used_linked : Linked s.next s.usedQueue used
  nodup : (inLists avail batch hand used).Nodup
  working : ∀ thread addr, (s.thread thread).task = some addr → addr ∉ inLists avail batch hand used
  working_once : ∀ thread other addr, (s.thread thread).task = some addr →
    (s.thread other).task = some addr → thread = other
  live : ∀ thread, (s.thread thread).state = .dead ↔ (s.thread thread).task = none
  served : ∀ addr, (s.serving addr).isSome ↔ addr ∈ inLists avail batch hand used ∨
      ∃ thread, (s.thread thread).task = some addr

/-- The numbers: a request that is served is answered if and only if it is on
`used_queue`, and started if a thread has it. -/
structure Ledger (s : RequestQueues A T) (used : List A) : Prop where
  typed : ∀ addr number, s.serving addr = some number →
    s.requests[number]? = some (s.task addr).type
  serving_once : ∀ addr other number, s.serving addr = some number →
    s.serving other = some number → addr = other
  once : s.answered.Nodup
  answered_iff : ∀ addr number, s.serving addr = some number → (number ∈ s.answered ↔ addr ∈ used)
  answered_lt : ∀ number ∈ s.answered, number < s.requests.length
  accounted : ∀ number < s.requests.length, number ∈ s.answered ∨
    ∃ addr, s.serving addr = some number
  started_of_working : ∀ thread addr number,
    (s.thread thread).task = some addr → s.serving addr = some number → number ∈ s.started
  working_of_started : ∀ addr number, s.serving addr = some number →
    number ∈ s.started → addr ∈ used ∨ ∃ thread, (s.thread thread).task = some addr
  started_lt : ∀ number ∈ s.started, number < s.requests.length ∧ s.requests[number]? = some .invoke
  atOnce : ∀ number retval, (number, Answer.atOnce retval) ∈ s.completions → number ∉ s.started ∧
      (s.requests[number]? = some .invoke → retval ≠ 0)
  reaped : ∀ number result, (number, Answer.reaped result) ∈ s.completions → number ∈ s.started

variable {s : RequestQueues A T} {entry : Option A} {avail batch hand used : List A} {addr : A}
  {thread : T}

theorem mem_inLists : addr ∈ inLists avail batch hand used ↔
    addr ∈ avail ∨ addr ∈ batch ∨ addr ∈ hand ∨ addr ∈ used := by
  simp only [inLists, mem_add, mem_coe, or_assoc]

theorem inLists_avail_cons (addr : A) :
    inLists (addr :: avail) batch hand used = addr ::ₘ inLists avail batch hand used := by
  simp only [inLists, ← cons_coe, cons_add]

theorem inLists_batch_middle {kept rest : List A} (addr : A) :
    inLists avail (kept ++ addr :: rest) hand used =
      addr ::ₘ inLists avail (kept ++ rest) hand used := by
  have hmiddle : ((kept ++ addr :: rest : List A) : Multiset A) =
      addr ::ₘ ((kept ++ rest : List A) : Multiset A) :=
    coe_eq_coe.mpr List.perm_middle
  simp only [inLists, hmiddle, cons_add, add_cons]

theorem inLists_hand_cons (addr : A) :
    inLists avail batch (addr :: hand) used = addr ::ₘ inLists avail batch hand used := by
  simp only [inLists, ← cons_coe, cons_add, add_cons]

theorem inLists_used_cons (addr : A) :
    inLists avail batch hand (addr :: used) = addr ::ₘ inLists avail batch hand used := by
  simp only [inLists, ← cons_coe, add_cons]

/-- A request changes its list and nothing else. -/
theorem Layout.move {s' : RequestQueues A T} {entry' : Option A}
    {avail' batch' hand' used' : List A} (hlayout : s.Layout entry avail batch hand used)
    (havail : Linked s'.next s'.availQueue avail') (hbatch : Linked s'.next entry' batch')
    (hused : Linked s'.next s'.usedQueue used') (hlists : inLists avail' batch' hand' used' =
      inLists avail batch hand used)
    (hthread : s'.thread = s.thread) (hserving : s'.serving = s.serving) :
    s'.Layout entry' avail' batch' hand' used' where
  avail_linked := havail
  batch_linked := hbatch
  used_linked := hused
  nodup := by
    rw [hlists]
    exact hlayout.nodup
  working := by
    rw [hlists, hthread]
    exact hlayout.working
  working_once := by
    rw [hthread]
    exact hlayout.working_once
  live := by
    rw [hthread]
    exact hlayout.live
  served := by
    rw [hlists, hthread, hserving]
    exact hlayout.served

theorem Layout.notMem_of_working (hlayout : s.Layout entry avail batch hand used)
    (htask : (s.thread thread).task = some addr) :
    addr ∉ avail ∧ addr ∉ batch ∧ addr ∉ hand ∧ addr ∉ used := by
  have hnot := hlayout.working thread addr htask
  rw [mem_inLists, not_or, not_or, not_or] at hnot
  exact hnot

/-- Return values and results may change, the types may not. -/
theorem Ledger.setTask (hledger : s.Ledger used) {task : A → SpuTask}
    (htype : ∀ addr, (task addr).type = (s.task addr).type) :
    ({ s with task := task } : RequestQueues A T).Ledger used :=
  { hledger with
    typed := by
      intro addr number hnumber
      rw [htype]
      exact hledger.typed addr number hnumber }

section Lists

variable [DecidableEq A]

/-- A request at hand is in no list. -/
theorem Layout.notMem_of_hand {rest : List A}
    (hlayout : s.Layout entry avail batch (addr :: rest) used) :
    addr ∉ avail ∧ addr ∉ batch ∧ addr ∉ rest ∧ addr ∉ used := by
  have hcount := nodup_iff_count_le_one.mp hlayout.nodup addr
  simp only [inLists, count_add, coe_count, List.count_cons_self] at hcount
  refine ⟨?_, ?_, ?_, ?_⟩ <;>
  · intro hmem
    have := List.one_le_count_iff.mpr hmem
    omega

/-- The request after the kept ones is unlinked. -/
theorem Layout.unlink (kept : List A) {rest : List A} {req : A}
    (hlayout : s.Layout entry avail (kept ++ req :: rest) hand used) :
    (s.unlink entry kept.getLast? (s.next req)).1.Layout
      (s.unlink entry kept.getLast? (s.next req)).2 avail (kept ++ rest) (req :: hand) used := by
  have hbatch := hlayout.batch_linked
  have hnodup := hlayout.nodup
  have hlists : inLists avail (kept ++ rest) (req :: hand) used =
      inLists avail (kept ++ req :: rest) hand used := by
    rw [inLists_hand_cons, inLists_batch_middle]
  rcases List.eq_nil_or_concat kept with rfl | ⟨before, last, rfl⟩
  · cases hbatch with
    | cons hrest => exact hlayout.move hlayout.avail_linked hrest hlayout.used_linked hlists rfl rfl
  · have hlast : last ∉ avail ∧ last ∉ used := by
      have hcount := nodup_iff_count_le_one.mp hnodup last
      simp only [inLists, count_add, coe_count,
        List.count_append, List.count_cons_self, List.concat_eq_append]
        at hcount
      constructor <;>
      · intro hmem
        have := List.one_le_count_iff.mpr hmem
        omega
    simp only [List.concat_eq_append, List.append_assoc, List.singleton_append]
      at hlayout hbatch hlists hnodup ⊢
    have hinner : (before ++ last :: req :: rest).Nodup := by
      have hle : ((before ++ last :: req :: rest : List A) : Multiset A) ≤
          inLists avail (before ++ last :: req :: rest) hand used := by
        rw [inLists, add_assoc, add_assoc, add_left_comm]
        exact le_add_right _ _
      exact coe_nodup.mp (nodup_of_le hle hnodup)
    simp only [List.getLast?_append, List.getLast?_singleton, Option.some_or, RequestQueues.unlink]
    exact hlayout.move (hlayout.avail_linked.update_of_notMem hlast.1 _)
      (hbatch.unlink_after hinner) (hlayout.used_linked.update_of_notMem hlast.2 _) hlists rfl rfl

/-- A request at hand is pushed onto `used_queue`. -/
theorem Layout.complete
    (hlayout : s.Layout entry avail batch (addr :: hand) used) (answer : Answer) :
    (s.enqueueStorpuCompletion addr answer).Layout entry avail batch hand (addr :: used) := by
  obtain ⟨havail, hbatch, _, hused⟩ := hlayout.notMem_of_hand
  refine hlayout.move (hlayout.avail_linked.update_of_notMem havail _)
    (hlayout.batch_linked.update_of_notMem hbatch _) (hlayout.used_linked.push hused) ?_ rfl rfl
  rw [inLists_used_cons, inLists_hand_cons]

theorem Layout.submit (hlayout : s.Layout entry avail batch hand used)
    (hfree : s.serving addr = none) (type : SpuType) :
    (s.enqueueStorpuRequest addr type).Layout entry (addr :: avail) batch hand used := by
  have hnone : ¬(s.serving addr).isSome = true := by
    rw [hfree]
    exact Bool.false_ne_true
  rw [hlayout.served, not_or] at hnone
  obtain ⟨hnot, hidle⟩ := hnone
  have hlists := hnot
  rw [mem_inLists, not_or, not_or, not_or] at hlists
  exact {
    avail_linked := hlayout.avail_linked.push hlists.1
    batch_linked := hlayout.batch_linked.update_of_notMem hlists.2.1 _
    used_linked := hlayout.used_linked.update_of_notMem hlists.2.2.2 _
    nodup := by
      rw [inLists_avail_cons, nodup_cons]
      exact ⟨hnot, hlayout.nodup⟩
    working := by
      intro thread found htask
      rw [inLists_avail_cons, mem_cons, not_or]
      refine ⟨?_, hlayout.working thread found htask⟩
      rintro rfl
      exact hidle ⟨thread, htask⟩
    working_once := hlayout.working_once
    live := hlayout.live
    served := by
      intro found
      rw [inLists_avail_cons, mem_cons]
      by_cases hfound : found = addr
      · simp [enqueueStorpuRequest, hfound]
      · simp only [enqueueStorpuRequest, update_of_ne hfound, hfound,
          false_or]
        exact hlayout.served found }

theorem Layout.collect (hlayout : s.Layout entry avail batch hand used) :
    (s.dequeueStorpuCompletions used).Layout entry avail batch hand [] := by
  have hlists : inLists avail batch hand used = inLists avail batch hand [] + used := by
    simp only [inLists, coe_nil, add_zero]
  have hnodup := hlayout.nodup
  rw [hlists, nodup_add] at hnodup
  obtain ⟨hkept, _, hdisjoint⟩ := hnodup
  exact {
    avail_linked := hlayout.avail_linked
    batch_linked := hlayout.batch_linked
    used_linked := Linked.nil
    nodup := hkept
    working := by
      intro thread found htask hmem
      apply hlayout.working thread found htask
      rw [hlists]
      exact mem_add.mpr (.inl hmem)
    working_once := hlayout.working_once
    live := hlayout.live
    served := by
      intro found
      simp only [dequeueStorpuCompletions]
      split
      · next hmem =>
          simp only [Option.isSome_none, Bool.false_eq_true, false_iff, not_or,
            not_exists]
          constructor
          · intro hkeep
            exact disjoint_left.mp hdisjoint hkeep
              (mem_coe.mpr hmem)
          · intro thread htask
            exact (hlayout.notMem_of_working htask).2.2.2 hmem
      · next hmem =>
          rw [hlayout.served found, hlists, mem_add,
            mem_coe]
          simp only [hmem, or_false] }

theorem Ledger.submit (hledger : s.Ledger used) (hfree : s.serving addr = none)
    (hidle : ∀ thread, (s.thread thread).task ≠ some addr) (hused : addr ∉ used)
    (type : SpuType) : (s.enqueueStorpuRequest addr type).Ledger used := by
  have hserving : ∀ other number, (s.enqueueStorpuRequest addr type).serving other = some number →
        (other = addr ∧ number = s.requests.length) ∨ (other ≠ addr ∧ number < s.requests.length ∧
            s.serving other = some number) := by
    intro other number hnumber
    by_cases hother : other = addr
    · simp only [enqueueStorpuRequest, hother, update_self] at hnumber
      exact .inl ⟨hother, (Option.some.inj hnumber).symm⟩
    · simp only [enqueueStorpuRequest, update_of_ne hother] at hnumber
      have htyped := hledger.typed other number hnumber
      exact .inr ⟨hother, (List.getElem?_eq_some_iff.mp htyped).1, hnumber⟩
  have hlength : (s.enqueueStorpuRequest addr type).requests.length =
      s.requests.length + 1 := List.length_append
  have hgrown : ∀ number < s.requests.length, (s.enqueueStorpuRequest addr type).requests[number]? =
        s.requests[number]? := by
    intro number hlt
    exact List.getElem?_append_left hlt
  have hfresh : s.requests.length ∉ s.answered := by
    intro hmem
    exact lt_irrefl _ (hledger.answered_lt _ hmem)
  exact {
    typed := by
      intro other number hnumber
      rcases hserving other number hnumber with
        ⟨rfl, rfl⟩ | ⟨hne, hlt, hold⟩
      · simp [enqueueStorpuRequest]
      · rw [hgrown number hlt, hledger.typed other number hold]
        simp only [enqueueStorpuRequest, update_of_ne hne]
    serving_once := by
      intro first second number hfirst hsecond
      rcases hserving first number hfirst with
        ⟨rfl, rfl⟩ | ⟨_, hlt, hold⟩
      · rcases hserving second _ hsecond with ⟨rfl, _⟩ | ⟨_, hlt, _⟩
        · rfl
        · exact absurd hlt (lt_irrefl _)
      · rcases hserving second number hsecond with
          ⟨_, rfl⟩ | ⟨_, _, hold'⟩
        · exact absurd hlt (lt_irrefl _)
        · exact hledger.serving_once first second number hold hold'
    once := hledger.once
    answered_iff := by
      intro other number hnumber
      rcases hserving other number hnumber with
        ⟨rfl, rfl⟩ | ⟨_, _, hold⟩
      · exact iff_of_false hfresh hused
      · exact hledger.answered_iff other number hold
    answered_lt := by
      intro number hmem
      rw [hlength]
      exact Nat.lt_succ_of_lt (hledger.answered_lt number hmem)
    accounted := by
      intro number hlt
      rw [hlength] at hlt
      rcases Nat.lt_succ_iff_lt_or_eq.mp hlt with hold | rfl
      · rcases hledger.accounted number hold with hmem | ⟨other, hother⟩
        · exact .inl hmem
        · have hne : other ≠ addr := by
            rintro rfl
            rw [hfree] at hother
            cases hother
          refine .inr ⟨other, ?_⟩
          simp only [enqueueStorpuRequest, update_of_ne hne]
          exact hother
      · refine .inr ⟨addr, ?_⟩
        simp only [enqueueStorpuRequest, update_self]
    started_of_working := by
      intro thread other number htask hnumber
      rcases hserving other number hnumber with ⟨rfl, _⟩ | ⟨_, _, hold⟩
      · exact absurd htask (hidle thread)
      · exact hledger.started_of_working thread other number htask hold
    working_of_started := by
      intro other number hnumber hstarted
      rcases hserving other number hnumber with
        ⟨rfl, rfl⟩ | ⟨_, _, hold⟩
      · exact absurd (hledger.started_lt _ hstarted).1 (lt_irrefl _)
      · exact hledger.working_of_started other number hold hstarted
    started_lt := by
      intro number hstarted
      obtain ⟨hlt, htype⟩ := hledger.started_lt number hstarted
      rw [hlength, hgrown number hlt]
      exact ⟨Nat.lt_succ_of_lt hlt, htype⟩
    atOnce := by
      intro number retval hmem
      obtain ⟨hstarted, hretval⟩ := hledger.atOnce number retval hmem
      have hlt := hledger.answered_lt number
        (List.mem_map.mpr ⟨_, hmem, rfl⟩)
      rw [hgrown number hlt]
      exact ⟨hstarted, hretval⟩
    reaped := hledger.reaped }

/-- A request is put on the completion queue for the first time. -/
theorem Ledger.complete {number : ℕ} (answer : Answer) (hledger : s.Ledger used)
    (hnumber : s.serving addr = some number) (hused : addr ∉ used) (hanswer : match answer with
      | .atOnce retval => number ∉ s.started ∧ (s.requests[number]? = some .invoke → retval ≠ 0)
      | .reaped _ => number ∈ s.started) :
    (s.enqueueStorpuCompletion addr answer).Ledger (addr :: used) := by
  have hcompletions : (s.enqueueStorpuCompletion addr answer).completions =
      s.completions ++ [(number, answer)] := by
    simp only [enqueueStorpuCompletion, hnumber, Option.map_some, Option.toList_some]
  have hanswered : (s.enqueueStorpuCompletion addr answer).answered = s.answered ++ [number] := by
    rw [answered, hcompletions, List.map_append]
    rfl
  have hnot : number ∉ s.answered := by
    rw [hledger.answered_iff addr number hnumber]
    exact hused
  exact {
    hledger with
    once := by
      rw [hanswered]
      exact List.nodup_append.mpr ⟨hledger.once, List.nodup_singleton _, by
        intro a ha b hb hab
        rw [hab, List.mem_singleton.mp hb] at ha
        exact hnot ha⟩
    answered_iff := by
      intro other found hfound
      rw [hanswered, List.mem_append, List.mem_singleton, List.mem_cons,
        hledger.answered_iff other found hfound]
      constructor
      · rintro (hmem | rfl)
        · exact .inr hmem
        · exact .inl (hledger.serving_once other addr found hfound hnumber)
      · rintro (rfl | hmem)
        · exact .inr (Option.some.inj (hfound.symm.trans hnumber))
        · exact .inl hmem
    answered_lt := by
      intro found hmem
      rw [hanswered, List.mem_append, List.mem_singleton] at hmem
      rcases hmem with hold | rfl
      · exact hledger.answered_lt found hold
      · exact (List.getElem?_eq_some_iff.mp
          (hledger.typed addr found hnumber)).1
    accounted := by
      intro found hlt
      rw [hanswered, List.mem_append]
      rcases hledger.accounted found hlt with hmem | hother
      · exact .inl (.inl hmem)
      · exact .inr hother
    working_of_started := by
      intro other found hfound hstarted
      rcases hledger.working_of_started other found hfound hstarted with
        hmem | hworking
      · exact .inl (.tail _ hmem)
      · exact .inr hworking
    atOnce := by
      intro found retval hmem
      rw [hcompletions, List.mem_append, List.mem_singleton] at hmem
      rcases hmem with hold | hnew
      · exact hledger.atOnce found retval hold
      · cases hnew
        exact hanswer
    reaped := by
      intro found result hmem
      rw [hcompletions, List.mem_append, List.mem_singleton] at hmem
      rcases hmem with hold | hnew
      · exact hledger.reaped found result hold
      · cases hnew
        exact hanswer }

theorem Ledger.collect (hledger : s.Ledger used) : (s.dequeueStorpuCompletions used).Ledger [] := by
  have hserving : ∀ addr number, (s.dequeueStorpuCompletions used).serving addr = some number →
        addr ∉ used ∧ s.serving addr = some number := by
    intro addr number hnumber
    simp only [dequeueStorpuCompletions] at hnumber
    split at hnumber
    · cases hnumber
    · exact ⟨‹_›, hnumber⟩
  exact {
    hledger with
    typed := by
      intro addr number hnumber
      exact hledger.typed addr number (hserving addr number hnumber).2
    serving_once := by
      intro addr other number haddr hother
      exact hledger.serving_once addr other number
        (hserving addr number haddr).2 (hserving other number hother).2
    answered_iff := by
      intro addr number hnumber
      obtain ⟨hused, hold⟩ := hserving addr number hnumber
      exact iff_of_false
        (fun hmem => hused ((hledger.answered_iff addr number hold).mp hmem))
        List.not_mem_nil
    accounted := by
      intro number hlt
      rcases hledger.accounted number hlt with hmem | ⟨addr, haddr⟩
      · exact .inl hmem
      · by_cases hused : addr ∈ used
        · exact .inl ((hledger.answered_iff addr number haddr).mpr hused)
        · refine .inr ⟨addr, ?_⟩
          simp only [dequeueStorpuCompletions, hused, if_false]
          exact haddr
    started_of_working := by
      intro thread addr number htask hnumber
      exact hledger.started_of_working thread addr number htask
        (hserving addr number hnumber).2
    working_of_started := by
      intro addr number hnumber hstarted
      obtain ⟨hused, hold⟩ := hserving addr number hnumber
      rcases hledger.working_of_started addr number hold hstarted with
        hmem | hworking
      · exact absurd hmem hused
      · exact .inr hworking }

end Lists

/-! ### Threads -/

variable [DecidableEq T]

theorem exists_thread_iff (thread : T) {p : SpuThread A → Prop} :
    (∃ other, p (s.thread other)) ↔ p (s.thread thread) ∨ ∃ other ≠ thread, p (s.thread other) := by
  have hiff := exists_update_iff s.thread (a := thread) (b := s.thread thread) fun _ c => p c
  rwa [update_eq_self] at hiff

theorem threadExit_task (result : ℕ) (other : T) :
    ((s.threadExit thread result).thread other).task = (s.thread other).task := by
  simp only [threadExit, update_apply]
  split
  · next heq => rw [heq]
  · rfl

/-- A request at hand is given to a thread. -/
theorem Layout.create (hlayout : s.Layout entry avail batch (addr :: hand) used)
    (hdead : (s.thread thread).state = .dead) :
    (s.threadCreate thread addr).Layout entry avail batch hand used := by
  have hidle := (hlayout.live thread).mp hdead
  have hnodup := hlayout.nodup
  rw [inLists_hand_cons, nodup_cons] at hnodup
  have hworking : ∀ other found, (s.thread other).task = some found →
      found ≠ addr ∧ found ∉ inLists avail batch hand used := by
    intro other found htask
    have hnot := hlayout.working other found htask
    rwa [inLists_hand_cons, mem_cons, not_or] at hnot
  exact { hlayout with
    nodup := hnodup.2
    working := by
      intro other found htask
      simp only [threadCreate, update_apply] at htask
      split at htask
      · cases htask
        exact hnodup.1
      · exact (hworking other found htask).2
    working_once := by
      intro first second found hfirst hsecond
      simp only [threadCreate, update_apply] at hfirst hsecond
      split at hfirst <;> split at hsecond
      · next h1 h2 => rw [h1, h2]
      · cases hfirst
        exact absurd rfl (hworking second addr hsecond).1
      · cases hsecond
        exact absurd rfl (hworking first addr hfirst).1
      · exact hlayout.working_once first second found hfirst hsecond
    live := by
      apply (forall_update_iff s.thread fun _ c => c.state = .dead ↔ c.task = none).mpr
      exact ⟨by simp, fun other _ => hlayout.live other⟩
    served := by
      intro found
      have hthreads := exists_thread_iff (s := s) thread (p := fun c => c.task = some found)
      rw [hidle] at hthreads
      show (s.serving found).isSome ↔ _ ∨ ∃ other, (update s.thread thread _ other).task = _
      rw [hlayout.served found, inLists_hand_cons, mem_cons, hthreads,
        exists_update_iff s.thread fun _ c => c.task = some found]
      simp only [reduceCtorEq, false_or, Option.some.injEq, eq_comm (a := addr)]
      tauto }

/-- The control block of a thread is given back, with its request left at
hand. -/
theorem Layout.stop (hlayout : s.Layout entry avail batch hand used)
    (htask : (s.thread thread).task = some addr) :
    ({ s with
      thread := update s.thread thread ⟨none, .dead, 0⟩ } :
        RequestQueues A T).Layout entry avail batch (addr :: hand) used where
  __ := hlayout
  nodup := by
    rw [inLists_hand_cons, nodup_cons]
    exact ⟨hlayout.working thread addr htask, hlayout.nodup⟩
  working := by
    intro other found hfound
    simp only [update_apply] at hfound
    split at hfound
    · cases hfound
    · next hne =>
      rw [inLists_hand_cons, mem_cons, not_or]
      refine ⟨?_, hlayout.working other found hfound⟩
      rintro rfl
      exact hne (hlayout.working_once other thread found hfound htask)
  working_once := by
    intro first second found hfirst hsecond
    simp only [update_apply] at hfirst hsecond
    split at hfirst <;> split at hsecond
    · cases hfirst
    · cases hfirst
    · cases hsecond
    · exact hlayout.working_once first second found hfirst hsecond
  live := by
    apply (forall_update_iff s.thread fun _ c => c.state = .dead ↔ c.task = none).mpr
    exact ⟨by simp, fun other _ => hlayout.live other⟩
  served := by
    intro found
    have hthreads := exists_thread_iff (s := s) thread (p := fun c => c.task = some found)
    rw [htask] at hthreads
    rw [hlayout.served found, inLists_hand_cons, mem_cons, hthreads,
      exists_update_iff s.thread fun _ c => c.task = some found]
    simp only [reduceCtorEq, false_or, Option.some.injEq, eq_comm (a := addr)]
    tauto

/-- A thread exits and keeps its request. -/
theorem Layout.exit {result : ℕ} (hlayout : s.Layout entry avail batch hand used)
    (hrunning : (s.thread thread).state = .running) :
    (s.threadExit thread result).Layout entry avail batch hand used :=
  { hlayout with
    working := by
      simp only [threadExit_task]
      exact hlayout.working
    working_once := by
      simp only [threadExit_task]
      exact hlayout.working_once
    live := by
      have hlive := hlayout.live thread
      rw [hrunning] at hlive
      apply (forall_update_iff s.thread fun _ c => c.state = .dead ↔ c.task = none).mpr
      exact ⟨by simpa using hlive, fun other _ => hlayout.live other⟩
    served := by
      simp only [threadExit_task]
      exact hlayout.served }

/-- An invocation that was not answered gets a thread. -/
theorem Ledger.create {number : ℕ} (hledger : s.Ledger used)
    (hnumber : s.serving addr = some number) (hused : addr ∉ used)
    (htype : (s.task addr).type = .invoke) (hidle : (s.thread thread).task = none) :
    (s.threadCreate thread addr).Ledger used := by
  have hstarted : ∀ found, found ∈ (s.threadCreate thread addr).started ↔
      found ∈ s.started ∨ found = number := by
    intro found
    simp only [threadCreate, hnumber, Option.toList_some, List.mem_append, List.mem_singleton]
  have htyped := hledger.typed addr number hnumber
  exact {
    hledger with
    started_of_working := by
      intro other found foundNumber htask hfound
      rw [hstarted]
      simp only [threadCreate, update_apply] at htask hfound
      split at htask
      · cases htask
        exact .inr (Option.some.inj (hfound.symm.trans hnumber))
      · exact .inl (hledger.started_of_working other found foundNumber htask hfound)
    working_of_started := by
      intro found foundNumber hfound hmem
      show _ ∨ ∃ other, (update s.thread thread _ other).task = _
      rw [exists_update_iff s.thread fun _ c => c.task = some found]
      rcases (hstarted _).mp hmem with hold | rfl
      · have hworking := hledger.working_of_started found foundNumber hfound hold
        rw [exists_thread_iff thread (p := fun c => c.task = some found), hidle] at hworking
        simp only [reduceCtorEq, false_or] at hworking
        exact hworking.imp_right .inr
      · rw [hledger.serving_once found addr foundNumber hfound hnumber]
        exact .inr (.inl rfl)
    started_lt := by
      intro found hmem
      rcases (hstarted _).mp hmem with hold | rfl
      · exact hledger.started_lt found hold
      · show found < s.requests.length ∧ s.requests[found]? = some .invoke
        rw [htyped, htype]
        exact ⟨(List.getElem?_eq_some_iff.mp htyped).1, rfl⟩
    atOnce := by
      intro found retval hmem
      obtain ⟨hnot, hretval⟩ := hledger.atOnce found retval hmem
      refine ⟨?_, hretval⟩
      rw [hstarted, not_or]
      refine ⟨hnot, ?_⟩
      rintro rfl
      have hanswered : found ∈ s.answered := List.mem_map.mpr ⟨_, hmem, rfl⟩
      rw [hledger.answered_iff addr found hnumber] at hanswered
      exact hused hanswered
    reaped := by
      intro found result hmem
      exact (hstarted _).mpr (.inl (hledger.reaped found result hmem)) }

/-- The thread of a request that was answered is given up. -/
theorem Ledger.stop (hledger : s.Ledger used)
    (htask : (s.thread thread).task = some addr) (hused : addr ∈ used) :
    ({ s with
      thread := update s.thread thread ⟨none, .dead, 0⟩ } : RequestQueues A T).Ledger used :=
  { hledger with
    started_of_working := by
      intro other found number hfound hnumber
      simp only [update_apply] at hfound
      split at hfound
      · cases hfound
      · exact hledger.started_of_working other found number hfound hnumber
    working_of_started := by
      intro found number hnumber hstarted
      have hworking := hledger.working_of_started found number hnumber hstarted
      rw [exists_thread_iff thread (p := fun c => c.task = some found), htask] at hworking
      rw [exists_update_iff s.thread fun _ c => c.task = some found]
      rcases hworking with hmem | hthread | hother
      · exact .inl hmem
      · exact .inl (Option.some.inj hthread ▸ hused)
      · exact .inr (.inr hother) }

theorem Ledger.exit {result : ℕ} (hledger : s.Ledger used) :
    (s.threadExit thread result).Ledger used :=
  { hledger with
    started_of_working := by
      simp only [threadExit_task]
      exact hledger.started_of_working
    working_of_started := by
      simp only [threadExit_task]
      exact hledger.working_of_started }

end RequestQueues

end Soda.Storpu
