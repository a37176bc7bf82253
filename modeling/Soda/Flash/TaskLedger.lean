import Soda.Flash.DiePhases

/-!
# Where the tasks of a channel are

The tasks in the queues, those on the dies and those that were reported, each
as a multiset.  A call of the scheduler takes tasks from the queues to the
dies and does nothing else to them; `Flow` says this together with how far the
request counters run ahead of the queues, which is by the tasks that a call
still under way has taken.
-/

namespace Soda

open Function Multiset List ChannelData FilTask

/-- Two sums that differ in one place. -/
theorem sum_add_of_eq_except {ι κ M : Type} [DecidableEq ι] [DecidableEq κ]
    [AddCommMonoid M] {s : Finset ι} {t : Finset κ} (f f' : ι → κ → M)
    {i : ι} {j : κ} (hi : i ∈ s) (hj : j ∈ t) (hsame : ∀ x y, (x = i → y ≠ j) → f' x y = f x y) :
    ∑ x ∈ s, ∑ y ∈ t, f' x y + f i j = ∑ x ∈ s, ∑ y ∈ t, f x y + f' i j := by
  have hmem : (i, j) ∈ s ×ˢ t := Finset.mk_mem_product hi hj
  have hrest : ∑ x ∈ (s ×ˢ t).erase (i, j), f' x.1 x.2 =
      ∑ x ∈ (s ×ˢ t).erase (i, j), f x.1 x.2 := by
    apply Finset.sum_congr rfl
    rintro ⟨x, y⟩ hxy
    apply hsame
    rintro rfl rfl
    exact absurd rfl (Finset.ne_of_mem_erase hxy)
  rw [← Finset.sum_product' s t f', ← Finset.sum_product' s t f,
    ← Finset.add_sum_erase _ _ hmem, ← Finset.add_sum_erase _ _ hmem, hrest]
  abel

section Places

variable (g : Geometry)

variable (ch : ChannelData)

def queued : Multiset FilTask :=
  ∑ chip ∈ Finset.range g.chipsPerChannel, ∑ queue, (ch.queues chip queue : Multiset FilTask)

def active : Multiset FilTask :=
  ∑ chip ∈ Finset.range g.chipsPerChannel, ∑ die ∈ Finset.range g.diesPerChip,
      (((ch.chips chip).dies die).activeTxns : Multiset FilTask)

def completed : Multiset FilTask := (ch.reported.map Prod.fst : List FilTask)

def FilTask.isFor (chip : ℕ) (queue : TxnQueue) (die : ℕ) (txn : FilTask) : Bool :=
  txn.queue = some queue ∧ txn.chip = chip ∧ txn.die = die

/-- The tasks of a queue for one die: those dispatched, then those that still
wait, each in their order. -/
def lineup (chip : ℕ) (queue : TxnQueue) (die : ℕ) : List FilTask :=
  ch.dispatched.filter (isFor chip queue die) ++
    (ch.queues chip queue).filter fun txn => txn.die = die

/-- A task is taken from a list, the first one for its die. -/
inductive Taken (txn : FilTask) : List FilTask → List FilTask → Prop
  | here (txns : List FilTask) : Taken txn (txn :: txns) txns
  | later {first : FilTask} {txns rest : List FilTask} : first.die ≠ txn.die →
      Taken txn txns rest → Taken txn (first :: txns) (first :: rest)

/-- By how much the counter of a chip exceeds the length of its queues. -/
def ahead (chip : ℕ) : ℤ := ch.requestCount chip - ∑ queue, ((ch.queues chip queue).length : ℤ)

end Places

variable {g : Geometry} {ch ch' ch'' : ChannelData}

variable {txn : FilTask} {rest txns : List FilTask}

theorem Taken.perm (htaken : Taken txn txns rest) : (txns : Multiset FilTask) = txn ::ₘ rest := by
  induction htaken with
  | here txns => rfl
  | later _ _ ih => rw [← cons_coe, ih, cons_swap, cons_coe]

theorem Taken.filter (htaken : Taken txn txns rest)
    (die : ℕ) : (txns.filter fun other => other.die = die) =
      [txn].filter (fun other => other.die = die) ++ rest.filter fun other => other.die = die := by
  induction htaken with
  | here txns => exact filter_append [txn] txns
  | @later first txns rest hne _ ih =>
    by_cases hdie : first.die = die
    · have hother : txn.die ≠ die := fun heq => hne (hdie.trans heq.symm)
      simp [ih, hdie, hother]
    · simp [filter_cons, ih, hdie]

theorem card_queued (g : Geometry) (ch : ChannelData) : (queued g ch).card = queueLength g ch := by
  simp [queued, queueLength, card_sum]

theorem queued_setQueue (ch : ChannelData) {chip : ℕ}
    (hchip : chip < g.chipsPerChannel) (queue : TxnQueue) (txns : List FilTask) :
    queued g (ch.setQueue chip queue txns) + ch.queues chip queue = queued g ch + txns := by
  have hsum := sum_add_of_eq_except (fun chip queue => (ch.queues chip queue : Multiset FilTask))
    (fun other otherQueue =>
      ((ch.setQueue chip queue txns).queues other otherQueue :
        Multiset FilTask))
    (Finset.mem_range.mpr hchip) (Finset.mem_univ queue)
    (by
      intro other otherQueue hne
      rw [setQueue_apply, if_neg fun hboth => hne hboth.1 hboth.2])
  rw [setQueue_apply, if_pos ⟨rfl, rfl⟩] at hsum
  exact hsum

/-- Only the queue's own chip sees the change of its length. -/
theorem ahead_setQueue (chip : ℕ) (queue : TxnQueue) (txns : List FilTask) :
    ahead (ch.setQueue chip queue txns) = ahead ch + Pi.single chip
        ((ch.queues chip queue).length - txns.length : ℤ) := by
  funext other
  unfold ahead
  by_cases hother : other = chip
  · subst hother
    have hsum := sum_add_of_eq_except (fun (_ : Unit) queue => ((ch.queues other queue).length : ℤ))
      (fun _ otherQueue => (((ch.setQueue other queue txns).queues other otherQueue).length : ℤ))
      (Finset.mem_singleton_self ()) (Finset.mem_univ queue) (by
        intro _ otherQueue hne
        rw [setQueue_apply, if_neg fun hboth => hne rfl hboth.2])
    rw [setQueue_apply, if_pos ⟨rfl, rfl⟩, Finset.sum_singleton, Finset.sum_singleton] at hsum
    rw [Pi.add_apply, Pi.single_eq_same]
    have hcount : (ch.setQueue other queue txns).requestCount = ch.requestCount := rfl
    rw [hcount]
    linarith
  · rw [Pi.add_apply, Pi.single_eq_of_ne hother, add_zero]
    have hqueues : (ch.setQueue chip queue txns).queues other = ch.queues other := by
      funext otherQueue
      rw [setQueue_apply, if_neg fun hboth => hother hboth.1]
    rw [hqueues]
    rfl

/-- One die of one chip changes its transactions. -/
theorem active_setDie {chip die : ℕ} {dieData : DieData}
    (hchip : chip < g.chipsPerChannel) (hdie : die < g.diesPerChip)
    (hchange : DieChange chip die dieData ch ch') :
    active g ch' + ((ch.chips chip).dies die).activeTxns = active g ch + dieData.activeTxns := by
  have hsum := sum_add_of_eq_except (fun chip die =>
      (((ch.chips chip).dies die).activeTxns : Multiset FilTask))
    (fun chip die => (((ch'.chips chip).dies die).activeTxns : Multiset FilTask))
    (Finset.mem_range.mpr hchip) (Finset.mem_range.mpr hdie)
    (by
      intro other otherDie hne
      by_cases hother : other = chip
      · subst hother
        rw [hchange.dies, update_of_ne (hne rfl)]
      · rw [hchange.others other hother])
  rw [hchange.dies, update_self] at hsum
  exact hsum

section Lineup

variable {queue : TxnQueue} {txn : FilTask} {rest : List FilTask}

variable (hkey : txn.queue = some queue)
include hkey

theorem FilTask.filter_isFor (chip : ℕ) (other : TxnQueue)
    (die : ℕ) : [txn].filter (isFor chip other die) =
      if chip = txn.chip ∧ other = queue then [txn].filter fun txn => txn.die = die else [] := by
  by_cases hsame : chip = txn.chip ∧ other = queue
  · obtain ⟨rfl, rfl⟩ := hsame
    simp [isFor, hkey, filter_cons]
  · have hnot : txn.isFor chip other die = false := by
      simp only [isFor, hkey, decide_eq_false_iff_not]
      rintro ⟨hqueue, hchip, -⟩
      exact hsame ⟨hchip.symm, (Option.some.inj hqueue).symm⟩
    rw [if_neg hsame, List.filter_cons_of_neg (by rw [hnot]; exact Bool.false_ne_true)]
    rfl

/-- A task that is dispatched as the first of its queue for its die keeps its
place in the line. -/
theorem lineup_of_taken (htaken : Taken txn (ch.queues txn.chip queue) rest)
    (hqueues : ch'.queues = (ch.setQueue txn.chip queue rest).queues)
    (hdispatched : ch'.dispatched = ch.dispatched ++ [txn]) : lineup ch' = lineup ch := by
  funext chip other die
  rw [lineup, lineup, hdispatched, hqueues, filter_append, append_assoc, setQueue_apply]
  rw [filter_isFor hkey]
  split
  next hsame => rw [hsame.1, hsame.2, htaken.filter die]
  next => rfl

/-- A task that joins its queue is the last one in its line. -/
theorem lineup_enqueue (chip : ℕ) (other : TxnQueue) (die : ℕ) :
    lineup (ch.setQueue txn.chip queue (ch.queues txn.chip queue ++ [txn])) chip other die =
      lineup ch chip other die ++ [txn].filter (isFor chip other die) := by
  rw [lineup, lineup, filter_isFor hkey, setQueue_apply]
  split
  next hsame =>
    rw [hsame.1, hsame.2, filter_append, append_assoc]
    rfl
  next => rw [append_nil]; rfl

end Lineup

/-- A call moved the tasks `moved` from the queues to the dies, and left the
counters `taken` further ahead of the queues. -/
structure Flow (g : Geometry) (moved : Multiset FilTask) (taken : ℕ → ℤ)
    (ch ch' : ChannelData) : Prop where
  queued_eq : queued g ch = moved + queued g ch'
  active_eq : active g ch' = moved + active g ch
  dispatched_eq : (ch'.dispatched : Multiset FilTask) = moved + ch.dispatched
  reported_eq : ch'.reported = ch.reported
  ahead_eq : ahead ch' = ahead ch + taken
  lineup_eq : lineup ch' = lineup ch
  excess_eq : ∀ chip, (ch'.chips chip).excess g = (ch.chips chip).excess g

namespace Flow

variable {moved moved' : Multiset FilTask} {taken taken' : ℕ → ℤ}

theorem refl (g : Geometry) (ch : ChannelData) : Flow g 0 0 ch ch where
  queued_eq := (zero_add _).symm
  active_eq := (zero_add _).symm
  dispatched_eq := (zero_add _).symm
  reported_eq := rfl
  ahead_eq := (add_zero _).symm
  lineup_eq := rfl
  excess_eq _ := rfl

theorem trans (hfirst : Flow g moved taken ch ch') (hsecond : Flow g moved' taken' ch' ch'') :
    Flow g (moved + moved') (taken + taken') ch ch'' where
  queued_eq := by rw [hfirst.queued_eq, hsecond.queued_eq, add_assoc]
  active_eq := by
    rw [hsecond.active_eq, hfirst.active_eq, add_left_comm, add_assoc]
  dispatched_eq := by
    rw [hsecond.dispatched_eq, hfirst.dispatched_eq, add_left_comm, add_assoc]
  reported_eq := hsecond.reported_eq.trans hfirst.reported_eq
  ahead_eq := by rw [hsecond.ahead_eq, hfirst.ahead_eq, add_assoc]
  lineup_eq := hsecond.lineup_eq.trans hfirst.lineup_eq
  excess_eq chip := (hsecond.excess_eq chip).trans (hfirst.excess_eq chip)

/-- A task goes from a queue of its chip to its die, which is idle. -/
theorem dispatch {channel : ℕ} {queue : TxnQueue}
    {dieData : DieData} (hon : txn.On g channel txn.chip txn.die) (hkey : txn.queue = some queue)
    (htaken : Taken txn (ch.queues txn.chip queue) rest)
    (hidle : (ch.chips txn.chip).dies txn.die = DiePhase.idle.data)
    (htxns : dieData.activeTxns = [txn]) (hreads : dieData.readsOut = false)
    (hchange : DieChange txn.chip txn.die dieData ch ch')
    (hwaits : (ch'.chips txn.chip).nrWaitingReadXfers = (ch.chips txn.chip).nrWaitingReadXfers)
    (hqueues : ch'.queues = (ch.setQueue txn.chip queue rest).queues)
    (hcount : ch'.requestCount = ch.requestCount)
    (hdispatched : ch'.dispatched = ch.dispatched ++ [txn])
    (hreported : ch'.reported = ch.reported) : Flow g {txn} (Pi.single txn.chip 1) ch ch' where
  queued_eq := by
    have hset := queued_setQueue ch hon.chip_lt queue rest
    have hsame : queued g ch' = queued g (ch.setQueue txn.chip queue rest) := by
      unfold queued
      rw [hqueues]
    rw [hsame]
    apply add_right_cancel (b := (rest : Multiset FilTask))
    rw [← hset, htaken.perm, ← singleton_add]
    abel
  active_eq := by
    have hset := active_setDie hon.chip_lt hon.die_lt hchange
    rw [hidle, htxns, DiePhase.data, coe_nil, add_zero] at hset
    rw [hset, coe_singleton, add_comm]
  dispatched_eq := by
    rw [hdispatched, ← coe_add, coe_singleton, add_comm]
  reported_eq := hreported
  ahead_eq := by
    have hlength : ((ch.queues txn.chip queue).length : ℤ) = rest.length + 1 := by
      have hcard := congrArg card htaken.perm
      rw [card_cons, coe_card, coe_card] at hcard
      exact_mod_cast hcard
    have hsame : ahead ch' = ahead (ch.setQueue txn.chip queue rest) := by
      unfold ahead
      rw [hqueues, hcount]
      rfl
    rw [hsame, ahead_setQueue, hlength, add_sub_cancel_left]
  lineup_eq := lineup_of_taken hkey htaken hqueues hdispatched
  excess_eq chip := by
    by_cases hchip : chip = txn.chip
    · rw [hchip, ← BitVec.add_zero ((ch.chips txn.chip).excess g)]
      apply ChipData.excess_of_change hon.die_lt hchange.dies
      rw [hwaits, hidle, hreads, BitVec.add_zero]
      rfl
    · rw [hchange.others chip hchip]

/-- The counter of a chip changes. -/
theorem addRequests (g : Geometry) (ch : ChannelData) (chip : ℕ) (count : ℤ) :
    Flow g 0 (Pi.single chip count) ch (ch.addRequests chip count) where
  queued_eq := (zero_add _).symm
  active_eq := (zero_add _).symm
  dispatched_eq := (zero_add _).symm
  reported_eq := rfl
  ahead_eq := by
    funext other
    simp only [ahead, ChannelData.addRequests, Pi.add_apply]
    by_cases hother : other = chip
    · subst hother
      rw [update_self, Pi.single_eq_same]
      ring
    · rw [update_of_ne hother, Pi.single_eq_of_ne hother, add_zero]
  lineup_eq := rfl
  excess_eq _ := rfl

theorem queueLength_eq (hflow : Flow g moved taken ch ch') :
    queueLength g ch = moved.card + queueLength g ch' := by
  rw [← card_queued, ← card_queued, hflow.queued_eq, card_add]

end Flow

end Soda
