import Soda.HostIf.DmaRead
import Soda.Core.Counts

/-!
# The request table under its program

The entries of a batch belong to one thread until it gives them back, and its
counter is the number of those that have not completed.  `DmaRules` says what
an invariant of the table has to keep for the reads of all threads to keep it.
The program is followed once, for every such invariant.
-/

namespace Soda

open Function Prog Option List Prod

namespace DmaState

def owner (s : DmaState) (tag : ℕ) : Option Tid := (s.rqQueue tag).map RqEntry.thread

/-- The thread has an entry for this request, issued as said. -/
def Holds (s : DmaState) (self : Tid) (buf : RqBuffer) (issue : Option ℕ) : Prop :=
  ∃ entry, s.rqQueue buf.tag = some entry ∧ entry.thread = self ∧
    entry.issue = issue ∧ entry.rxCount = buf.byteCount

def incomplete (s : DmaState) (tag : ℕ) : Bool :=
  match s.rqQueue tag with
  | some entry => !entry.completed
  | none => false

structure Table (s : DmaState) : Prop where
  unsent : ∀ tag entry, s.rqQueue tag = some entry →
    tag ∉ s.batch entry.thread → entry.completed = false ∧ entry.issue = none
  owned : ∀ self, ∀ tag ∈ s.batch self, s.owner tag = some self
  nodup : ∀ self, (s.batch self).Nodup
  pending : ∀ self, s.batch self ≠ [] → s.pendingRcs self = (s.batch self).countP s.incomplete

/-- What the others leave alone: the thread's entries, up to completion, and
its batch. -/
structure Rely (tid : Tid) (s s' : DmaState) : Prop where
  entries : ∀ tag entry, s.rqQueue tag = some entry → entry.thread = tid →
    ∃ done, s'.rqQueue tag = some { entry with completed := done } ∧
      (entry.completed = true → done = true)
  mine : ∀ tag, s'.owner tag = some tid → s.owner tag = some tid
  batch : s'.batch tid = s.batch tid
  results : s.results ⊆ s'.results

variable {self : Tid} {s s' : DmaState}

/-- The entries that are or become the thread's are as before. -/
theorem Rely.of_frame (hqueue : ∀ tag, s.owner tag = some self ∨ s'.owner tag = some self →
      s'.rqQueue tag = s.rqQueue tag) (hbatch : s'.batch self = s.batch self)
    (hresults : s.results ⊆ s'.results) : Rely self s s' where
  entries := by
    intro tag entry hentry hthread
    have howner : s.owner tag = some self := by
      rw [owner, hentry, map_some, hthread]
    exact ⟨entry.completed, (hqueue tag (.inl howner)).trans hentry, id⟩
  mine := by
    intro tag hmine
    rwa [owner, hqueue tag (.inr hmine)] at hmine
  batch := hbatch
  results := hresults

theorem Rely.refl (self : Tid) (s : DmaState) : Rely self s s :=
  of_frame (fun _ _ => rfl) rfl (List.Subset.refl _)

theorem Rely.trans {s'' : DmaState} (hfirst : Rely self s s')
    (hsecond : Rely self s' s'') : Rely self s s'' where
  entries := by
    intro tag entry hentry hthread
    obtain ⟨done, hentry', hdone⟩ := hfirst.entries tag entry hentry hthread
    obtain ⟨done', hentry'', hdone'⟩ := hsecond.entries tag _ hentry' hthread
    exact ⟨done', hentry'', fun hcompleted => hdone' (hdone hcompleted)⟩
  mine := fun tag hmine => hfirst.mine tag (hsecond.mine tag hmine)
  batch := hsecond.batch.trans hfirst.batch
  results := List.Subset.trans hfirst.results hsecond.results

variable {buf : RqBuffer} {issue : Option ℕ}

theorem Holds.rely
    (hholds : s.Holds self buf issue) (hrely : Rely self s s') : s'.Holds self buf issue := by
  obtain ⟨entry, hentry, hthread, hrest⟩ := hholds
  obtain ⟨done, hentry', _⟩ := hrely.entries buf.tag entry hentry hthread
  exact ⟨_, hentry', hthread, hrest⟩

theorem Holds.owner_eq (hholds : s.Holds self buf issue) : s.owner buf.tag = some self := by
  obtain ⟨entry, hentry, hthread, _⟩ := hholds
  rw [owner, hentry, map_some, hthread]

theorem incomplete_congr {tag : ℕ} (hsame : s'.rqQueue tag = s.rqQueue tag) :
    s'.incomplete tag = s.incomplete tag := by
  rw [incomplete, incomplete, hsame]

theorem countP_incomplete_congr {tags : List ℕ}
    (hsame : ∀ tag ∈ tags, s'.rqQueue tag = s.rqQueue tag) :
    tags.countP s.incomplete = tags.countP s'.incomplete := by
  apply countP_congr
  intro tag htag
  rw [incomplete_congr (hsame tag htag)]

end DmaState

/-- One element of a list without repetitions stops counting. -/
theorem countP_of_flip {p q : ℕ → Bool} {tags : List ℕ} {tag : ℕ}
    (hnodup : tags.Nodup) (hmem : tag ∈ tags) (hp : p tag = true)
    (hq : q tag = false) (hsame : ∀ other ≠ tag, q other = p other) :
    tags.countP p = tags.countP q + 1 := by
  induction tags with
  | nil => exact absurd hmem not_mem_nil
  | cons head tags ih =>
    rw [nodup_cons] at hnodup
    rw [countP_cons, countP_cons]
    by_cases hhead : head = tag
    · subst hhead
      have hrest : tags.countP q = tags.countP p := by
        apply countP_congr
        intro other hother
        rw [hsame other (fun heq => hnodup.1 (heq ▸ hother))]
      rw [hp, hq, hrest]
      simp
    · have hmem' : tag ∈ tags := by
        simpa [Ne.symm hhead] using hmem
      rw [ih hnodup.2 hmem', hsame head hhead]
      omega

/-- What is to be shown of a table with one new entry. -/
theorem forall_update_some {V : Type} {table : ℕ → Option V} {tag : ℕ}
    {new : V} {p : ℕ → V → Prop} (hnew : p tag new)
    (hold : ∀ other, other ≠ tag → ∀ value, table other = some value → p other value) :
    ∀ other value, update table tag (some new) other = some value → p other value := by
  intro other value hvalue
  by_cases heq : other = tag
  · subst heq
    rw [update_self, some.injEq] at hvalue
    exact hvalue ▸ hnew
  · rw [update_of_ne heq] at hvalue
    exact hold other heq value hvalue

namespace DmaState

variable {s s' : DmaState} {self : Tid} {buf : RqBuffer} {tag : ℕ} {entry : RqEntry}
  {bufs : List RqBuffer} {issue : Option ℕ}

/-! ### Completions -/

def callback (tag : ℕ) (entry : RqEntry) (error : Bool) (s : DmaState) : DmaState :=
  { s with
    rxfifoAvail := s.rxfifoAvail + entry.rxCount
    rcError := update s.rcError entry.thread error
    rqQueue := update s.rqQueue tag (some { entry with completed := true })
    pendingRcs := update s.pendingRcs entry.thread (s.pendingRcs entry.thread - 1)
    failed := update s.failed entry.thread (s.failed entry.thread || error) }

/-- The engine is done with a command, whether that counts or not. -/
def took (event : RxCompletion) (s : DmaState) : DmaState :=
  { s with
    sent := s.sent.erase (event.tag, event.issue)
    results := (event.issue, event.error) :: s.results }

theorem complete_eq_callback {event : RxCompletion} (hentry : s.rqQueue event.tag = some entry)
    (hcompleted : entry.completed = false) :
    s.complete event = (s.took event).callback event.tag entry event.error := by
  simp only [DmaState.complete, rxDmaCallback, hentry, hcompleted,
    Bool.false_eq_true, if_false, callback, took]

theorem owner_eq_some (hentry : s.rqQueue tag = some entry) : s.owner tag = some entry.thread := by
  rw [owner, hentry, map_some]

theorem owner_of_update {value : Option RqEntry}
    (hqueue : s'.rqQueue = update s.rqQueue tag value) :
    s'.owner = update s.owner tag (value.map RqEntry.thread) := by
  funext other
  rw [owner, hqueue]
  by_cases hother : other = tag
  · subst hother
    rw [update_self, update_self]
  · rw [update_of_ne hother, update_of_ne hother, owner]

theorem owner_callback {error : Bool} (hentry : s.rqQueue tag = some entry) :
    (s.callback tag entry error).owner = s.owner := by
  rw [owner_of_update rfl, update_eq_self_iff, owner_eq_some hentry]
  rfl

theorem Table.mem_batch (htable : s.Table) (hentry : s.rqQueue tag = some entry)
    (hissue : entry.issue ≠ none) : tag ∈ s.batch entry.thread := by
  by_contra hnot
  exact hissue (htable.unsent tag entry hentry hnot).2

/-- The counter before and after a completion that counts. -/
theorem Table.pending_callback (error : Bool) (htable : s.Table)
    (hentry : s.rqQueue tag = some entry) (hcompleted : entry.completed = false)
    (hissue : entry.issue ≠ none) :
    s.pendingRcs entry.thread = (s.batch entry.thread).countP
      (s.callback tag entry error).incomplete + 1 := by
  have hmem := htable.mem_batch hentry hissue
  rw [htable.pending _ (ne_nil_of_mem hmem)]
  apply countP_of_flip (htable.nodup _) hmem
  · simp [incomplete, hentry, hcompleted]
  · simp [callback, incomplete]
  · intro other hother
    exact incomplete_congr (update_of_ne hother _ _)

theorem Table.callback {error : Bool} (htable : s.Table)
    (hentry : s.rqQueue tag = some entry) (hcompleted : entry.completed = false)
    (hissue : entry.issue ≠ none) : (s.callback tag entry error).Table where
  unsent := by
    apply forall_update_some
    · intro hnot
      exact absurd (htable.mem_batch hentry hissue) hnot
    · intro other _ found hfound
      exact htable.unsent other found hfound
  owned := by
    rw [owner_callback hentry]
    exact htable.owned
  nodup := htable.nodup
  pending := by
    intro thread hthread
    by_cases heq : thread = entry.thread
    · subst heq
      exact (update_self _ _ _).trans (Nat.sub_eq_of_eq_add
        (htable.pending_callback error hentry hcompleted hissue))
    · refine (update_of_ne heq _ _).trans ?_
      rw [htable.pending thread hthread]
      apply countP_incomplete_congr
      intro other hother
      apply update_of_ne
      rintro rfl
      have howner := htable.owned thread other hother
      rw [owner_eq_some hentry] at howner
      exact heq (some.inj howner).symm

theorem rely_complete (self : Tid) (s : DmaState) (event : RxCompletion) :
    Rely self s (s.complete event) := by
  rw [DmaState.complete, rxDmaCallback]
  split
  · exact .of_frame (fun _ _ => rfl) rfl (subset_cons_self _ _)
  · next entry hentry =>
    split
    · exact .of_frame (fun _ _ => rfl) rfl (subset_cons_self _ _)
    · refine ⟨?_, ?_, rfl, subset_cons_self _ _⟩
      · intro tag mine hmine hthread
        by_cases htag : tag = event.tag
        · subst htag
          obtain rfl : entry = mine := some.inj (hentry.symm.trans hmine)
          exact ⟨true, update_self _ _ _, fun _ => rfl⟩
        · refine ⟨mine.completed, ?_, id⟩
          exact (update_of_ne htag _ _).trans hmine
      · intro tag hmine
        exact (congrFun (owner_callback hentry) tag).symm.trans hmine

/-! ### Requests -/

variable {rxCount : ℕ} {other : Tid} {tags : List ℕ}

theorem owner_setup {buf : ℕ} (other : ℕ) (hother : other ≠ tag) :
    (s.setup self tag buf rxCount).owner other = s.owner other := by
  rw [owner_of_update rfl, update_of_ne hother]

structure Collected (s : DmaState) (tid : Tid) (bufs : List RqBuffer) : Prop where
  batch : s.batch tid = []
  nodup : (bufs.map RqBuffer.tag).Nodup
  holds : ∀ buf ∈ bufs, s.Holds tid buf none

theorem rqQueue_send (hentry : s.rqQueue buf.tag = some entry) :
    (s.send buf).rqQueue = update s.rqQueue buf.tag
      (some { entry with issue := some s.issues }) := by
  rw [send, hentry]
  rfl

theorem owner_send (buf : RqBuffer) : (s.send buf).owner = s.owner := by
  rw [owner_of_update rfl, update_eq_self_iff, owner, Option.map_map]
  rfl

/-- The table after `complete_all_rqs`. -/
structure Freed (tid : Tid) (tags : List ℕ) (s s' : DmaState) : Prop where
  free : ∀ tag ∈ tags, s'.rqQueue tag = none
  other : ∀ tag, tag ∉ tags → s'.rqQueue tag = s.rqQueue tag
  mine : ∀ tag ∈ tags, s.owner tag = some tid
  batch : s'.batch = update s.batch tid []
  inUsed : s'.rqesInUsed + tags.length = s.rqesInUsed
  kept : s' = { s with
    rqQueue := s'.rqQueue, rqesInUsed := s'.rqesInUsed, batch := s'.batch }

def Sent (s : DmaState) (self : Tid) (bufs : List RqBuffer) (issued : List ℕ) : Prop :=
  List.Forall₂ (fun buf issue => s.Holds self buf (some issue)) bufs issued

def Quiet (s : DmaState) (self : Tid) : Prop := ∀ tag ∈ s.batch self, s.incomplete tag = false

variable (htable : s.Table)
include htable

theorem Table.setup {buf : ℕ} (hfree : s.rqQueue tag = none) :
    (s.setup self tag buf rxCount).Table := by
  have hother : ∀ thread, ∀ other ∈ s.batch thread, other ≠ tag := by
    intro thread other hmem heq
    have howner := htable.owned thread other hmem
    rw [heq, owner, hfree] at howner
    exact absurd howner (by simp)
  constructor
  · apply forall_update_some
    · exact fun _ => ⟨rfl, rfl⟩
    · intro other _ entry hentry
      exact htable.unsent other entry hentry
  · intro thread other hmem
    rw [owner_setup other (hother thread other hmem)]
    exact htable.owned thread other hmem
  · exact htable.nodup
  · intro thread hthread
    apply (htable.pending thread hthread).trans
    apply countP_incomplete_congr
    intro other hmem
    exact update_of_ne (hother thread other hmem) _ _

/-- Before a batch is sent no entry of its thread has completed. -/
theorem Table.unsent_of_batch (hbatch : s.batch self = [])
    (hentry : s.rqQueue tag = some entry) (hthread : entry.thread = self) :
    entry.completed = false ∧ entry.issue = none := by
  apply htable.unsent tag entry hentry
  rw [hthread, hbatch]
  exact not_mem_nil

/-- One thread gets another batch, and the entries in the other batches stay. -/
theorem Table.rebatch (hbatch : s'.batch = update s.batch self tags)
    (hold : ∀ tag entry, s'.rqQueue tag = some entry →
      s.rqQueue tag = some entry ∧ (entry.thread = self → tag ∉ s.batch self))
    (hothers : ∀ thread, thread ≠ self → s'.pendingRcs thread = s.pendingRcs thread ∧
      ∀ tag ∈ s.batch thread, s'.rqQueue tag = s.rqQueue tag)
    (howned : ∀ tag ∈ tags, s'.owner tag = some self) (hnodup : tags.Nodup)
    (hpending : tags ≠ [] → s'.pendingRcs self = tags.countP s'.incomplete) : s'.Table := by
  constructor
  · intro tag entry hentry hnot
    obtain ⟨hwas, hself⟩ := hold tag entry hentry
    apply htable.unsent tag entry hwas
    by_cases hthread : entry.thread = self
    · rw [hthread]
      exact hself hthread
    · rwa [hbatch, update_of_ne hthread] at hnot
  all_goals
    intro thread
    rw [hbatch]
    by_cases hthread : thread = self
  · rwa [hthread, update_self]
  · rw [update_of_ne hthread]
    intro tag hmem
    rw [owner, (hothers thread hthread).2 tag hmem]
    exact htable.owned thread tag hmem
  · rwa [hthread, update_self]
  · rw [update_of_ne hthread]
    exact htable.nodup thread
  · rwa [hthread, update_self]
  · rw [update_of_ne hthread, (hothers thread hthread).1]
    intro hne
    exact (htable.pending thread hne).trans (countP_incomplete_congr (hothers thread hthread).2)

theorem Table.begin (hcollected : s.Collected self bufs) :
    (s.begin self (bufs.map RqBuffer.tag)).Table := by
  refine htable.rebatch rfl ?_ ?_ ?_ hcollected.nodup ?_
  · intro tag entry hentry
    rw [hcollected.batch]
    exact ⟨hentry, fun _ => not_mem_nil⟩
  · exact fun thread hthread => ⟨update_of_ne hthread _ _, fun _ _ => rfl⟩
  · intro tag hmem
    obtain ⟨buf, hbuf, rfl⟩ := List.mem_map.mp hmem
    exact (hcollected.holds buf hbuf).owner_eq
  · intro _
    simp only [DmaState.begin, update_self]
    symm
    rw [countP_eq_length]
    intro tag hmem
    obtain ⟨buf, hbuf, rfl⟩ := List.mem_map.mp hmem
    obtain ⟨entry, hentry, howner, _⟩ := hcollected.holds buf hbuf
    have hcompleted := (htable.unsent_of_batch hcollected.batch hentry howner).1
    simp [incomplete, hentry, hcompleted]

theorem Table.send (hbatch : buf.tag ∈ s.batch self)
    (hholds : s.Holds self buf none) : (s.send buf).Table := by
  obtain ⟨entry, hentry, howner, _⟩ := hholds
  constructor
  · rw [rqQueue_send hentry]
    apply forall_update_some
    · intro hnot
      exact absurd (howner.symm ▸ hbatch) hnot
    · intro other _ found hfound
      exact htable.unsent other found hfound
  · rw [owner_send]
    exact htable.owned
  · exact htable.nodup
  · intro thread hne
    apply (htable.pending thread hne).trans
    apply countP_congr
    intro tag _
    rw [incomplete, incomplete, rqQueue_send hentry]
    by_cases htag : tag = buf.tag
    · subst htag
      rw [update_self, hentry]
    · rw [update_of_ne htag]

theorem Table.quiet (hne : s.batch self ≠ []) (hzero : s.pendingRcs self = 0) : s.Quiet self := by
  rw [htable.pending self hne, countP_eq_zero] at hzero
  intro tag hmem
  simpa using hzero tag hmem

omit htable

/-- A free entry is nobody's. -/
theorem rely_setup {buf : ℕ} (hother : other ≠ self) (hfree : s.rqQueue tag = none) :
    Rely other s (s.setup self tag buf rxCount) := by
  refine .of_frame ?_ rfl (List.Subset.refl _)
  intro place howner
  apply update_of_ne
  rintro rfl
  cases howner with
  | inl hold => simp [owner, hfree] at hold
  | inr hnew =>
    rw [owner_of_update rfl, update_self] at hnew
    exact hother (some.inj hnew).symm

theorem rely_begin (hother : other ≠ self) : Rely other s (s.begin self tags) :=
  .of_frame (fun _ _ => rfl) (update_of_ne hother _ _) (List.Subset.refl _)

theorem rely_send (hother : other ≠ self) (howner : s.owner buf.tag = some self) :
    Rely other s (s.send buf) := by
  refine .of_frame ?_ rfl (List.Subset.refl _)
  intro tag hmine
  rw [owner_send, or_self_iff] at hmine
  apply update_of_ne
  rintro rfl
  exact hother (some.inj (hmine.symm.trans howner))

theorem Holds.send (hholds : s.Holds self buf issue) :
    (s.send buf).Holds self buf (some s.issues) := by
  obtain ⟨entry, hentry, howner, _, hcount⟩ := hholds
  refine ⟨{ entry with issue := some s.issues }, ?_, howner, rfl, hcount⟩
  rw [rqQueue_send hentry, update_self]

theorem Holds.send_of_ne {other : RqBuffer} (hholds : s.Holds self other issue)
    (htag : other.tag ≠ buf.tag) : (s.send buf).Holds self other issue := by
  obtain ⟨entry, hentry, hrest⟩ := hholds
  exact ⟨entry, (update_of_ne htag _ _).trans hentry, hrest⟩

variable (hfreed : Freed self tags s s')
include hfreed

/-- What is left was there before, and not among the entries given back. -/
theorem Freed.was (hentry : s'.rqQueue tag = some entry) :
    tag ∉ tags ∧ s.rqQueue tag = some entry := by
  have hnot : tag ∉ tags := by
    intro hmem
    rw [hfreed.free tag hmem] at hentry
    exact absurd hentry (by simp)
  exact ⟨hnot, hfreed.other tag hnot ▸ hentry⟩

theorem Freed.was_mine {thread : Tid}
    (hmine : s'.owner tag = some thread) : s.owner tag = some thread ∧ tag ∉ tags := by
  rw [owner, map_eq_some_iff] at hmine
  obtain ⟨entry, hentry, hthread⟩ := hmine
  obtain ⟨hnot, hold⟩ := hfreed.was hentry
  rw [owner_eq_some hold, hthread]
  exact ⟨rfl, hnot⟩

/-- The batches of other threads have no entry in common with this one. -/
theorem Freed.apart {thread : Tid}
    (hthread : thread ≠ self) (howner : s.owner tag = some thread) : tag ∉ tags := by
  intro hmem
  rw [hfreed.mine tag hmem, some.injEq] at howner
  exact hthread howner.symm

theorem Freed.rely (hother : other ≠ self) : Rely other s s' := by
  apply Rely.of_frame
  · intro tag howner
    apply hfreed.other tag
    cases howner with
    | inl hold => exact hfreed.apart hother hold
    | inr hnew => exact (hfreed.was_mine hnew).2
  · rw [hfreed.batch, update_of_ne hother]
  · rw [hfreed.kept]
    exact List.Subset.refl _

omit hfreed

theorem Table.freed (htable : s.Table) (hfreed : Freed self (s.batch self) s s') : s'.Table := by
  refine htable.rebatch hfreed.batch ?_ ?_ (by simp) nodup_nil (fun hne => absurd rfl hne)
  · intro tag entry hentry
    obtain ⟨hfree, hold⟩ := hfreed.was hentry
    exact ⟨hold, fun _ => hfree⟩
  · intro thread hthread
    refine ⟨by rw [hfreed.kept], fun tag hmem => ?_⟩
    exact hfreed.other tag (hfreed.apart hthread (htable.owned thread tag hmem))

theorem Sent.rely {issued : List ℕ} (hsent : s.Sent self bufs issued)
    (hrely : Rely self s s') : s'.Sent self bufs issued :=
  hsent.imp fun _ _ hholds => hholds.rely hrely

theorem Quiet.rely (hquiet : s.Quiet self) (htable : s.Table)
    (hrely : Rely self s s') : s'.Quiet self := by
  intro tag hmem
  rw [hrely.batch] at hmem
  have howner := htable.owned self tag hmem
  rw [owner, map_eq_some_iff] at howner
  obtain ⟨entry, hentry, hthread⟩ := howner
  have hcompleted : entry.completed = true := by
    have hnot := hquiet tag hmem
    rw [incomplete, hentry] at hnot
    simpa using hnot
  obtain ⟨done, hentry', hdone⟩ := hrely.entries tag entry hentry hthread
  rw [incomplete, hentry']
  simp [hdone hcompleted]

end DmaState

/-! ### The program -/

open Contract (rgWp_assert rgWp_bind rgWp_get rgWp_ite rgWp_modify rgWp_mono rgWp_pure)
open DmaState (Freed Holds Rely owner_eq_some owner_send owner_setup rely_begin rely_send
  rely_setup)

/-- How a batch ended, in the state in which its entries are given back. -/
structure BatchEnd (c : Contract dmaMachine) (tid : Tid) (bufs : List RqBuffer)
    (issued : List ℕ) (code : Option IoErrno) (s : DmaState) : Prop where
  inv : c.inv s
  allowed : ∃ choice, c.allows tid .irq s choice
  ne_nil : s.batch tid ≠ []
  batch : s.batch tid = bufs.map RqBuffer.tag
  sent : s.Sent tid bufs issued
  succeeds : code = none → s.rcError tid = false ∧ s.Quiet tid
  fails : code ≠ none → s.rcError tid = true ∨
    ∃ early, c.allows tid .cpl early true ∧ Rely tid early s

/-- What the program needs of a contract.  `good` is what is known of the
commands of batches that succeeded, and `base` are the entries a thread may
have outside its reads. -/
structure DmaRules (c : Contract dmaMachine) (good : List ℕ → DmaState → Prop)
    (base : Set ℕ) : Prop where
  stay : ∀ tid wait s, c.stay tid wait s
  rely : ∀ tid s s', c.rely tid s s' ↔ Rely tid s s'
  table : ∀ s, c.inv s → s.Table
  setup : ∀ s tid tag buf rxCount, c.inv s → s.batch tid = [] →
    tag < tagMax → s.rqQueue tag = none → c.inv (s.setup tid tag buf rxCount)
  begin : ∀ s tid bufs, c.inv s → s.Collected tid bufs → c.inv (s.begin tid (bufs.map RqBuffer.tag))
  send : ∀ s tid buf, c.inv s → buf.tag ∈ s.batch tid →
    s.Holds tid buf none → buf.byteCount ≤ s.rxfifoAvail → c.inv (s.send buf)
  freed : ∀ s tid s' choice, c.inv s → c.allows tid .irq s choice →
    Freed tid (s.batch tid) s s' → c.inv s'
  record : ∀ s ret, c.inv s → (ret.code = none → good ret.issued s) →
    c.inv { s with returns := ret :: s.returns }
  nil : ∀ s, good [] s
  append : ∀ s issued more, good issued s → good more s → good (issued ++ more) s
  kept : ∀ s s' issued, good issued s → s.results ⊆ s'.results → good issued s'
  success : ∀ tid bufs issued s, BatchEnd c tid bufs issued none s → good issued s
  failure : ∀ tid bufs issued code s, BatchEnd c tid bufs issued code s →
    code ≠ none → ∀ tag, s.owner tag = some tid → tag ∈ base ∨ tag ∈ s.batch tid
  done : ∀ s tid, (∀ tag, s.owner tag = some tid → tag ∈ base) → c.done tid s

section Program

variable {c : Contract dmaMachine} {good : List ℕ → DmaState → Prop} {base : Set ℕ} {self : Tid}
  {start s : DmaState} {bufs : List RqBuffer} {issued : List ℕ}

/-- The entries of a thread, those of earlier reads apart. -/
def Within (base : Set ℕ) (self : Tid) (tags : List ℕ) (s : DmaState) : Prop :=
  ∀ tag, s.owner tag = some self → tag ∈ base ∨ tag ∈ tags

variable {s' : DmaState}

theorem Within.rely {tags : List ℕ} (hwithin : Within base self tags s)
    (hrely : Rely self s s') : Within base self tags s' :=
  fun tag hmine => hwithin tag (hrely.mine tag hmine)

theorem answer_cpl {choice answer : Bool}
    (hanswer : dmaMachine.answer self .cpl s choice = some (answer, s')) :
    answer = true ∧ choice = true ∨ answer = false ∧ s.pendingRcs self = 0 := by
  simp only [dmaMachine] at hanswer
  split at hanswer
  · next hchoice =>
    obtain ⟨rfl, rfl⟩ := mk.inj (some.inj hanswer)
    exact .inl ⟨rfl, hchoice⟩
  · obtain ⟨hzero, hsome⟩ := ite_none_right_eq_some.mp hanswer
    obtain ⟨rfl, rfl⟩ := mk.inj (some.inj hsome)
    exact .inr ⟨rfl, hzero⟩

theorem answer_same {wait : DmaWait} {choice answer : Bool}
    (hanswer : dmaMachine.answer self wait s choice = some (answer, s')) : s' = s := by
  cases wait with
  | irq =>
    simp only [dmaMachine, some.injEq, mk.injEq] at hanswer
    exact hanswer.2.symm
  | rqQueue | rxfifo bytes =>
    have hsome := (ite_none_right_eq_some.mp hanswer).2
    exact (mk.inj (some.inj hsome)).2.symm
  | cpl =>
    simp only [dmaMachine] at hanswer
    split at hanswer
    · exact (mk.inj (some.inj hanswer)).2.symm
    · have hsome := (ite_none_right_eq_some.mp hanswer).2
      exact (mk.inj (some.inj hsome)).2.symm

namespace DmaRules

variable (hc : DmaRules c good base)
include hc

/-- A step of the thread that the others do not notice. -/
theorem keeps (hkeeps : c.Keeps self start s) (hinv : c.inv s')
    (hrely : ∀ other, other ≠ self → Rely other s s') : c.Keeps self start s' :=
  hkeeps.trans ⟨hinv, fun other hother => (hc.rely other s s').mpr (hrely other hother)⟩

/-- No wait of this program changes the state by itself. -/
theorem rgWp_await {wait : DmaWait} {post : DmaState → Bool → DmaState → Prop}
    (hkeeps : c.Keeps self start s) (hpost : ∀ middle choice answer, c.Keeps self middle middle →
      Rely self s middle → c.allows self wait middle choice →
      dmaMachine.answer self wait middle choice = some (answer, middle) →
      post middle answer middle) : c.rgWp self (await wait : DmaM Bool) post start s := by
  refine ⟨hkeeps, hc.stay self wait s, ?_⟩
  intro middle choice answer resumed hrely hinv hallows hanswer
  obtain rfl := answer_same hanswer
  exact hpost _ choice answer (.refl hinv) ((hc.rely self s _).mp hrely) hallows hanswer

/-- What `setup_rq` leaves behind when called in `before`. -/
structure SetUp (c : Contract dmaMachine) (tid : Tid) (rxCount : ℕ)
    (before start : DmaState) (tag : Option ℕ) (s : DmaState) : Prop where
  keeps : c.Keeps tid start s
  holds : ∀ buf issue, before.Holds tid buf issue → s.Holds tid buf issue ∧ tag ≠ some buf.tag
  new : ∀ place addr, tag = some place → s.Holds tid ⟨place, addr, rxCount⟩ none
  mine : ∀ place, s.owner place = some tid → before.owner place = some tid ∨ tag = some place
  batch : s.batch tid = before.batch tid
  results : before.results ⊆ s.results

omit hc in
theorem freeTag_spec {tag : ℕ} (htag : s.freeTag = some tag) :
    tag < tagMax ∧ s.rqQueue tag = none := by
  have hmem := mem_of_find?_eq_some htag
  have hfound := find?_some htag
  exact ⟨mem_range.mp hmem, by simpa using hfound⟩

variable {buf rxCount : ℕ} {force : Bool} {new : RqBuffer}

theorem rgWp_fillTag {middle : DmaState}
    (hkeeps : c.Keeps self start middle) (hbatch : s.batch self = []) (hrely : Rely self s middle) :
    c.rgWp self (match middle.freeTag with
        | some tag => do
            modify (.setup self tag buf rxCount)
            pure (some tag)
        | none => do
            assert .assertion (!force)
            pure none : DmaM (Option ℕ))
      (SetUp c self rxCount s) start middle := by
  split
  · next tag htag =>
    obtain ⟨hlt, hfree⟩ := freeTag_spec htag
    constructor
    · apply hc.keeps hkeeps
      · exact hc.setup middle self tag buf rxCount hkeeps.1 (hrely.batch.trans hbatch) hlt hfree
      · exact fun other hother => rely_setup hother hfree
    · intro held issue hholds
      obtain ⟨entry, hentry, hrest⟩ := hholds.rely hrely
      have hne : held.tag ≠ tag := by
        intro heq
        rw [heq, hfree] at hentry
        exact absurd hentry (by simp)
      refine ⟨⟨entry, (update_of_ne hne _ _).trans hentry, hrest⟩, ?_⟩
      exact fun heq => hne (some.inj heq).symm
    · intro place addr hplace
      cases hplace
      exact ⟨_, update_self _ _ _, rfl, rfl, rfl⟩
    · intro place hmine
      by_cases hplace : place = tag
      · exact .inr (congrArg some hplace.symm)
      · rw [owner_setup place hplace] at hmine
        exact .inl (hrely.mine place hmine)
    · exact hrely.batch
    · exact hrely.results
  · simp only [rgWp_bind, rgWp_assert, rgWp_pure]
    intro _
    exact ⟨hkeeps, fun _ _ hholds => ⟨hholds.rely hrely, by simp⟩, by simp,
      fun place hmine => .inl (hrely.mine place hmine), hrely.batch, hrely.results⟩

structure SentFrom (tid : Tid) (bufs : List RqBuffer) (s : DmaState)
    (issued : List ℕ) (s' : DmaState) : Prop where
  sent : s'.Sent tid bufs issued
  others : ∀ buf issue, buf.tag ∉ bufs.map RqBuffer.tag →
    s.Holds tid buf issue → s'.Holds tid buf issue
  mine : ∀ tag, s'.owner tag = some tid → s.owner tag = some tid
  results : s.results ⊆ s'.results

omit hc in
theorem SentFrom.rely {s'' : DmaState} (hfrom : SentFrom self bufs s issued s')
    (hrely : Rely self s' s'') : SentFrom self bufs s issued s'' where
  sent := hfrom.sent.rely hrely
  others := fun buf issue hnot hholds => (hfrom.others buf issue hnot hholds).rely hrely
  mine := fun tag hmine => hfrom.mine tag (hrely.mine tag hmine)
  results := List.Subset.trans hfrom.results hrely.results

omit hc in
theorem rgWp_completeAllRqs {post : DmaState → Unit → DmaState → Prop}
    (hpost : ∀ s', Freed self (bufs.map RqBuffer.tag) s s' → post start () s') :
    c.rgWp self (completeAllRqs self bufs) post start s := by
  induction bufs generalizing s with
  | nil =>
    apply hpost
    constructor <;> simp [DmaState.finish]
  | cons buf bufs ih =>
    simp only [completeAllRqs, rgWp_bind, rgWp_get, rgWp_assert, rgWp_modify, decide_eq_true_eq]
    intro howner hused
    apply ih
    intro s' hfreed
    have hother : ∀ tag, tag ≠ buf.tag → (s.completeRq buf.tag).rqQueue tag = s.rqQueue tag :=
      fun tag htag => update_of_ne htag _ _
    apply hpost
    constructor
    · intro tag hmem
      by_cases hrest : tag ∈ bufs.map RqBuffer.tag
      · exact hfreed.free tag hrest
      · have htag : tag = buf.tag := by
          simpa [mem_cons, hrest] using hmem
        rw [hfreed.other tag hrest, htag]
        exact update_self _ _ _
    · intro tag hnot
      rw [map_cons, mem_cons, not_or] at hnot
      rw [hfreed.other tag hnot.2, hother tag hnot.1]
    · intro tag hmem
      by_cases htag : tag = buf.tag
      · rw [htag]
        exact howner
      · rw [map_cons, mem_cons] at hmem
        have hmine := hfreed.mine tag (hmem.resolve_left htag)
        rwa [DmaState.owner, hother tag htag] at hmine
    · exact hfreed.batch
    · have hcount : s'.rqesInUsed + (bufs.map RqBuffer.tag).length =
          s.rqesInUsed - 1 := hfreed.inUsed
      rw [map_cons, length_cons]
      omega
    · rw [hfreed.kept]
      rfl

structure FlushedRqs (c : Contract dmaMachine)
    (good : List ℕ → DmaState → Prop) (base : Set ℕ) (tid : Tid)
    (bufs : List RqBuffer) (s : DmaState) (start : DmaState)
    (result : Option IoErrno × List ℕ) (s' : DmaState) : Prop where
  keeps : c.Keeps tid start s'
  batch : s'.batch tid = []
  others : ∀ buf issue, buf.tag ∉ bufs.map RqBuffer.tag →
    s.Holds tid buf issue → s'.Holds tid buf issue
  mine : ∀ tag, s'.owner tag = some tid → s.owner tag = some tid ∧ tag ∉ bufs.map RqBuffer.tag
  results : s.results ⊆ s'.results
  succeeds : result.1 = none → good result.2 s'
  fails : result.1 ≠ none → Within base tid [] s'

structure ReadEnds (c : Contract dmaMachine)
    (good : List ℕ → DmaState → Prop) (base : Set ℕ) (tid : Tid)
    (start : DmaState) (result : Option IoErrno × List ℕ) (s : DmaState) :
    Prop where
  keeps : c.Keeps tid start s
  batch : s.batch tid = []
  within : Within base tid [] s
  succeeds : result.1 = none → good result.2 s

omit hc in
/-- One more request collected. -/
theorem collected_append (hcollected : s.Collected self bufs)
    (hholds : s.Holds self new none) (hnew : new.tag ∉ bufs.map RqBuffer.tag) :
    s.Collected self (bufs ++ [new]) where
  batch := hcollected.batch
  nodup := by
    rw [map_append, map_singleton]
    exact hcollected.nodup.append (nodup_singleton _) (by simpa using hnew)
  holds := by
    intro buf hbuf
    cases mem_append.mp hbuf with
    | inl hold => exact hcollected.holds buf hold
    | inr hlast =>
      obtain rfl : buf = new := by simpa using hlast
      exact hholds

omit hc in
/-- The first request of a batch. -/
theorem collected_singleton (hbatch : s.batch self = [])
    (hholds : s.Holds self new none) : s.Collected self [new] := by
  have hnone : s.Collected self [] := ⟨hbatch, nodup_nil, by simp⟩
  apply collected_append hnone hholds
  simp

variable (hkeeps : c.Keeps self start s)
include hkeeps

theorem rgWp_setupRq (hbatch : s.batch self = []) :
    c.rgWp self (setupRq self buf rxCount force) (SetUp c self rxCount s) start s := by
  simp only [setupRq, rgWp_bind, rgWp_get, rgWp_assert]
  intro _
  cases force with
  | true =>
    apply hc.rgWp_await hkeeps
    intro middle _ _ hmiddle hrely _ _
    exact hc.rgWp_fillTag hmiddle hbatch hrely
  | false => exact hc.rgWp_fillTag hkeeps hbatch (.refl self s)

theorem rgWp_sendRqPacketsRx
    (hbatch : ∀ buf ∈ bufs, buf.tag ∈ s.batch self) (hholds : ∀ buf ∈ bufs, s.Holds self buf none)
    (hnodup : (bufs.map RqBuffer.tag).Nodup) :
    c.rgWp self (sendRqPacketsRx bufs) (fun start' issued s' =>
      c.Keeps self start' s' ∧ s'.batch self = s.batch self ∧
        SentFrom self bufs s issued s') start s := by
  induction bufs generalizing start s with
  | nil =>
    exact ⟨hkeeps, rfl, List.Forall₂.nil, fun _ _ _ hkept => hkept,
      fun _ hmine => hmine, List.Subset.refl _⟩
  | cons buf bufs ih =>
    rw [map_cons, nodup_cons] at hnodup
    simp only [sendRqPacketsRx, rgWp_bind, rgWp_get, rgWp_modify, rgWp_pure]
    apply hc.rgWp_await hkeeps
    intro middle _ _ hmiddle hrely _ hanswer
    have hfits : buf.byteCount ≤ middle.rxfifoAvail := (ite_none_right_eq_some.mp hanswer).1
    have hmine := (hholds buf mem_cons_self).rely hrely
    have hmember : ∀ other ∈ buf :: bufs, other.tag ∈ middle.batch self := by
      rw [hrely.batch]
      exact hbatch
    have hsent : c.Keeps self middle (middle.send buf) := by
      apply hc.keeps hmiddle
      · exact hc.send middle self buf hmiddle.1 (hmember buf mem_cons_self) hmine hfits
      · exact fun other hother => rely_send hother hmine.owner_eq
    have hrest := ih hsent (fun other hother => hmember other (.tail _ hother)) (by
        intro other hother
        apply ((hholds other (.tail _ hother)).rely hrely).send_of_ne
        intro heq
        exact hnodup.1 (heq ▸ mem_map_of_mem hother))
      hnodup.2
    apply rgWp_mono hrest
    rintro start' issued s' ⟨hkeeps', hbatch', hfrom⟩
    refine ⟨hkeeps', hbatch'.trans hrely.batch, ?_, ?_, ?_, ?_⟩
    · apply List.Forall₂.cons
      · exact hfrom.others buf _ hnodup.1 hmine.send
      · exact hfrom.sent
    · intro other issue hnot hkept
      rw [map_cons, mem_cons, not_or] at hnot
      exact hfrom.others other issue hnot.2 ((hkept.rely hrely).send_of_ne hnot.1)
    · intro tag howner
      have hsame := hfrom.mine tag howner
      rw [owner_send] at hsame
      exact hrely.mine tag hsame
    · exact List.Subset.trans hrely.results hfrom.results

/-- The end of a batch, from the state in which its wait ended. -/
theorem rgWp_endBatch {timedOut : Bool} {before : DmaState} (hne : bufs ≠ [])
    (hbatch : s.batch self = bufs.map RqBuffer.tag) (hfrom : SentFrom self bufs before issued s)
    (hpending : timedOut = false → s.pendingRcs self = 0)
    (hlate : timedOut = true → c.allows self .cpl s true) :
    c.rgWp self (do
      let _ ← await .irq
      completeAllRqs self bufs
      let s ← get
      pure (if timedOut then some .etimedout
        else if s.rcError self then some .eio else none, issued) :
      DmaM (Option IoErrno × List ℕ))
      (FlushedRqs c good base self bufs before) start s := by
  have hnil : s.batch self ≠ [] := by
    rw [hbatch]
    simpa using hne
  simp only [rgWp_bind, rgWp_get, rgWp_pure]
  apply hc.rgWp_await hkeeps
  intro middle choice _ hmiddle hrely hallows _
  have hbatch' : middle.batch self = bufs.map RqBuffer.tag := hrely.batch.trans hbatch
  apply rgWp_completeAllRqs
  intro s' hfreed
  have hflag : s'.rcError self = middle.rcError self := by
    rw [hfreed.kept]
  have hend : BatchEnd c self bufs issued (if timedOut then some .etimedout
      else if s'.rcError self then some .eio else none) middle := by
    refine ⟨hmiddle.1, ⟨choice, hallows⟩, hrely.batch ▸ hnil, hbatch',
      (hfrom.rely hrely).sent, ?_, ?_⟩
    · intro hcode
      cases timedOut with
      | true => simp at hcode
      | false =>
        have htable := hc.table s hkeeps.1
        refine ⟨?_, (htable.quiet hnil (hpending rfl)).rely htable hrely⟩
        rw [← hflag]
        simpa using hcode
    · intro hcode
      cases timedOut with
      | true => exact .inr ⟨s, hlate rfl, hrely⟩
      | false =>
        rw [← hflag]
        exact .inl (by simpa using hcode)
  have hresults : middle.results ⊆ s'.results := by
    rw [hfreed.kept]
    exact List.Subset.refl _
  have hfrom' := hfrom.rely hrely
  constructor
  · apply hc.keeps hmiddle
    · rw [← hbatch'] at hfreed
      exact hc.freed middle self s' choice hmiddle.1 hallows hfreed
    · exact fun other hother => hfreed.rely hother
  · rw [hfreed.batch, update_self]
  · intro buf issue hnot hholds
    obtain ⟨entry, hentry, hrest⟩ := hfrom'.others buf issue hnot hholds
    exact ⟨entry, (hfreed.other buf.tag hnot).trans hentry, hrest⟩
  · intro tag hmine
    obtain ⟨hold, hnot⟩ := hfreed.was_mine hmine
    exact ⟨hfrom'.mine tag hold, hnot⟩
  · exact List.Subset.trans hfrom'.results hresults
  · intro hcode
    dsimp only at hcode
    rw [hcode] at hend
    exact hc.kept middle s' issued (hc.success self bufs issued middle hend) hresults
  · intro hcode tag hmine
    obtain ⟨hold, hnot⟩ := hfreed.was_mine hmine
    have hplace := hc.failure self bufs issued _ middle hend hcode tag hold
    exact .inl (hplace.resolve_right (hbatch' ▸ hnot))

theorem rgWp_flushRqs (hne : bufs ≠ []) (hcollected : s.Collected self bufs) :
    c.rgWp self (flushRqs self bufs) (FlushedRqs c good base self bufs s) start s := by
  rw [flushRqs, rgWp_bind, rgWp_modify, rgWp_bind]
  have hbegin : c.Keeps self start (s.begin self (bufs.map RqBuffer.tag)) := by
    apply hc.keeps hkeeps
    · exact hc.begin s self bufs hkeeps.1 hcollected
    · exact fun other hother => rely_begin hother
  have hbatch : (s.begin self (bufs.map RqBuffer.tag)).batch self =
      bufs.map RqBuffer.tag := update_self _ _ _
  have hsend := hc.rgWp_sendRqPacketsRx hbegin (by
      intro buf hbuf
      rw [hbatch]
      exact mem_map_of_mem hbuf)
    hcollected.holds hcollected.nodup
  apply rgWp_mono hsend
  rintro start₁ issued s₁ ⟨hkeeps₁, hbatch₁, hsent⟩
  have hfrom : SentFrom self bufs s issued s₁ := { hsent with }
  rw [rgWp_bind, rgWp_get]
  split
  · apply hc.rgWp_await hkeeps₁
    intro middle choice timedOut hmiddle hrely hallows hanswer
    have hcpl := answer_cpl hanswer
    apply hc.rgWp_endBatch hmiddle hne
    · exact hrely.batch.trans (hbatch₁.trans hbatch)
    · exact hfrom.rely hrely
    · intro hinTime
      simpa [hinTime] using hcpl
    · intro hlate
      have hchoice : choice = true := by simpa [hlate] using hcpl
      exact hchoice ▸ hallows
  · next hzero =>
    apply hc.rgWp_endBatch hkeeps₁ hne
    · exact hbatch₁.trans hbatch
    · exact hfrom
    · intro _
      simpa using hzero
    · simp

/-- A batch and what follows it when it succeeded; a failure ends the read. -/
theorem rgWp_flushThen {next : Option IoErrno × List ℕ → DmaM (Option IoErrno × List ℕ)}
    (hne : bufs ≠ [])
    (hcollected : s.Collected self bufs) (hgood : good issued s) (hfail : ∀ code more, code ≠ none →
      next (code, more) = pure (code, issued ++ more)) (hnext : ∀ start' more s',
      FlushedRqs c good base self bufs s start' (none, more) s' → good (issued ++ more) s' →
      c.rgWp self (next (none, more)) (ReadEnds c good base self) start' s') :
    c.rgWp self (flushRqs self bufs >>= next) (ReadEnds c good base self) start s := by
  rw [rgWp_bind]
  apply rgWp_mono (hc.rgWp_flushRqs hkeeps hne hcollected)
  rintro start' ⟨code, more⟩ s' hflushed
  by_cases hcode : code = none
  · subst hcode
    apply hnext start' more s' hflushed
    exact hc.append s' issued more
      (hc.kept s s' issued hgood hflushed.results) (hflushed.succeeds rfl)
  · rw [hfail code more hcode]
    exact ⟨hflushed.keeps, hflushed.batch, hflushed.fails hcode, fun hnone => absurd hnone hcode⟩

theorem rgWp_dmaReadLoop {chunks : List (ℕ × ℕ)} {addr : ℕ} (hcollected : s.Collected self bufs)
    (hwithin : Within base self (bufs.map RqBuffer.tag) s) (hgood : good issued s) :
    c.rgWp self (dmaReadLoop self chunks addr bufs issued) (ReadEnds c good base self) start s := by
  induction chunks generalizing addr bufs issued start s with
  | nil =>
    rw [dmaReadLoop, rgWp_ite]
    split
    · next hnil =>
      subst hnil
      exact ⟨hkeeps, hcollected.batch, hwithin, fun _ => hgood⟩
    · next hne =>
      apply hc.rgWp_flushThen hkeeps hne hcollected hgood
      · exact fun _ _ _ => rfl
      · intro start' more s' hflushed hgood'
        refine ⟨hflushed.keeps, hflushed.batch, ?_, fun _ => hgood'⟩
        intro tag hmine
        obtain ⟨hold, hnot⟩ := hflushed.mine tag hmine
        exact .inl ((hwithin tag hold).resolve_right hnot)
  | cons piece chunks ih =>
    obtain ⟨buf, chunk⟩ := piece
    rw [dmaReadLoop, rgWp_bind]
    apply rgWp_mono (hc.rgWp_setupRq hkeeps hcollected.batch)
    intro start₁ tag s₁ hsetup
    rw [rgWp_bind]
    apply hc.rgWp_await hsetup.keeps
    intro middle _ _ hmiddle hrely _ _
    have hcollected' : middle.Collected self bufs :=
      ⟨hrely.batch.trans (hsetup.batch.trans hcollected.batch), hcollected.nodup, fun buf hbuf =>
          (hsetup.holds buf none (hcollected.holds buf hbuf)).1.rely hrely⟩
    have hgood' := hc.kept s middle issued hgood (List.Subset.trans hsetup.results hrely.results)
    have hmine : ∀ place, middle.owner place = some self →
        place ∈ base ∨ place ∈ bufs.map RqBuffer.tag ∨ tag = some place := by
      intro place hplace
      cases hsetup.mine place (hrely.mine place hplace) with
      | inl hold => exact (hwithin place hold).imp_right .inl
      | inr hnew => exact .inr (.inr hnew)
    cases tag with
    | some tag =>
      have hholds : middle.Holds self ⟨tag, addr, chunk⟩ none :=
        (hsetup.new tag addr rfl).rely hrely
      have hnew : tag ∉ bufs.map RqBuffer.tag := by
        intro hmem
        obtain ⟨old, hold, rfl⟩ := mem_map.mp hmem
        exact (hsetup.holds old none (hcollected.holds old hold)).2 rfl
      simp only [rgWp_ite]
      split
      · next hfull =>
        have hne : bufs ≠ [] := by
          rintro rfl
          simp [rqBufferMax] at hfull
        apply hc.rgWp_flushThen hmiddle hne hcollected' hgood'
        · intro code more hcode
          exact if_pos hcode
        · intro start' more s' hflushed hgood''
          apply ih hflushed.keeps _ _ hgood''
          · exact collected_singleton hflushed.batch (hflushed.others _ none hnew hholds)
          · intro place hplace
            obtain ⟨hold, hnot⟩ := hflushed.mine place hplace
            apply (hmine place hold).imp_right
            intro hcase
            simpa using (hcase.resolve_left hnot).symm
      · apply ih hmiddle (collected_append hcollected' hholds hnew) _ hgood'
        intro place hplace
        apply (hmine place hplace).imp_right
        intro hcase
        simpa [eq_comm] using hcase
    | none =>
      simp only [rgWp_bind, rgWp_assert]
      intro hsome
      have hne : bufs ≠ [] := by
        rintro rfl
        simp at hsome
      rw [← rgWp_bind]
      apply hc.rgWp_flushThen hmiddle hne hcollected' hgood'
      · intro code more hcode
        exact if_pos hcode
      · intro start' more s' hflushed hgood''
        simp only [ne_eq, not_true_eq_false, if_false, rgWp_bind]
        apply rgWp_mono (hc.rgWp_setupRq hflushed.keeps hflushed.batch)
        intro start₂ tag s₂ hsetup₂
        cases tag with
        | none => trivial
        | some tag =>
          apply ih hsetup₂.keeps _ _ (hc.kept s' s₂ _ hgood'' hsetup₂.results)
          · exact collected_singleton (hsetup₂.batch.trans hflushed.batch)
              (hsetup₂.new tag addr rfl)
          · intro place hplace
            cases hsetup₂.mine place hplace with
            | inl hold =>
              obtain ⟨hold', hnot⟩ := hflushed.mine place hold
              exact .inl ((hmine place hold').resolve_right (by simpa using hnot))
            | inr htag => exact .inr (by simpa using htag.symm)

theorem rgWp_dmaThread {maxPayload : ℕ} {reads : List DmaRead}
    (hbatch : s.batch self = []) (hwithin : Within base self [] s) :
    c.rgWp self (dmaThread maxPayload self reads) (c.Ends self) start s := by
  induction reads generalizing start s with
  | nil =>
    refine ⟨hkeeps, hc.done s self ?_⟩
    intro tag hmine
    exact (hwithin tag hmine).resolve_right not_mem_nil
  | cons read reads ih =>
    rw [dmaThread, rgWp_bind]
    apply hc.rgWp_await hkeeps
    intro middle _ _ hmiddle hrely _ _
    rw [rgWp_bind]
    have hcollected : middle.Collected self [] := ⟨hrely.batch.trans hbatch, nodup_nil, by simp⟩
    have hread : c.rgWp self (pcieDoDmaIter maxPayload self read)
        (ReadEnds c good base self) middle middle :=
      hc.rgWp_dmaReadLoop hmiddle hcollected (hwithin.rely hrely) (hc.nil middle)
    apply rgWp_mono hread
    rintro start' ⟨code, issued⟩ s' hends
    have hrecord := hc.keeps hends.keeps
      (hc.record s' ⟨self, code, issued⟩ hends.keeps.1 hends.succeeds)
      (fun other _ => .of_frame (fun _ _ => rfl) rfl (List.Subset.refl _))
    exact ih hrecord hends.batch hends.within

omit hkeeps

/-- Any threads with any reads meet the contract. -/
theorem safe_dmaPool {rxfifoAvail : ℕ} (maxPayload : ℕ)
    (reads : Tid → List DmaRead) (hinit : c.inv (DmaState.init rxfifoAvail)) :
    (dmaPool maxPayload rxfifoAvail reads).Safe c := by
  refine ⟨hinit, ?_⟩
  intro self
  have hthread : c.rgWp self (dmaThread maxPayload self (reads self))
      (c.Ends self) (DmaState.init rxfifoAvail) (DmaState.init rxfifoAvail) := by
    apply hc.rgWp_dmaThread (.refl hinit) rfl
    intro tag hmine
    exact absurd hmine (by simp [DmaState.init, DmaState.owner])
  change c.Resting self (dmaThread maxPayload self (reads self)) _
  cases hreads : reads self with
  | nil | cons read rest =>
    rw [hreads] at hthread
    exact hthread.2

end DmaRules

end Program

end Soda
