import Soda.Core.Rings
import Soda.Core.Runs

/-!
# The rings shared by the processors

One processor adds elements to a ring and publishes its tail, another reads the
tail and gets the elements before it.  A `struct ringq` has two such channels,
for tasks and for answers, whose code is the same.
-/

namespace Soda

open Function List

/-- One direction of the rings.  The producer and the consumer have a copy of the
tail each, `shadowTail` and `seenTail`.  What was added, how much of it was
published and read from the tail, and what was got are kept for the record. -/
structure RingChannel (E : Type) where
  num : ℕ
  ring : ℕ → E
  tail : ℕ
  shadowTail : ℕ
  seenTail : ℕ
  head : ℕ
  added : List E
  published : ℕ
  seen : ℕ
  got : List E

inductive RingAction (E : Type)
  | add (elem : E)
  | writeTail
  | readTail
  | get

namespace RingChannel

variable {E : Type}

/-- After `ringq_init` and the first `ringq_write_avail_tail`. -/
def init (num : ℕ) (ring : ℕ → E) : RingChannel E := ⟨num, ring, 0, 0, 0, 0, [], 0, 0, []⟩

def ringqNext (q : RingChannel E) (idx : ℕ) : ℕ := if q.num ≤ idx + 1 then 0 else idx + 1

/-- `ringq_add_avail` and `ringq_add_used`. -/
def ringqAdd (q : RingChannel E) (elem : E) : RingChannel E :=
  { q with
    ring := update q.ring q.shadowTail elem
    shadowTail := q.ringqNext q.shadowTail
    added := q.added ++ [elem] }

def ringqGet (q : RingChannel E) : RingChannel E :=
  if q.head = q.seenTail then q
  else { q with head := q.ringqNext q.head, got := q.got ++ [q.ring q.head] }

def ringqStep (q : RingChannel E) : RingAction E → Option (RingChannel E)
  | .add elem => some (q.ringqAdd elem)
  | .writeTail => some { q with tail := q.shadowTail, published := q.added.length }
  | .readTail => some { q with seenTail := q.tail, seen := q.published }
  | .get => some q.ringqGet

/-- An element is only added while fewer than `num - 1` are outstanding. -/
def HasRoom (q : RingChannel E) : RingAction E → Prop
  | .add _ => q.added.length + 1 < q.got.length + q.num
  | _ => True

/-- The indices are positions in what was added, modulo the size of the ring. -/
structure Tracks (q : RingChannel E) : Prop where
  tail : q.tail = q.published % q.num
  shadowTail : q.shadowTail = q.added.length % q.num
  seenTail : q.seenTail = q.seen % q.num
  head : q.head = q.got.length % q.num
  order : q.got.length ≤ q.seen ∧ q.seen ≤ q.published ∧ q.published ≤ q.added.length
  room : q.got.length < q.added.length → q.added.length < q.got.length + q.num
  holds : RingHolds q.num q.ring id q.added q.got.length
  got_eq : q.got = q.added.take q.got.length

variable {q : RingChannel E}

theorem ringqNext_mod (hnum : 0 < q.num) (k : ℕ) : q.ringqNext (k % q.num) = (k + 1) % q.num := by
  have hlt := Nat.mod_lt k hnum
  rw [succ_slot hnum, ringqNext]
  split_ifs <;> omega

namespace Tracks

variable (hq : q.Tracks)
include hq

theorem add {elem : E} (hroom : q.HasRoom (.add elem)) : (q.ringqAdd elem).Tracks := by
  obtain ⟨hseen, hpublished, hadded⟩ := hq.order
  have hlength : (q.added ++ [elem]).length = q.added.length + 1 := length_append
  have hle : q.published ≤ (q.added ++ [elem]).length := by omega
  have hnum : q.added.length + 1 < q.got.length + q.num := hroom
  have hgot : q.got = (q.added ++ [elem]).take q.got.length := by
    rw [take_append_of_le_length (by omega)]
    exact hq.got_eq
  refine { hq with shadowTail := ?_, order := ⟨hseen, hpublished, hle⟩, room := ?_, holds := ?_,
                   got_eq := hgot }
  · rw [ringqAdd, hlength, hq.shadowTail]
    exact ringqNext_mod (by omega) _
  · rw [ringqAdd, hlength]
    exact fun _ => hnum
  · rw [ringqAdd, hq.shadowTail]
    exact hq.holds.push (by omega) elem

/-- The consumer finds nothing exactly where it has got all that it has seen. -/
theorem head_eq_iff : q.head = q.seenTail ↔ q.got.length = q.seen := by
  obtain ⟨hseen, hpublished, hadded⟩ := hq.order
  have hroom := hq.room
  rw [hq.head, hq.seenTail]
  constructor
  · intro heq
    by_contra hne
    exact hne (slot_injective hseen (by omega) heq)
  · intro heq
    rw [heq]

theorem get (hne : q.got.length ≠ q.seen) : ∃ elem, q.ringqGet =
    { q with head := q.ringqNext q.head, got := q.got ++ [elem] } ∧ q.ringqGet.Tracks := by
  obtain ⟨hseen, hpublished, hadded⟩ := hq.order
  have hlt : q.got.length < q.added.length := by omega
  have hroom := hq.room hlt
  obtain ⟨elem, helem⟩ : ∃ elem, q.added[q.got.length]? = some elem := ⟨_, getElem?_eq_getElem hlt⟩
  have hlength : (q.got ++ [elem]).length = q.got.length + 1 := length_append
  have hget : q.ringqGet = { q with head := q.ringqNext q.head, got := q.got ++ [elem] } := by
    rw [ringqGet, if_neg (hne ∘ hq.head_eq_iff.mp), hq.head, hq.holds _ _ le_rfl helem]
    rfl
  have hle : (q.got ++ [elem]).length ≤ q.seen := by omega
  have hnum : q.added.length < (q.got ++ [elem]).length + q.num := by omega
  refine ⟨_, hget, ?_⟩
  rw [hget]
  refine { hq with head := ?_, order := ⟨hle, hpublished, hadded⟩, room := fun _ => hnum,
                   holds := hq.holds.mono (by simp), got_eq := ?_ }
  · rw [hlength, hq.head]
    exact ringqNext_mod (by omega) _
  · rw [hlength, take_add_one, helem, ← hq.got_eq]
    rfl

theorem readTail : ({ q with seenTail := q.tail, seen := q.published } : RingChannel E).Tracks :=
  { hq with seenTail := hq.tail, order := ⟨hq.order.1.trans hq.order.2.1, le_rfl, hq.order.2.2⟩ }

theorem step {next : RingChannel E} {action : RingAction E} (hroom : q.HasRoom action)
    (hstep : q.ringqStep action = some next) : next.Tracks := by
  obtain ⟨hseen, hpublished, hadded⟩ := hq.order
  cases action with
  | add elem =>
    cases hstep
    exact hq.add hroom
  | writeTail =>
    cases hstep
    exact { hq with tail := hq.shadowTail, order := ⟨hseen, hpublished.trans hadded, le_rfl⟩ }
  | readTail =>
    cases hstep
    exact hq.readTail
  | get =>
    cases hstep
    by_cases hend : q.got.length = q.seen
    · rw [ringqGet, if_pos (hq.head_eq_iff.mpr hend)]
      exact hq
    · obtain ⟨_, _, hnext⟩ := hq.get hend
      exact hnext

/-- Getting until nothing is found leaves nothing of what was seen. -/
theorem drain {n : ℕ} (hn : q.got.length + n = q.seen) :
    (ringqGet^[n] q).got = q.added.take q.seen := by
  induction n generalizing q with
  | zero =>
    rw [← hn]
    exact hq.got_eq
  | succ n ih =>
    obtain ⟨elem, hget, hnext⟩ := hq.get (by omega)
    have hrest : q.ringqGet.got.length + n = q.ringqGet.seen := by
      rw [hget, length_append, add_assoc, add_comm _ n]
      exact hn
    rw [iterate_succ_apply, ih hnext hrest, hget]

end Tracks

/-- While at most `num - 1` elements are outstanding, what the consumer got is a
first part of what was published, in order; it finds nothing only where it got all
that it saw of the tail, and after another look at the tail it gets the rest. -/
theorem ringq_channel {num : ℕ} {ring : ℕ → E} {actions : List (RingAction E)}
    (hrun : Run ringqStep HasRoom (init num ring) actions q) :
    q.got <+: q.added.take q.published ∧ (q.head = q.seenTail ↔ q.got.length = q.seen) ∧
      ∃ n, (ringqGet^[n] { q with seenTail := q.tail, seen := q.published }).got =
        q.added.take q.published := by
  have hinit : (init num ring).Tracks := by
    refine ⟨?_, ?_, ?_, ?_, ⟨le_rfl, le_rfl, le_rfl⟩, fun hlt => absurd hlt (lt_irrefl 0), ?_, rfl⟩
    all_goals simp [init, RingHolds]
  have hq := hrun.invariant (fun _ _ _ htracks => htracks.step) hinit
  obtain ⟨hseen, hpublished, hadded⟩ := hq.order
  refine ⟨?_, hq.head_eq_iff, q.published - q.got.length, ?_⟩
  · rw [hq.got_eq]
    exact take_prefix_take_left (hseen.trans hpublished)
  · exact hq.readTail.drain (Nat.add_sub_of_le (hseen.trans hpublished))

theorem ringq_channel_one : ∃ q, Run ringqStep HasRoom (init 2 id)
    [.add 7, .writeTail, .readTail, .get] q ∧ q.got <+: q.added.take q.published :=
  have hrun := .cons (Nat.lt_succ_self 1) rfl (.cons trivial rfl (.cons trivial rfl
    (.cons trivial rfl (.nil _))))
  ⟨_, hrun, (ringq_channel hrun).1⟩

end RingChannel

end Soda
