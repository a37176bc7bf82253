import Mathlib

/-!
# Singly linked lists in memory

`Linked next first nodes` says that following the pointers `next` from `first`
visits `nodes` and ends.  The nodes of one list are different, writes to other
nodes do not concern it, and a node can be put in front of it or taken out of
the middle by changing one pointer.
-/

namespace Soda

open Function List

variable {A : Type}

inductive Linked (next : A → Option A) : Option A → List A → Prop
  | nil : Linked next none []
  | cons {node : A} {nodes : List A} :
      Linked next (next node) nodes → Linked next (some node) (node :: nodes)

/-- Whether a list of nodes is the one that the pointers give. -/
instance Linked.decidable [DecidableEq A] (next : A → Option A) :
    ∀ (first : Option A) (nodes : List A), Decidable (Linked next first nodes)
  | none, [] => .isTrue Linked.nil
  | none, _ :: _ => .isFalse fun hlinked => by cases hlinked
  | some _, [] => .isFalse fun hlinked => by cases hlinked
  | some head, node :: nodes =>
    if hhead : head = node then
      match Linked.decidable next (next node) nodes with
      | .isTrue htail => .isTrue (by
          rw [hhead]
          exact Linked.cons htail)
      | .isFalse htail => .isFalse fun hlinked => by
          cases hlinked with
          | cons hrest => exact htail hrest
    else .isFalse fun hlinked => by
      cases hlinked with
      | cons _ => exact hhead rfl

namespace Linked

variable {next : A → Option A} {first : Option A} {nodes : List A}

theorem head?_eq (hlinked : Linked next first nodes) : nodes.head? = first := by
  cases hlinked with
  | nil | cons _ => rfl

variable {before rest : List A} {node : A}

theorem next_eq
    (hlinked : Linked next first (before ++ node :: rest)) : next node = rest.head? := by
  induction before generalizing first with
  | nil =>
    cases hlinked with
    | cons htail => exact htail.head?_eq.symm
  | cons head before ih =>
    cases hlinked with
    | cons htail => exact ih htail

theorem unique {others : List A} (hlinked : Linked next first nodes)
    (hothers : Linked next first others) : nodes = others := by
  induction hlinked generalizing others with
  | nil =>
    cases hothers with
    | nil => rfl
  | cons _ ih =>
    cases hothers with
    | cons htail => rw [ih htail]

variable [DecidableEq A]

theorem update_of_notMem (hlinked : Linked next first nodes)
    (hnode : node ∉ nodes) (value : Option A) : Linked (update next node value) first nodes := by
  induction hlinked with
  | nil => exact Linked.nil
  | @cons head tail _ ih =>
    rw [mem_cons, not_or] at hnode
    apply Linked.cons
    rw [update_of_ne (Ne.symm hnode.1)]
    exact ih hnode.2

/-- A node is put in front of the list. -/
theorem push (hlinked : Linked next first nodes) (hnode : node ∉ nodes) :
    Linked (update next node first) (some node) (node :: nodes) := by
  apply Linked.cons
  rw [update_self]
  exact hlinked.update_of_notMem hnode first

/-- The node after `before ++ [last]` is taken out by making `last` point past
it. -/
theorem unlink_after {last : A} (hlinked : Linked next first (before ++ last :: node :: rest))
    (hnodup : (before ++ last :: node :: rest).Nodup) :
    Linked (update next last (next node)) first
      (before ++ last :: rest) := by
  induction before generalizing first with
  | nil =>
    cases hlinked with
    | cons htail =>
      generalize hsecond : next last = second at htail
      cases htail with
      | cons hrest =>
        have hlast : last ∉ rest := by
          rw [nil_append, nodup_cons] at hnodup
          exact fun hmem => hnodup.1 (.tail _ hmem)
        apply Linked.cons
        rw [update_self]
        exact hrest.update_of_notMem hlast _
  | cons head before ih =>
    cases hlinked with
    | cons htail =>
      rw [cons_append, nodup_cons] at hnodup
      have hne : head ≠ last := by
        rintro rfl
        exact hnodup.1 (mem_append_right _ mem_cons_self)
      apply Linked.cons
      rw [update_of_ne hne]
      exact ih htail hnodup.2

end Linked

end Soda
