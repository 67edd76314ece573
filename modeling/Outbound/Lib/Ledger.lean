import Mathlib.Algebra.Order.Group.Multiset
import Mathlib.Tactic.Abel

/-! Books of what becomes of items that come in at one end and go to consumers at the other: each is
queued, taken from the queue, given to a handler that accepts or refuses it, or released. -/
namespace Outbound.Lib

open List Multiset

/-- The items that came in, those given to consumers, and what became of them, each in its order. -/
structure Ledger (α : Type*) where
  pushed : List α
  consumed : List α
  popped : List α
  accepted : List α
  refused : List α
  released : List α

namespace Ledger

variable {α : Type*}

def empty : Ledger α := ⟨[], [], [], [], [], []⟩

variable (l : Ledger α)

def push (x : α) : Ledger α := { l with pushed := l.pushed ++ [x] }

def release (xs : List α) : Ledger α := { l with released := l.released ++ xs }

def pop (x : α) : Ledger α :=
  { l with popped := l.popped ++ [x], consumed := l.consumed ++ [x] }

def hand (x : α) : Ledger α := { l with consumed := l.consumed ++ [x] }

def settle (x : α) (ok : Bool) : Ledger α :=
  if ok then { l with accepted := l.accepted ++ [x] } else { l with refused := l.refused ++ [x] }

/-- Every item is in one place: queued, held for a handler, with a handler, or where the books say.
Consumers get the items in the order in which they came. -/
structure Balanced (queued pending inHandler : List α) : Prop where
  conserved : (l.pushed : Multiset α) = ↑queued + ↑pending + ↑inHandler + ↑l.popped + ↑l.accepted +
    ↑l.refused + ↑l.released
  handed : (l.consumed : Multiset α) = ↑l.popped + ↑l.accepted + ↑l.refused + ↑inHandler
  inOrder : (l.consumed ++ (pending ++ queued)).Sublist l.pushed
  poppedInOrder : l.popped.Sublist l.consumed
  acceptedInOrder : (l.accepted ++ inHandler).Sublist l.consumed

theorem balanced_empty : (empty : Ledger α).Balanced [] [] [] where
  conserved := rfl
  handed := rfl
  inOrder := .slnil
  poppedInOrder := .slnil
  acceptedInOrder := .slnil

namespace Balanced

variable {l} {queued pending inHandler : List α} {x : α}

theorem push_enqueue (h : l.Balanced queued pending inHandler) :
    (l.push x).Balanced (queued ++ [x]) pending inHandler where
  conserved := by
    simp only [push, ← coe_add, h.conserved]
    abel
  __ := h
  inOrder := by
    have hsub := h.inOrder.append_right [x]
    rwa [append_assoc, append_assoc] at hsub

theorem push_hold (h : l.Balanced [] [] inHandler) : (l.push x).Balanced [] [x] inHandler where
  conserved := by
    simp only [push, ← coe_add, h.conserved]
    abel
  __ := h
  inOrder := by
    have hsub := h.inOrder.append_right [x]
    rwa [append_nil, append_nil] at hsub

theorem push_release (h : l.Balanced queued pending inHandler) :
    ((l.push x).release [x]).Balanced queued pending inHandler where
  conserved := by
    simp only [push, release, ← coe_add, h.conserved]
    abel
  __ := h
  inOrder := h.inOrder.trans (sublist_append_left _ _)

theorem release_pending (h : l.Balanced queued (x :: pending) inHandler) :
    (l.release [x]).Balanced queued pending inHandler where
  conserved := by
    rw [← singleton_append] at h
    simp only [release, ← coe_add, h.conserved]
    abel
  __ := h
  inOrder := by
    refine List.Sublist.trans ?_ h.inOrder
    exact (sublist_cons_self x (pending ++ queued)).append_left l.consumed

theorem release_queued (h : l.Balanced queued pending inHandler) :
    (l.release queued).Balanced [] pending inHandler where
  conserved := by
    simp only [release, ← coe_add, h.conserved, coe_nil]
    abel
  __ := h
  inOrder := by
    refine List.Sublist.trans ?_ h.inOrder
    exact ((nil_sublist queued).append_left pending).append_left l.consumed

theorem drain (h : l.Balanced queued [] inHandler) : l.Balanced [] queued inHandler where
  conserved := by
    rw [h.conserved, coe_nil]
    abel
  __ := h
  inOrder := by
    simpa using h.inOrder

theorem pop (h : l.Balanced (x :: queued) [] inHandler) : (l.pop x).Balanced queued [] inHandler where
  conserved := by
    rw [← singleton_append] at h
    simp only [Ledger.pop, ← coe_add, h.conserved]
    abel
  handed := by
    simp only [Ledger.pop, ← coe_add, h.handed]
    abel
  inOrder := by
    have hsub := h.inOrder
    rwa [nil_append, ← singleton_append, ← append_assoc] at hsub
  poppedInOrder := h.poppedInOrder.append_right [x]
  acceptedInOrder := h.acceptedInOrder.trans (sublist_append_left _ _)

theorem hand (h : l.Balanced queued (x :: pending) []) : (l.hand x).Balanced queued pending [x] where
  conserved := by
    rw [← singleton_append] at h
    simp only [Ledger.hand, ← coe_add, h.conserved, coe_nil]
    abel
  handed := by
    simp only [Ledger.hand, ← coe_add, h.handed, coe_nil]
    abel
  inOrder := by
    have hsub := h.inOrder
    rwa [cons_append, ← singleton_append, ← append_assoc] at hsub
  poppedInOrder := h.poppedInOrder.trans (sublist_append_left _ _)
  acceptedInOrder := by
    have hsub := h.acceptedInOrder
    rw [append_nil] at hsub
    exact hsub.append_right [x]

theorem settle (h : l.Balanced queued pending [x]) (ok : Bool) :
    (l.settle x ok).Balanced queued pending [] := by
  cases ok with
  | true =>
    exact {
      conserved := by
        simp only [Ledger.settle, if_true, ← coe_add, h.conserved, coe_nil]
        abel
      handed := by
        simp only [Ledger.settle, if_true, ← coe_add, h.handed, coe_nil]
        abel
      __ := h
      acceptedInOrder := by
        rw [append_nil]
        exact h.acceptedInOrder }
  | false =>
    exact {
      conserved := by
        simp only [Ledger.settle, Bool.false_eq_true, if_false, ← coe_add, h.conserved, coe_nil]
        abel
      handed := by
        simp only [Ledger.settle, Bool.false_eq_true, if_false, ← coe_add, h.handed, coe_nil]
        abel
      __ := h
      acceptedInOrder := by
        rw [append_nil]
        exact (sublist_append_left l.accepted [x]).trans h.acceptedInOrder }

end Balanced

end Ledger

end Outbound.Lib
