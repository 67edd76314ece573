import Mathlib.Data.List.Basic

/-! The deadline of one direction of a gRPC tunnel. -/
namespace Outbound.Transport.Grpc

/-- What a deadline is set to: cleared, a time that has passed, or a time to come. -/
inductive When where
  | zero
  | past
  | future
deriving DecidableEq

/-- A deadline: the timer in its slot, the context the pending calls wait on, the contexts that are
cancelled and the one each timer was armed for. Contexts and timers are named in the order of their
making. -/
structure Deadline where
  slot : Option ℕ
  ctx : ℕ
  cancelled : List ℕ
  timers : List ℕ
  contexts : ℕ
deriving DecidableEq

namespace Deadline

variable {d : Deadline} {n t : ℕ}

def new : Deadline := ⟨none, 0, [], [], 1⟩

variable (d)

/-- Only a context that is cancelled needs replacing. -/
def renew : Deadline :=
  if d.ctx ∈ d.cancelled then { d with ctx := d.contexts, contexts := d.contexts + 1 } else d

def setDeadlineLocked : When → Deadline
  | .past => { d with slot := none, cancelled := d.ctx :: d.cancelled }
  | .zero => { d.renew with slot := none }
  | .future =>
    { d.renew with slot := some d.timers.length, timers := d.timers ++ [d.renew.ctx] }

/-- The callback of a timer, which looks whether the slot still holds it. -/
def fire (timer : ℕ) : Deadline :=
  match d.timers[timer]? with
  | none => d
  | some ctx => if d.slot = some timer then { d with cancelled := ctx :: d.cancelled } else d

def stop : Deadline := { d with slot := none }

structure Superseded (n : ℕ) (d : Deadline) : Prop where
  slot : ∀ t, d.slot = some t → n ≤ t
  timers : n ≤ d.timers.length

theorem renew_timers : d.renew.timers = d.timers := by
  unfold renew
  split_ifs <;> rfl

theorem renew_cancelled : d.renew.cancelled = d.cancelled := by
  unfold renew
  split_ifs <;> rfl

theorem set_superseded (w : When) : (d.setDeadlineLocked w).Superseded d.timers.length := by
  cases w with
  | past => exact ⟨fun _ hnot => (nomatch hnot), Nat.le_refl _⟩
  | zero => exact ⟨fun _ hnot => (nomatch hnot), Nat.le_of_eq (congrArg List.length (renew_timers d).symm)⟩
  | future =>
    refine ⟨fun t ht => Nat.le_of_eq (Option.some.inj ht), ?_⟩
    change d.timers.length ≤ (d.timers ++ [d.renew.ctx]).length
    simp

theorem stop_superseded : d.stop.Superseded d.timers.length :=
  ⟨fun _ hnot => (nomatch hnot), Nat.le_refl _⟩

section

variable {d} (h : d.Superseded n)

include h

theorem Superseded.set (w : When) : (d.setDeadlineLocked w).Superseded n := by
  have hset := set_superseded d w
  exact ⟨fun t ht => Nat.le_trans h.timers (hset.slot t ht), Nat.le_trans h.timers hset.timers⟩

theorem Superseded.stop : d.stop.Superseded n :=
  ⟨fun _ hnot => (nomatch hnot), h.timers⟩

theorem Superseded.fire (t : ℕ) : (d.fire t).Superseded n := by
  unfold Deadline.fire
  cases d.timers[t]? with
  | none => exact h
  | some ctx =>
    split_ifs
    · exact ⟨h.slot, h.timers⟩
    · exact h

theorem Superseded.fire_eq (ht : t < n) : d.fire t = d := by
  unfold Deadline.fire
  cases d.timers[t]? with
  | none => rfl
  | some ctx =>
    have hslot : d.slot ≠ some t := fun heq => Nat.not_le_of_lt ht (h.slot t heq)
    exact if_neg hslot

end

theorem cancelled_subset_set (w : When) : d.cancelled ⊆ (d.setDeadlineLocked w).cancelled := by
  cases w with
  | past => exact List.subset_cons_self d.ctx d.cancelled
  | _ => exact (renew_cancelled d).symm ▸ List.Subset.refl _

theorem cancelled_subset_fire (t : ℕ) : d.cancelled ⊆ (d.fire t).cancelled := by
  unfold fire
  cases d.timers[t]? with
  | none => exact List.Subset.refl _
  | some ctx =>
    split_ifs
    · exact List.subset_cons_self ctx d.cancelled
    · exact List.Subset.refl _

end Deadline

end Outbound.Transport.Grpc
