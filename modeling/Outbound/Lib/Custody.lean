import Mathlib.Algebra.Order.Group.Multiset
import Mathlib.Tactic.Abel

/-! Custody of items that are handed over once, read for a while and then released: what a piece of
code does with the items in its hands, from the trace of its accesses. -/
namespace Outbound.Lib

open List

inductive Access (α : Type*) where
  | read (x : α)
  | release (x : α)
deriving DecidableEq

namespace Access

variable {α : Type*} (t : List (Access α)) (l : List α)

def item : Access α → α
  | read x => x
  | release x => x

def releases : List α :=
  t.filterMap fun
    | read _ => none
    | release x => some x

@[simp] theorem releases_nil : releases ([] : List (Access α)) = [] := rfl

@[simp] theorem releases_append (u : List (Access α)) :
    releases (t ++ u) = releases t ++ releases u := filterMap_append

@[simp] theorem releases_cons_read (x : α) (t : List (Access α)) :
    releases (read x :: t) = releases t := rfl

@[simp] theorem releases_cons_release (x : α) (t : List (Access α)) :
    releases (release x :: t) = x :: releases t := rfl

@[simp] theorem releases_map_read : releases (l.map read) = [] := by
  induction l with
  | nil => rfl
  | cons x l ih => exact ih

@[simp] theorem releases_map_release : releases (l.map release) = l := by
  induction l with
  | nil => rfl
  | cons x l ih => rw [map_cons, releases_cons_release, ih]

theorem mem_releases {t : List (Access α)} {x : α} : x ∈ releases t ↔ release x ∈ t := by
  induction t with
  | nil => simp
  | cons a t ih => cases a <;> simp [ih]

/-- No item is accessed after it was released. -/
def Clean : Prop := t.Pairwise fun a b => a ≠ release b.item

theorem clean_append_iff {t u : List (Access α)} :
    Clean (t ++ u) ↔ Clean t ∧ Clean u ∧ ∀ a ∈ u, a.item ∉ releases t := by
  unfold Clean
  rw [pairwise_append]
  apply and_congr Iff.rfl
  apply and_congr Iff.rfl
  constructor
  · intro h a ha hmem
    exact h _ (mem_releases.mp hmem) a ha rfl
  · rintro h a ha b hb rfl
    exact h b hb (mem_releases.mpr ha)

theorem clean_map_read : Clean (l.map read) := by
  unfold Clean
  rw [pairwise_map]
  exact pairwise_of_forall (by simp)

theorem clean_map_release {l : List α} (h : l.Nodup) : Clean (l.map release) := by
  unfold Clean
  rw [pairwise_map]
  apply h.imp
  intro x y hne heq
  exact hne (release.inj heq)

end Access

open Access

/-- Code that is given the items of `given` and accesses them as `t` tells ends with those of `kept`
in its hands; it released the others, but for those of `lost`, which it just lets go. -/
structure Accounted {α : Type*} (given kept : Multiset α) (t : List (Access α))
    (lost : Multiset α) : Prop where
  balance : given = kept + ↑(releases t) + lost
  clean : Clean t
  touched : ∀ a ∈ t, a.item ∈ given

namespace Accounted

variable {α : Type*} {given kept kept' rest lost lost' : Multiset α} {t u : List (Access α)}

theorem idle (given : Multiset α) : Accounted given given [] 0 where
  balance := by simp
  clean := List.Pairwise.nil
  touched := by simp

theorem lose (x : α) : Accounted {x} 0 [] {x} where
  balance := by simp
  clean := List.Pairwise.nil
  touched := by simp

theorem reads {l : List α} (h : ∀ x ∈ l, x ∈ given) : Accounted given given (l.map .read) 0 where
  balance := by simp
  clean := clean_map_read l
  touched := by simpa [item] using h

theorem releases {l : List α} (h : l.Nodup) : Accounted ↑l 0 (l.map .release) 0 where
  balance := by simp
  clean := clean_map_release h
  touched := by simp [item]

theorem frame (h : Accounted given kept t lost) (rest : Multiset α) :
    Accounted (given + rest) (kept + rest) t lost where
  balance := by
    rw [h.balance]
    abel
  clean := h.clean
  touched a ha := Multiset.mem_add.mpr (.inl (h.touched a ha))

theorem trans (hn : given.Nodup) (h : Accounted given kept t lost)
    (h' : Accounted kept kept' u lost') : Accounted given kept' (t ++ u) (lost + lost') where
  balance := by
    rw [h.balance, h'.balance, releases_append, ← Multiset.coe_add]
    abel
  clean := by
    apply clean_append_iff.mpr
    refine ⟨h.clean, h'.clean, fun a ha hmem => ?_⟩
    rw [h.balance] at hn
    have hdisj := (Multiset.nodup_add.mp (Multiset.nodup_add.mp hn).1).2.2
    exact Multiset.disjoint_left.mp hdisj (h'.touched a ha) hmem
  touched a ha := by
    rcases mem_append.mp ha with ha | ha
    · exact h.touched a ha
    · rw [h.balance]
      have hkept := h'.touched a ha
      simp only [Multiset.mem_add]
      exact .inl (.inl hkept)

theorem count_eq_one [DecidableEq α] (hn : given.Nodup) (h : Accounted given kept t lost) {x : α}
    (hx : x ∈ given) : kept.count x + (Access.releases t).count x + lost.count x = 1 := by
  have hone := Multiset.count_eq_one_of_mem hn hx
  rwa [h.balance, Multiset.count_add, Multiset.count_add, Multiset.coe_count] at hone

end Accounted

end Outbound.Lib
