import Mathlib.Data.List.Nodup

/-! A linked list by the handles of its elements, and the walk around it from one of them. -/
namespace Outbound.Lib.Elements

open List

variable {α : Type*} [DecidableEq α] {l u v : List α} {a b c : α}

/-- The element after `a`, none at the end of the list. -/
def next : List α → α → Option α
  | [], _ => none
  | b :: l, a => if b = a then l.head? else next l a

/-- `new` put behind `mark`; a list without `mark` is left alone. -/
def insertAfter : List α → α → α → List α
  | [], _, _ => []
  | b :: l, new, mark => if b = mark then b :: new :: l else b :: insertAfter l new mark

/-- The element after `a`, with the front behind the end. -/
def nextOrFront (l : List α) (a : α) : Option α := (next l a).or l.head?

/-- The elements in the order a walk from `a` meets them. -/
def cycleFrom (l : List α) (a : α) : List α := l.dropWhile (· ≠ a) ++ l.takeWhile (· ≠ a)

theorem next_append_of_mem (h : b ∈ u) : next (u ++ v) b = (next u b).or v.head? := by
  induction u with
  | nil => exact absurd h not_mem_nil
  | cons x u ih =>
    rw [cons_append, next, next]
    split_ifs with hx
    · exact head?_append
    · exact ih ((mem_cons.mp h).resolve_left fun heq => hx heq.symm)

theorem next_append_of_notMem (h : b ∉ u) : next (u ++ v) b = next v b := by
  induction u with
  | nil => rfl
  | cons x u ih =>
    obtain ⟨hx, hu⟩ := not_or.mp (mt mem_cons.mpr h)
    rw [cons_append, next, if_neg (Ne.symm hx)]
    exact ih hu

theorem next_mem (h : next l a = some b) : b ∈ l := by
  induction l with
  | nil => exact nomatch h
  | cons x l ih =>
    rw [next] at h
    split_ifs at h with hx
    · exact mem_cons_of_mem x (mem_of_mem_head? h)
    · exact mem_cons_of_mem x (ih h)

theorem next_ne (hnodup : l.Nodup) (h : next l a = some b) : b ≠ a := by
  induction l with
  | nil => exact nomatch h
  | cons x l ih =>
    obtain ⟨hx, hnodup⟩ := nodup_cons.mp hnodup
    rw [next] at h
    split_ifs at h with heq
    · rintro rfl
      exact hx (heq ▸ mem_of_mem_head? h)
    · exact ih hnodup h

/-- The walk does not see where the list begins. -/
theorem nextOrFront_rotate (hnodup : (u ++ v).Nodup) (hb : b ∈ u ++ v) :
    nextOrFront (u ++ v) b = nextOrFront (v ++ u) b := by
  obtain ⟨-, -, hdisjoint⟩ := nodup_append'.mp hnodup
  unfold nextOrFront
  rw [head?_append, head?_append]
  rcases mem_append.mp hb with hu | hv
  · obtain ⟨x, hx⟩ : ∃ x, u.head? = some x := by
      cases u with
      | nil => exact absurd hu not_mem_nil
      | cons x u => exact ⟨x, rfl⟩
    rw [next_append_of_mem hu, next_append_of_notMem fun hv => hdisjoint hu hv, hx]
    cases next u b <;> cases v.head? <;> rfl
  · obtain ⟨x, hx⟩ : ∃ x, v.head? = some x := by
      cases v with
      | nil => exact absurd hv not_mem_nil
      | cons x v => exact ⟨x, rfl⟩
    rw [next_append_of_mem hv, next_append_of_notMem fun hu => hdisjoint hu hv, hx]
    cases next v b <;> cases u.head? <;> rfl

theorem cycleFrom_perm (l : List α) (a : α) : (cycleFrom l a).Perm l := by
  have happend := takeWhile_append_dropWhile (p := fun x => decide (x ≠ a)) (l := l)
  calc cycleFrom l a
      = l.dropWhile (· ≠ a) ++ l.takeWhile (· ≠ a) := rfl
    _ |>.Perm (l.takeWhile (· ≠ a) ++ l.dropWhile (· ≠ a)) := perm_append_comm
    _ = l := happend

theorem mem_cycleFrom : b ∈ cycleFrom l a ↔ b ∈ l := (cycleFrom_perm l a).mem_iff

theorem length_cycleFrom (l : List α) (a : α) : (cycleFrom l a).length = l.length :=
  (cycleFrom_perm l a).length_eq

theorem nodup_cycleFrom (h : l.Nodup) : (cycleFrom l a).Nodup :=
  (cycleFrom_perm l a).nodup_iff.mpr h

theorem cycleFrom_eq_cons (h : a ∈ l) : ∃ rest, cycleFrom l a = a :: rest := by
  have hdrop : ∃ rest, l.dropWhile (· ≠ a) = a :: rest := by
    induction l with
    | nil => exact absurd h not_mem_nil
    | cons x l ih =>
      by_cases hx : x = a
      · simp [hx]
      · rw [dropWhile_cons_of_pos (by simpa using hx)]
        exact ih ((mem_cons.mp h).resolve_left (Ne.symm hx))
  obtain ⟨rest, hrest⟩ := hdrop
  exact ⟨rest ++ l.takeWhile (· ≠ a), by rw [cycleFrom, hrest, cons_append]⟩

/-- In the order of the walk, the element behind `b` is the next one of the order, and the last one
is followed by the first. -/
theorem nextOrFront_of_order (hnodup : l.Nodup) (horder : cycleFrom l a = u ++ b :: v) :
    nextOrFront l b = v.head?.or (cycleFrom l a).head? := by
  have hmem : b ∈ cycleFrom l a := horder ▸ mem_append_right u mem_cons_self
  have hrotate : nextOrFront (cycleFrom l a) b = nextOrFront l b := by
    have hstart := nextOrFront_rotate (nodup_cycleFrom (a := a) hnodup) hmem
    rwa [takeWhile_append_dropWhile] at hstart
  have hb : b ∉ u := fun hu =>
    (nodup_append'.mp (horder ▸ nodup_cycleFrom (a := a) hnodup)).2.2 hu mem_cons_self
  rw [← hrotate, nextOrFront]
  nth_rewrite 1 [horder]
  rw [next_append_of_notMem hb, next, if_pos rfl]

theorem insertAfter_perm (h : a ∈ l) : (insertAfter l b a).Perm (b :: l) := by
  induction l with
  | nil => exact absurd h not_mem_nil
  | cons x l ih =>
    rw [insertAfter]
    split_ifs with hx
    · exact List.Perm.swap b x l
    · have hrest := ih ((mem_cons.mp h).resolve_left fun heq => hx heq.symm)
      exact (hrest.cons x).trans (List.Perm.swap b x l)

end Outbound.Lib.Elements
