import Mathlib.Data.Nat.Notation
import Mathlib.Tactic.SplitIfs

/-! Counting loops over an explicit state, and the lists that in-place updates leave behind. -/
namespace Outbound.Loop

variable {σ α : Type*} (a d : α) (n : ℕ) (s : List α)

/-- `for i := n - 1; i >= lo; i--`. -/
def forDown (lo : ℕ) (body : ℕ → σ → σ) : ℕ → σ → σ
  | 0, s => s
  | i + 1, s => if lo ≤ i then forDown lo body i (body i s) else s

/-- `for i := 0; i < n; i++`. -/
def forUp (body : ℕ → σ → σ) : ℕ → σ → σ
  | 0, s => s
  | n + 1, s => body n (forUp body n s)

theorem getD_set (i j : ℕ) (a d : α) (hi : i < s.length) :
    (s.set i a).getD j d = if j = i then a else s.getD j d := by
  by_cases h : j = i
  · subst h
    simp [hi]
  · have hne : i ≠ j := fun hh => h hh.symm
    simp [h, List.getElem?_set_ne hne]

theorem length_forDown_set (lo : ℕ) (f : ℕ → List α → α) (n : ℕ) (s : List α) :
    (forDown lo (fun i t => t.set i (f i t)) n s).length = s.length := by
  induction n generalizing s with
  | zero => rfl
  | succ n ih =>
    simp only [forDown]
    split_ifs
    · simp [ih]
    · rfl

/-- A descending sweep that overwrites slot `i` from slots at or below `i` computes every new
slot from the list it started with. -/
theorem getD_forDown_set (lo : ℕ) (d : α) (f : ℕ → List α → α)
    (hf : ∀ i s t, (∀ j ≤ i, s.getD j d = t.getD j d) → f i s = f i t)
    (n : ℕ) (s : List α) (hn : n ≤ s.length) (j : ℕ) :
    (forDown lo (fun i t => t.set i (f i t)) n s).getD j d =
      if lo ≤ j ∧ j < n then f j s else s.getD j d := by
  induction n generalizing s with
  | zero => simp [forDown]
  | succ n ih =>
    simp only [forDown]
    split_ifs with hlo hj hj
    · rw [ih (s.set n (f n s)) (by simp; omega)]
      by_cases hjn : j = n
      · subst hjn
        rw [if_neg (by omega), getD_set s j j _ d (by omega), if_pos rfl]
      · have hlt : lo ≤ j ∧ j < n := by omega
        rw [if_pos hlt]
        apply hf
        intro k hk
        rw [getD_set s n k _ d (by omega), if_neg (by omega)]
    · rw [ih (s.set n (f n s)) (by simp; omega), if_neg (by omega),
        getD_set s n j _ d (by omega), if_neg (by omega)]
    · omega
    · rfl

theorem length_forUp_set : (forUp (fun i t => t.set i a) n s).length = s.length := by
  induction n with
  | zero => rfl
  | succ n ih => simp [forUp, ih]

theorem getD_forUp_set (hn : n ≤ s.length) (j : ℕ) :
    (forUp (fun i t => t.set i a) n s).getD j d = if j < n then a else s.getD j d := by
  induction n with
  | zero => simp [forUp]
  | succ n ih =>
    have hlen := length_forUp_set a n s
    simp only [forUp]
    rw [getD_set _ n j a d (by omega), ih (by omega)]
    split_ifs <;> first | rfl | omega

end Outbound.Loop
