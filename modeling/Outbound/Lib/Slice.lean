import Mathlib.Data.List.Basic

/-! Writing into a slice, with the bounds checks of the language: `none` where it panics. -/
namespace Outbound.Lib

open List

variable {α : Type*} (dst : List α)

def putAt (off : ℕ) (src : List α) : Option (List α) :=
  if off + src.length ≤ dst.length then some (dst.take off ++ src ++ dst.drop (off + src.length))
  else none

/-- `copy(dst[off:], src)`: as many elements as there is room for. -/
def copyAt (off : ℕ) (src : List α) : Option (List α) :=
  if off ≤ dst.length then putAt dst off (src.take (dst.length - off)) else none

/-- `l[i:]`. -/
def sliceFrom (l : List α) (i : ℕ) : Option (List α) := if i ≤ l.length then some (l.drop i) else none

/-- `l[i:j]`. -/
def sliceBetween (l : List α) (i j : ℕ) : Option (List α) :=
  if i ≤ j ∧ j ≤ l.length then some ((l.drop i).take (j - i)) else none

variable {off : ℕ}

theorem length_putAt {dst dst' src : List α} (h : putAt dst off src = some dst') :
    dst'.length = dst.length ∧ off + src.length ≤ dst.length := by
  unfold putAt at h
  split_ifs at h with hroom
  · cases h
    refine ⟨?_, hroom⟩
    simp only [length_append, length_take, length_drop]
    omega

theorem length_copyAt {dst dst' src : List α} (h : copyAt dst off src = some dst') :
    dst'.length = dst.length := by
  unfold copyAt at h
  split_ifs at h
  · exact (length_putAt h).1

variable {b : List α}

/-- What stands where `src` goes is replaced, and nothing else. -/
theorem putAt_append (a : List α) (c src : List α) (hoff : a.length = off)
    (h : b.length = src.length) : putAt (a ++ (b ++ c)) off src = some (a ++ (src ++ c)) := by
  have hroom : off + src.length ≤ (a ++ (b ++ c)).length := by
    simp only [length_append]
    omega
  have hdrop : (a ++ (b ++ c)).drop (off + src.length) = c := by
    rw [← append_assoc]
    apply drop_left'
    rw [length_append]
    omega
  rw [putAt, if_pos hroom, hdrop, take_left' hoff, append_assoc]

theorem putAt_front (front tail src : List α) (h : src.length ≤ tail.length) :
    putAt (front ++ tail) front.length src = some (front ++ (src ++ tail.drop src.length)) := by
  have hsplit : tail = tail.take src.length ++ tail.drop src.length :=
    (take_append_drop src.length tail).symm
  nth_rewrite 1 [hsplit]
  apply putAt_append front _ _ rfl
  rw [length_take]
  omega

theorem putAt_zero (c src : List α) (h : b.length = src.length) :
    putAt (b ++ c) 0 src = some (src ++ c) :=
  putAt_append [] c src rfl h

theorem copyAt_append (a : List α) (c src : List α) (hoff : a.length = off)
    (h : b.length = src.length) : copyAt (a ++ (b ++ c)) off src = some (a ++ (src ++ c)) := by
  have hle : off ≤ (a ++ (b ++ c)).length := by
    rw [length_append]
    omega
  have htake : src.take ((a ++ (b ++ c)).length - off) = src := by
    apply take_of_length_le
    simp only [length_append]
    omega
  rw [copyAt, if_pos hle, htake, putAt_append a c src hoff h]

theorem putAt_drop (front b src : List α) {k : ℕ} (hk : front.length = k)
    (h : k + src.length ≤ b.length) :
    putAt (front ++ b.drop k) k src = some (front ++ src ++ b.drop (k + src.length)) := by
  subst hk
  rw [putAt_front front _ _ (by rw [length_drop]; omega), drop_drop, append_assoc]

theorem copyAt_drop (front b src : List α) {k : ℕ} (hk : front.length = k)
    (h : k + src.length ≤ b.length) :
    copyAt (front ++ b.drop k) k src = some (front ++ src ++ b.drop (k + src.length)) := by
  have hlen : (front ++ b.drop k).length = b.length := by
    rw [length_append, length_drop]
    omega
  rw [copyAt, if_pos (by omega), take_of_length_le (by omega), putAt_drop front b src hk h]

/-- A slice as the part in front of a position, a number of elements from there, and the rest. -/
theorem exists_three_parts (off k : ℕ) (h : off + k ≤ dst.length) :
    ∃ a b c, dst = a ++ (b ++ c) ∧ a.length = off ∧ b.length = k := by
  refine ⟨dst.take off, (dst.drop off).take k, (dst.drop off).drop k, ?_, ?_, ?_⟩
  · rw [take_append_drop, take_append_drop]
  · rw [length_take]
    omega
  · rw [length_take, length_drop]
    omega

end Outbound.Lib
