import Mathlib.Data.List.Basic

/-! A memory of cells with addresses, and the pieces of it that slices stand for. -/
namespace Outbound.Lib.Memory

open List

variable {α : Type*}

def load (m : ℕ → α) (off n : ℕ) : List α := (range n).map fun i => m (off + i)

def store (m : ℕ → α) (off : ℕ) (b : List α) : ℕ → α :=
  fun a => if off ≤ a then b[a - off]?.getD (m a) else m a

variable (m : ℕ → α) (off : ℕ)

@[simp] theorem length_load (n : ℕ) : (load m off n).length = n := by
  simp [load]

theorem load_add (k n : ℕ) : load m off (k + n) = load m off k ++ load m (off + k) n := by
  simp only [load, range_add, map_append, map_map, Function.comp_def, Nat.add_assoc]

variable {b : List α}

theorem store_of_outside {a : ℕ} (h : a < off ∨ off + b.length ≤ a) : store m off b a = m a := by
  unfold store
  split_ifs with hle
  · rw [getElem?_eq_none (by omega), Option.getD_none]
  · rfl

theorem load_store_of_le {i n : ℕ} (h : i + n ≤ off) : load (store m off b) i n = load m i n := by
  refine map_congr_left fun j hj => store_of_outside m off (.inl ?_)
  have := mem_range.mp hj
  omega

theorem store_add {i : ℕ} (h : i < b.length) : store m off b (off + i) = b[i] := by
  have hsub : off + i - off = i := by omega
  simp [store, hsub, getElem?_eq_getElem h, Option.getD_some]

theorem load_store {i n : ℕ} (h : i + n ≤ b.length) :
    load (store m off b) (off + i) n = (b.drop i).take n := by
  apply ext_getElem
  · rw [length_load, length_take, length_drop]
    omega
  · intro j hj _
    rw [length_load] at hj
    have hlt : i + j < b.length := by omega
    simp only [load, getElem_map, getElem_range, getElem_take, getElem_drop]
    rw [Nat.add_assoc, store_add m off hlt]

theorem load_store_self (b : List α) : load (store m off b) off b.length = b := by
  have h := load_store m off (b := b) (i := 0) (n := b.length) (by omega)
  rwa [Nat.add_zero, drop_zero, take_length] at h

end Outbound.Lib.Memory
