import Mathlib.Algebra.BigOperators.Group.List.Basic
import Mathlib.Tactic.Ring

/-! Cutting a list into windows of bounded length, and collecting numbered pieces in slots until
every slot is filled. -/
namespace Outbound.Lib

open List

variable {α β σ : Type*}

def chunk (k : ℕ) (l : List α) (j : ℕ) : List α := (l.drop (j * k)).take k

/-- How many windows of width `k` cover `n` elements. -/
def chunkCount (k n : ℕ) : ℕ := (n + k - 1) / k

variable (a : α) (n : ℕ) {k : ℕ}

theorem lt_chunkCount_iff (hk : 0 < k) (n j : ℕ) : j < chunkCount k n ↔ j * k < n := by
  unfold chunkCount
  rw [Nat.lt_iff_add_one_le, Nat.le_div_iff_mul_le hk, Nat.succ_mul]
  omega

theorem le_chunkCount_mul (hk : 0 < k) (n : ℕ) : n ≤ chunkCount k n * k := by
  have h := (lt_chunkCount_iff hk n (chunkCount k n)).not
  omega

theorem chunkCount_eq_div (hk : 0 < k) (n : ℕ) :
    chunkCount k n = if n % k = 0 then n / k else n / k + 1 := by
  have hdiv := Nat.div_add_mod n k
  have hmod := Nat.mod_lt n hk
  unfold chunkCount
  split_ifs with h
  · rw [Nat.div_eq_of_lt_le]
    · rw [Nat.mul_comm]
      omega
    · rw [Nat.succ_mul, Nat.mul_comm]
      omega
  · rw [Nat.div_eq_of_lt_le]
    · rw [Nat.succ_mul, Nat.mul_comm]
      omega
    · rw [Nat.succ_mul, Nat.succ_mul, Nat.mul_comm]
      omega

theorem length_chunk (k : ℕ) (l : List α) (j : ℕ) :
    (chunk k l j).length = min k (l.length - j * k) := by
  simp [chunk]

theorem length_chunk_le (k : ℕ) (l : List α) (j : ℕ) : (chunk k l j).length ≤ k := by
  rw [length_chunk]
  omega

theorem length_chunk_pos (hk : 0 < k) {l : List α} {j : ℕ}
    (hj : j < chunkCount k l.length) : 0 < (chunk k l j).length := by
  have hlt := (lt_chunkCount_iff hk l.length j).mp hj
  rw [length_chunk]
  omega

theorem flatten_chunks_eq_take (k : ℕ) (l : List α) (n : ℕ) :
    ((range n).map (chunk k l)).flatten = l.take (n * k) := by
  induction n with
  | zero => simp
  | succ n ih =>
    rw [range_succ, map_append, flatten_append, ih, Nat.succ_mul, take_add]
    simp [chunk]

theorem flatten_chunks (hk : 0 < k) (l : List α) :
    ((range (chunkCount k l.length)).map (chunk k l)).flatten = l := by
  rw [flatten_chunks_eq_take]
  exact take_of_length_le (le_chunkCount_mul hk l.length)

theorem take_window (k : ℕ) (l : List α) (j : ℕ) :
    (l.drop (j * k)).take (min k (l.length - j * k)) = chunk k l j := by
  simp [chunk]

def chunks (k : ℕ) (l : List α) : List (List α) :=
  (range (chunkCount k l.length)).map (chunk k l)

theorem ne_nil_of_mem_chunks (hk : 0 < k) {l c : List α} (h : c ∈ chunks k l) : c ≠ [] := by
  obtain ⟨j, hj, rfl⟩ := mem_map.mp h
  exact ne_nil_of_length_pos (length_chunk_pos hk (mem_range.mp hj))

theorem length_le_of_mem_chunks {l c : List α} (h : c ∈ chunks k l) : c.length ≤ k := by
  obtain ⟨j, _, rfl⟩ := mem_map.mp h
  exact length_chunk_le k l j

/-- `for off := 0; off < n; off += size`, where `size` is what is left, but at most `k`. -/
def cutLoop (k n : ℕ) (body : ℕ → ℕ → σ → σ) : ℕ → ℕ → σ → σ
  | 0, _, s => s
  | fuel + 1, off, s =>
    if off < n then
      let left := n - off
      let size := if left > k then k else left
      cutLoop k n body fuel (off + size) (body off size s)
    else s

/-- The loop runs its body once for every window. -/
theorem cutLoop_eq_foldl (hk : 0 < k) (n : ℕ) (body : ℕ → ℕ → σ → σ) (fuel i : ℕ) (s : σ)
    (hfuel : n ≤ fuel + i * k) (hi : i ≤ chunkCount k n) :
    cutLoop k n body fuel (min n (i * k)) s =
      (range' i (chunkCount k n - i)).foldl
        (fun s j => body (j * k) (min k (n - j * k)) s) s := by
  induction fuel generalizing i s with
  | zero =>
    have hge : ¬ i < chunkCount k n := by
      rw [lt_chunkCount_iff hk]
      omega
    have hzero : chunkCount k n - i = 0 := by omega
    rw [hzero]
    rfl
  | succ fuel ih =>
    unfold cutLoop
    by_cases hlt : i * k < n
    · have hcount := (lt_chunkCount_iff hk n i).mpr hlt
      have hmin : min n (i * k) = i * k := by omega
      have hnext : i * k + (if n - i * k > k then k else n - i * k) = min n ((i + 1) * k) := by
        rw [Nat.succ_mul]
        split_ifs <;> omega
      have hsize : (if n - i * k > k then k else n - i * k) = min k (n - i * k) := by
        split_ifs <;> omega
      have hrange : chunkCount k n - i = (chunkCount k n - (i + 1)) + 1 := by omega
      rw [hmin, if_pos hlt, hrange, range'_succ, foldl_cons]
      simp only [hnext]
      rw [hsize]
      apply ih
      · omega
      · omega
    · have hge : ¬ i < chunkCount k n := by rwa [lt_chunkCount_iff hk]
      have hzero : chunkCount k n - i = 0 := by omega
      rw [if_neg (by omega), hzero]
      rfl

variable (slots : List (Option α))

def filled : ℕ := slots.countP Option.isSome

def contents : List α := slots.filterMap id

@[simp] theorem contents_cons_none :
    contents (none :: slots) = contents slots := rfl

@[simp] theorem contents_cons_some :
    contents (some a :: slots) = a :: contents slots := rfl

def Holds (i : ℕ) : Prop := ∃ a, slots[i]? = some (some a)

variable {slots} {i : ℕ}

theorem getElem?_of_not_holds (hi : i < slots.length)
    (h : ¬ Holds slots i) : slots[i]? = some none := by
  rw [getElem?_eq_getElem hi]
  cases hs : slots[i] with
  | none => rfl
  | some a => exact absurd ⟨a, by rw [getElem?_eq_getElem hi, hs]⟩ h

theorem holds_set_iff (hi : i < slots.length) (a : α) (j : ℕ) :
    Holds (slots.set i (some a)) j ↔ j = i ∨ Holds slots j := by
  by_cases hij : j = i
  · subst hij
    simp [Holds, hi]
  · have hne : i ≠ j := fun h => hij h.symm
    simp [Holds, hij, getElem?_set_ne hne]

@[simp] theorem filled_replicate_none : filled (replicate n (none : Option α)) = 0 := by
  simp [filled, countP_replicate]

@[simp] theorem contents_replicate_none : contents (replicate n (none : Option α)) = [] := by
  induction n with
  | zero => rfl
  | succ n ih => rw [replicate_succ, contents_cons_none, ih]

theorem not_holds_replicate_none (i : ℕ) : ¬ Holds (replicate n (none : Option α)) i := by
  rintro ⟨a, ha⟩
  have hmem := mem_of_getElem? ha
  simp at hmem

theorem forall_of_set {P : ℕ → α → Prop} {a : α}
    (hlt : i < slots.length) (ha : P i a) (h : ∀ j b, slots[j]? = some (some b) → P j b) (j : ℕ)
    (b : α) (hb : (slots.set i (some a))[j]? = some (some b)) : P j b := by
  by_cases hji : j = i
  · subst hji
    rw [getElem?_set_self hlt, Option.some.injEq, Option.some.injEq] at hb
    rwa [← hb]
  · rw [getElem?_set_ne (fun hij => hji hij.symm)] at hb
    exact h j b hb

section

variable (h : slots[i]? = some none)

include h

theorem filled_set (a : α) : filled (slots.set i (some a)) = filled slots + 1 := by
  induction slots generalizing i with
  | nil => simp at h
  | cons s slots ih =>
    cases i with
    | zero =>
      have hs : s = none := by simpa using h
      subst hs
      simp [filled]
    | succ i =>
      have hi : slots[i]? = some none := by simpa using h
      have hset := ih hi
      simp only [filled] at hset
      simp only [filled, set_cons_succ, countP_cons, hset]
      omega

theorem contents_set_perm (a : α) :
    (contents (slots.set i (some a))).Perm (a :: contents slots) := by
  induction slots generalizing i with
  | nil => simp at h
  | cons s slots ih =>
    cases i with
    | zero =>
      have hs : s = none := by simpa using h
      subst hs
      exact .refl _
    | succ i =>
      have hi : slots[i]? = some none := by simpa using h
      cases s with
      | none => exact ih hi
      | some b => exact ((ih hi).cons b).trans (.swap a b _)

theorem sum_contents_set (a : α) (f : α → ℕ) :
    ((contents (slots.set i (some a))).map f).sum = ((contents slots).map f).sum + f a := by
  have hperm := ((contents_set_perm h a).map f).sum_eq
  rw [hperm, map_cons, sum_cons, Nat.add_comm]

end

theorem mem_contents {a : α} : a ∈ contents slots ↔ ∃ i : ℕ, slots[i]? = some (some a) := by
  rw [contents, mem_filterMap]
  simp only [id_eq, exists_eq_right]
  exact mem_iff_getElem?

theorem map_some_contents (h : (contents slots).length = slots.length) :
    (contents slots).map some = slots := by
  have hall := filterMap_length_eq_length.mp h
  rw [contents, map_filterMap]
  refine (filterMap_congr fun x hx => ?_).trans filterMap_some
  obtain ⟨a, rfl⟩ := Option.isSome_iff_exists.mp (hall x hx)
  rfl

/-- Every slot is filled exactly when the count has reached the number of slots. -/
theorem filled_eq_length_iff : filled slots = slots.length ↔ ∀ i < slots.length, Holds slots i := by
  rw [filled, countP_eq_length]
  constructor
  · intro h i hi
    obtain ⟨a, ha⟩ := Option.isSome_iff_exists.mp (h _ (getElem_mem hi))
    exact ⟨a, by rw [getElem?_eq_getElem hi, ha]⟩
  · intro h s hs
    obtain ⟨i, hi, rfl⟩ := mem_iff_getElem.mp hs
    obtain ⟨a, ha⟩ := h i hi
    rw [getElem?_eq_getElem hi, Option.some.injEq] at ha
    rw [ha]
    rfl

theorem map_contents_of_full (f : α → β) (g : ℕ → β) (slots : List (Option α))
    (h : ∀ i < slots.length, ∃ a, slots[i]? = some (some a) ∧ f a = g i) :
    (contents slots).map f = (range slots.length).map g := by
  induction slots generalizing g with
  | nil => rfl
  | cons s slots ih =>
    obtain ⟨a, ha, hfa⟩ := h 0 (by simp)
    have hs : s = some a := by simpa using ha
    subst hs
    have htail := ih (fun i => g (i + 1)) (fun i hi => h (i + 1) (by simpa using hi))
    simp [contents_cons_some, map_cons, htail, length_cons, range_succ_eq_map, map_map, hfa]

end Outbound.Lib
