import Mathlib.Data.List.Basic

/-! Byte streams that arrive in chunks, and reading an exact number of elements from one. -/
namespace Outbound.Lib

open List

variable {α σ τ : Type*}

/-- One call of `Read` with room for `l` elements: nothing at the end of the stream. -/
abbrev ReadFn (α σ : Type*) := σ → ℕ → Option (List α × σ)

/-- The reader `read` hands out the list `rest` from its front, some elements a call, and leaves
`side` alone. -/
structure Streams (read : ReadFn α σ) (rest : σ → List α) (side : σ → τ) : Prop where
  zero : ∀ s, read s 0 = some ([], s)
  done : ∀ s l, 0 < l → rest s = [] → read s l = none
  more : ∀ s l, 0 < l → rest s ≠ [] → ∃ b s', read s l = some (b, s') ∧ b ≠ [] ∧ b.length ≤ l ∧
    rest s = b ++ rest s' ∧ side s' = side s

/-- `io.ReadFull`: read until `k` elements are there or the stream ends. -/
def readFull (read : ReadFn α σ) : ℕ → ℕ → List α → σ → List α × σ
  | 0, _, acc, s => (acc, s)
  | fuel + 1, k, acc, s =>
    if k = 0 then (acc, s)
    else
      match read s k with
      | none => (acc, s)
      | some (b, s') => readFull read fuel (k - b.length) (acc ++ b) s'

namespace Streams

variable {read : ReadFn α σ} {rest : σ → List α} {side : σ → τ}

section

variable (h : Streams read rest side)

include h

theorem readFull_acc (fuel k : ℕ) (acc : List α) (s : σ) (hfuel : k ≤ fuel) :
    ∃ s', readFull read fuel k acc s = (acc ++ (rest s).take k, s') ∧
      rest s' = (rest s).drop k ∧ side s' = side s := by
  induction fuel generalizing k acc s with
  | zero =>
    have hk : k = 0 := by omega
    subst hk
    exact ⟨s, by simp [readFull], rfl, rfl⟩
  | succ fuel ih =>
    unfold readFull
    by_cases hk : k = 0
    · subst hk
      exact ⟨s, by simp, rfl, rfl⟩
    rw [if_neg hk]
    by_cases hs : rest s = []
    · rw [h.done s k (by omega) hs]
      exact ⟨s, by simp [hs], by simp [hs], rfl⟩
    · obtain ⟨b, s', hread, hne, hlen, hrest, hside⟩ := h.more s k (by omega) hs
      have hpos := length_pos_of_ne_nil hne
      obtain ⟨s'', hfull, hrest', hside'⟩ := ih (k - b.length) (acc ++ b) s' (by omega)
      rw [hread]
      refine ⟨s'', ?_, ?_, hside'.trans hside⟩
      · rwa [hrest, take_append, take_of_length_le hlen, ← append_assoc]
      · rw [hrest', hrest, drop_append, drop_of_length_le hlen, nil_append]

/-- Reading exactly `k` elements takes the first `k` elements of the stream. -/
theorem readFull_eq (k : ℕ) (s : σ) :
    ∃ s', readFull read k k [] s = ((rest s).take k, s') ∧ rest s' = (rest s).drop k ∧
      side s' = side s :=
  h.readFull_acc k k [] s (Nat.le_refl k)

theorem readFull_append {a b : List α} {k : ℕ} (hk : a.length = k) {s : σ} (hs : rest s = a ++ b) :
    ∃ s', readFull read k k [] s = (a, s') ∧ rest s' = b ∧ side s' = side s := by
  obtain ⟨s', hfull, hrest, hside⟩ := h.readFull_eq k s
  rw [hs, take_left' hk] at hfull
  rw [hs, drop_left' hk] at hrest
  exact ⟨s', hfull, hrest, hside⟩

theorem readFull_nil (k : ℕ) {s : σ} (hs : rest s = []) :
    ∃ s', readFull read k k [] s = ([], s') ∧ rest s' = [] ∧ side s' = side s := by
  obtain ⟨s', hfull, hrest, hside⟩ := h.readFull_eq k s
  rw [hs, take_nil] at hfull
  rw [hs, drop_nil] at hrest
  exact ⟨s', hfull, hrest, hside⟩

end

end Streams

/-- A stream as the chunks it arrives in. -/
structure Source (α : Type*) where
  chunks : List (List α)
  nonempty : ∀ c ∈ chunks, c ≠ []

namespace Source

def rest (s : Source α) : List α := s.chunks.flatten

variable {cs : List (List α)}

theorem nonempty_tail {c : List α} (h : ∀ d ∈ c :: cs, d ≠ []) :
    ∀ d ∈ cs, d ≠ [] := fun d hd => h d (mem_cons_of_mem c hd)

theorem nonempty_cut {c : List α} (h : ∀ d ∈ c :: cs, d ≠ []) {l : ℕ}
    (hc : ¬ c.length ≤ l) : ∀ d ∈ c.drop l :: cs, d ≠ [] := by
  exact forall_mem_cons.mpr ⟨mt drop_eq_nil_iff.mp hc, nonempty_tail h⟩

/-- A call gets what is left of the first chunk, as far as it fits. -/
def read : ReadFn α (Source α)
  | s, 0 => some ([], s)
  | ⟨[], _⟩, _ + 1 => none
  | ⟨c :: cs, h⟩, l + 1 =>
    if hc : c.length ≤ l + 1 then some (c, ⟨cs, nonempty_tail h⟩)
    else some (c.take (l + 1), ⟨c.drop (l + 1) :: cs, nonempty_cut h hc⟩)

def ofList [DecidableEq α] (l : List α) : Source α :=
  if h : l = [] then ⟨[], by simp⟩ else ⟨[l], by simpa using h⟩

@[simp] theorem rest_ofList [DecidableEq α] (l : List α) : (ofList l).rest = l := by
  unfold ofList rest
  split_ifs with h
  · simp [h]
  · simp

theorem streams : Streams (read (α := α)) rest (fun _ => ()) := by
  constructor
  · intro s
    rcases s with ⟨_ | ⟨c, cs⟩, h⟩ <;> rfl
  · rintro ⟨cs, h⟩ l hl hrest
    cases cs with
    | nil =>
      obtain ⟨l, rfl⟩ := Nat.exists_eq_succ_of_ne_zero (Nat.ne_of_gt hl)
      rfl
    | cons c cs =>
      have hc : c = [] := (append_eq_nil_iff.mp hrest).1
      exact absurd hc (h c mem_cons_self)
  · rintro ⟨cs, h⟩ l hl hrest
    obtain ⟨l, rfl⟩ := Nat.exists_eq_succ_of_ne_zero (Nat.ne_of_gt hl)
    cases cs with
    | nil => exact absurd rfl hrest
    | cons c cs =>
      have hc := h c mem_cons_self
      by_cases hlen : c.length ≤ l + 1
      · exact ⟨c, ⟨cs, nonempty_tail h⟩, by simp [read, hlen], hc, hlen, rfl, rfl⟩
      · refine ⟨c.take (l + 1), ⟨c.drop (l + 1) :: cs, nonempty_cut h hlen⟩,
          by simp [read, hlen], ?_, ?_, ?_, rfl⟩
        · apply ne_nil_of_length_pos
          rw [length_take]
          omega
        · rw [length_take]
          omega
        · simp only [rest, flatten_cons]
          rw [← append_assoc, take_append_drop]

end Source

end Outbound.Lib
