import Mathlib.Algebra.Order.Group.Int
import Mathlib.Data.List.GetD
import Outbound.Lib.Loop
import Outbound.Lib.Run

/-! The growable ring buffer of the BBR sampler and its refinement to a first-in first-out list.
`none` stands for a panic of the source. -/
namespace Outbound.Bbr

open List Bool
open Outbound.Loop

variable {α : Type*}

structure RingBuffer (α : Type*) where
  ring : List α
  headPos : ℕ
  tailPos : ℕ
  full : Bool
deriving DecidableEq, Repr

namespace RingBuffer

variable (r : RingBuffer α)

def cap : ℕ := r.ring.length

def len : ℕ :=
  if r.full then r.ring.length
  else if r.headPos ≤ r.tailPos then r.tailPos - r.headPos
  else r.tailPos + r.ring.length - r.headPos

def empty : Bool := !r.full && r.headPos == r.tailPos

/-- What the source keeps true of its indices: an empty array has both at zero. -/
structure WF : Prop where
  headPos_lt : r.headPos < r.ring.length ∨ (r.ring.length = 0 ∧ r.headPos = 0)
  tailPos_lt : r.tailPos < r.ring.length ∨ (r.ring.length = 0 ∧ r.tailPos = 0)
  full_eq : r.full = true → r.headPos = r.tailPos ∧ 0 < r.ring.length

variable {r}

theorem WF.len_le (h : r.WF) : r.len ≤ r.ring.length := by
  have ht := h.tailPos_lt
  unfold len
  split_ifs <;> omega

theorem WF.empty_iff (h : r.WF) : r.empty = true ↔ r.len = 0 := by
  have hh := h.headPos_lt
  have hf := h.full_eq
  unfold empty len
  cases hfull : r.full
  · simp only [Bool.not_false, Bool.true_and, beq_iff_eq, Bool.false_eq_true, if_false]
    split_ifs <;> omega
  · have := hf hfull
    simp only [Bool.not_true, Bool.false_and, Bool.false_eq_true, if_true, false_iff]
    omega

private theorem tailPos_eq (h : r.WF) (hfull : r.full = false) :
    r.tailPos = if r.headPos + r.len < r.ring.length then r.headPos + r.len
      else r.headPos + r.len - r.ring.length := by
  have hh := h.headPos_lt
  have ht := h.tailPos_lt
  unfold len
  simp only [hfull, false_eq_true, if_false]
  split_ifs <;> omega

private theorem room_iff :
    (r.full || r.ring.length == 0) = false ↔ r.full = false ∧ 0 < r.ring.length := by
  rw [or_eq_false_iff, beq_eq_false_iff_ne, Nat.pos_iff_ne_zero]

variable [Inhabited α]

def init (size : ℕ) : RingBuffer α := ⟨replicate size default, 0, 0, false⟩

variable (r)

def grow : RingBuffer α :=
  let newSize := if r.ring.length * 2 = 0 then 1 else r.ring.length * 2
  { ring := r.ring.drop r.headPos ++ r.ring.take r.headPos ++
      replicate (newSize - r.ring.length) default
    headPos := 0
    tailPos := r.ring.length
    full := false }

def pushBack (t : α) : RingBuffer α :=
  let r := if r.full || r.ring.length == 0 then r.grow else r
  let tailPos := if r.tailPos + 1 = r.ring.length then 0 else r.tailPos + 1
  { r with
    ring := r.ring.set r.tailPos t
    tailPos := tailPos
    full := if tailPos = r.headPos then true else r.full }

def popFront : Option (α × RingBuffer α) :=
  if r.empty then none
  else some (r.ring.getD r.headPos default,
    { r with
      ring := r.ring.set r.headPos default
      headPos := if r.headPos + 1 = r.ring.length then 0 else r.headPos + 1
      full := false })

/-- The array index behind a logical index. A negative index panics unless it happens to land
inside the array. -/
def offsetPos (index : ℤ) : Option ℕ :=
  if r.empty || decide ((r.len : ℤ) ≤ index) then none
  else
    let offset := ((r.headPos : ℤ) + index).tmod r.ring.length
    if offset < 0 then none else some offset.toNat

def offset (index : ℤ) : Option α :=
  (r.offsetPos index).map fun i => r.ring.getD i default

def setOffset (index : ℤ) (t : α) : Option (RingBuffer α) :=
  (r.offsetPos index).map fun i => { r with ring := r.ring.set i t }

def front : Option α :=
  if r.empty then none else some (r.ring.getD r.headPos default)

def back : Option α :=
  if r.empty then none else r.offset ((r.len : ℤ) - 1)

def clear : RingBuffer α := init r.ring.length

def live : List α :=
  let n := r.len
  if r.headPos + n ≤ r.ring.length then (r.ring.drop r.headPos).take n
  else r.ring.drop r.headPos ++ r.ring.take (n - (r.ring.length - r.headPos))

def shrinkTo (size : ℕ) : RingBuffer α :=
  let n := r.len
  if size < 1 ∨ size < n ∨ r.ring.length ≤ size then r
  else
    { ring := r.live ++ replicate (size - r.live.length) default
      headPos := 0
      tailPos := n % size
      full := n = size }

def slot (i : ℕ) : α :=
  r.ring.getD (if r.headPos + i < r.ring.length then r.headPos + i
    else r.headPos + i - r.ring.length) default

def toList : List α := (range r.len).map r.slot

@[simp] theorem toList_length : r.toList.length = r.len := by
  simp [toList]

theorem toList_getD (i : ℕ) (hi : i < r.len) (d : α) : r.toList.getD i d = r.slot i := by
  simp [toList, hi]

theorem toList_ext (l : List α) (hlen : r.len = l.length)
    (h : ∀ i, i < l.length → r.slot i = l.getD i default) : r.toList = l := by
  apply ext_getElem
  · simpa using hlen
  · intro i h1 h2
    have hs := h i h2
    simpa [toList, h2] using hs

theorem wf_init (size : ℕ) : (init size : RingBuffer α).WF := by
  refine ⟨?_, ?_, ?_⟩ <;> simp [init] <;> omega

@[simp] theorem toList_init (size : ℕ) : (init size : RingBuffer α).toList = [] := by
  simp [toList, init, len]

theorem wf_grow : r.grow.WF := by
  unfold grow
  constructor
  · simp only [length_append, length_drop, length_take, length_replicate]
    split_ifs <;> omega
  · simp only [length_append, length_drop, length_take, length_replicate]
    split_ifs <;> omega
  · simp

theorem length_ring_grow : r.ring.length < r.grow.ring.length := by
  unfold grow
  simp only [length_append, length_drop, length_take, length_replicate]
  split_ifs <;> omega

variable {r}

theorem toList_grow (h : r.WF) (hfull : r.len = r.ring.length) : r.grow.toList = r.toList := by
  have hh := h.headPos_lt
  have hring := length_ring_grow r
  have hlen : r.grow.len = r.ring.length := by simp [grow, len]
  have hrot : (r.ring.drop r.headPos ++ r.ring.take r.headPos).length = r.ring.length := by
    simp only [length_append, length_drop, length_take]
    omega
  apply toList_ext
  · rw [hlen, toList_length, hfull]
  · intro i hi
    rw [toList_length, hfull] at hi
    rw [toList_getD r i (by omega)]
    unfold slot
    rw [if_pos (show r.grow.headPos + i < r.grow.ring.length by simp only [grow] at hring ⊢; omega)]
    simp only [grow, Nat.zero_add]
    rw [getD_append _ _ _ _ (by omega)]
    by_cases hlt : i < (r.ring.drop r.headPos).length
    · rw [getD_append _ _ _ _ hlt]
      rw [length_drop] at hlt
      rw [if_pos (by omega)]
      simp
    · rw [getD_append_right _ _ _ _ (by omega)]
      rw [length_drop] at hlt ⊢
      rw [if_neg (by omega)]
      have htake : i - (r.ring.length - r.headPos) < r.headPos := by omega
      simp only [getD_eq_getElem?_getD, getElem?_take_of_lt htake]
      congr 2
      omega

private theorem pushBack_of_room (hfull : r.full = false)
    (hcap : 0 < r.ring.length) (t : α) (tailPos : ℕ)
    (htail : tailPos = if r.tailPos + 1 = r.ring.length then 0 else r.tailPos + 1) :
    r.pushBack t = ⟨r.ring.set r.tailPos t, r.headPos, tailPos, tailPos == r.headPos⟩ := by
  have hg := room_iff.mpr ⟨hfull, hcap⟩
  unfold pushBack
  simp only [hg, false_eq_true, if_false, ← htail]
  rw [hfull]
  by_cases he : tailPos = r.headPos <;> simp [he]

private theorem wf_pushBack_of_room (h : r.WF) (hfull : r.full = false)
    (hcap : 0 < r.ring.length) (t : α) : (r.pushBack t).WF := by
  have hh := h.headPos_lt
  have ht := h.tailPos_lt
  rw [pushBack_of_room hfull hcap t _ rfl]
  constructor
  · simpa using hh
  · simp only [length_set]
    split_ifs <;> omega
  · simp only [length_set, beq_iff_eq]
    exact fun hf => ⟨hf.symm, hcap⟩

private theorem toList_pushBack_of_room (h : r.WF) (hfull : r.full = false)
    (hcap : 0 < r.ring.length) (t : α) : (r.pushBack t).toList = r.toList ++ [t] := by
  have hh := h.headPos_lt
  have ht := h.tailPos_lt
  have htail := tailPos_eq h hfull
  have hlt : r.len < r.ring.length := by
    unfold len
    simp only [hfull, false_eq_true, if_false]
    split_ifs <;> omega
  have hpush := pushBack_of_room hfull hcap t _ rfl
  have hlen : (r.pushBack t).len = r.len + 1 := by
    rw [hpush]
    simp only [len, length_set, beq_iff_eq, hfull, false_eq_true, if_false]
    split_ifs <;> omega
  have hring : (r.pushBack t).ring = r.ring.set r.tailPos t := by rw [hpush]
  have hhead : (r.pushBack t).headPos = r.headPos := by rw [hpush]
  apply toList_ext
  · simp [hlen]
  · intro i hi
    simp only [length_append, toList_length, length_singleton] at hi
    unfold slot
    rw [hring, hhead, length_set, getD_set _ _ _ _ _ (by omega)]
    by_cases hil : i < r.len
    · rw [getD_append _ _ _ _ (by simpa using hil), toList_getD r i hil, slot]
      rw [if_neg]
      split_ifs at htail ⊢ <;> omega
    · have hie : i = r.len := by omega
      rw [getD_append_right _ _ _ _ (by simpa using hil), if_pos (by rw [hie, htail])]
      simp [hie]

theorem pushBack_eq_grow (r : RingBuffer α) (t : α) (hg : (r.full || r.ring.length == 0) = true)
    (hg' : (r.grow.full || r.grow.ring.length == 0) = false) :
    r.pushBack t = r.grow.pushBack t := by
  unfold pushBack
  simp [hg, hg']

private theorem needs_grow (h : r.WF) (hg : (r.full || r.ring.length == 0) = true) :
    (r.grow.full || r.grow.ring.length == 0) = false ∧ r.len = r.ring.length ∧
      0 < r.grow.ring.length := by
  have hring := length_ring_grow r
  have hle := h.len_le
  refine ⟨room_iff.mpr ⟨rfl, by omega⟩, ?_, by omega⟩
  · rcases or_eq_true_iff.mp hg with hf | hz
    · simp [len, hf]
    · have : r.ring.length = 0 := by simpa using hz
      omega

theorem wf_pushBack (h : r.WF) (t : α) : (r.pushBack t).WF := by
  by_cases hg : (r.full || r.ring.length == 0) = true
  · obtain ⟨hg', -, hcap⟩ := needs_grow h hg
    rw [pushBack_eq_grow r t hg hg']
    exact wf_pushBack_of_room (wf_grow r) rfl hcap t
  · obtain ⟨hf, hc⟩ := room_iff.mp (by simpa using hg)
    exact wf_pushBack_of_room h hf hc t

theorem toList_pushBack (h : r.WF) (t : α) : (r.pushBack t).toList = r.toList ++ [t] := by
  by_cases hg : (r.full || r.ring.length == 0) = true
  · obtain ⟨hg', hlen, hcap⟩ := needs_grow h hg
    rw [pushBack_eq_grow r t hg hg', toList_pushBack_of_room (wf_grow r) rfl hcap t,
      toList_grow h hlen]
  · obtain ⟨hf, hc⟩ := room_iff.mp (by simpa using hg)
    exact toList_pushBack_of_room h hf hc t

theorem toList_eq_nil_iff (r : RingBuffer α) : r.toList = [] ↔ r.len = 0 := by
  rw [← length_eq_zero_iff, toList_length]

theorem empty_iff_toList (h : r.WF) : r.empty = true ↔ r.toList = [] := by
  rw [h.empty_iff, toList_eq_nil_iff]

theorem front_eq (h : r.WF) : r.front = r.toList.head? := by
  have hh := h.headPos_lt
  have hle := h.len_le
  unfold front
  split_ifs with he
  · rw [(empty_iff_toList h).mp he]
    rfl
  · have hlen : r.len ≠ 0 := fun hz => he (h.empty_iff.mpr hz)
    have hz : r.toList[0]? = some (r.slot 0) := by
      simp [toList, Nat.pos_of_ne_zero hlen]
    rw [head?_eq_getElem?, hz, slot, if_pos (by omega), Nat.add_zero]

theorem popFront_eq (h : r.WF) {a : α} {l : List α} (hl : r.toList = a :: l) :
    ∃ r', r.popFront = some (a, r') ∧ r'.WF ∧ r'.toList = l := by
  have hh := h.headPos_lt
  have ht := h.tailPos_lt
  have hle := h.len_le
  have hlen : r.len = l.length + 1 := by rw [← toList_length, hl]; rfl
  have he : ¬ r.empty = true := by rw [empty_iff_toList h, hl]; simp
  have hfront := front_eq h
  rw [hl, front, if_neg he] at hfront
  have ha : r.ring.getD r.headPos default = a := by simpa using hfront
  let r' : RingBuffer α :=
    { r with
      ring := r.ring.set r.headPos default
      headPos := if r.headPos + 1 = r.ring.length then 0 else r.headPos + 1
      full := false }
  have hlen' : r'.len = l.length := by
    have hf := h.full_eq
    dsimp only [r', len] at *
    rw [length_set]
    cases hfull : r.full <;> simp only [hfull, false_eq_true, if_false, if_true] at hlen ⊢
    · split_ifs at hlen ⊢ <;> omega
    · have := hf hfull
      split_ifs <;> omega
  refine ⟨r', ?_, ?_, ?_⟩
  · rw [popFront, if_neg he, ha]
  · constructor
    · simp only [r', length_set]
      split_ifs <;> omega
    · simpa only [r', length_set] using ht
    · simp [r']
  · apply toList_ext
    · exact hlen'
    · intro i hi
      have hs := toList_getD r (i + 1) (by omega) default
      rw [hl, getD_cons_succ] at hs
      rw [hs]
      unfold slot
      simp only [r', length_set]
      rw [getD_set _ _ _ _ _ (by omega), if_neg]
      · congr 1
        split_ifs <;> omega
      · split_ifs <;> omega

omit [Inhabited α] in
private theorem offsetPos_eq (h : r.WF) (i : ℕ) (hi : i < r.len) :
    r.offsetPos i = some (if r.headPos + i < r.ring.length then r.headPos + i
      else r.headPos + i - r.ring.length) := by
  have hh := h.headPos_lt
  have hle := h.len_le
  have he : r.empty = false := by
    rw [← not_eq_true, h.empty_iff]
    omega
  have hmod : ((r.headPos : ℤ) + i).tmod r.ring.length = ((r.headPos + i) % r.ring.length : ℕ) := by
    rw [← Int.natCast_add, Int.tmod_eq_emod_of_nonneg (Int.natCast_nonneg _), Int.natCast_mod]
  have hlt : decide ((r.len : ℤ) ≤ i) = false := by simpa using hi
  unfold offsetPos
  simp only [he, hlt, Bool.or_self, Bool.false_eq_true, if_false, hmod]
  rw [if_neg (by omega), Int.toNat_natCast]
  congr 1
  split_ifs with hw
  · exact Nat.mod_eq_of_lt hw
  · rw [Nat.mod_eq_sub_mod (by omega), Nat.mod_eq_of_lt (by omega)]

theorem offset_eq (h : r.WF) (i : ℕ) : r.offset i = r.toList[i]? := by
  unfold offset
  by_cases hi : i < r.len
  · rw [offsetPos_eq h i hi]
    simp [toList, hi, slot]
  · have hle : decide ((r.len : ℤ) ≤ i) = true := by simpa using hi
    have hnone : r.toList[i]? = none := by
      rw [getElem?_eq_none_iff, toList_length]
      omega
    rw [offsetPos, hle, Bool.or_true, if_pos rfl, hnone, Option.map_none]

theorem setOffset_eq (h : r.WF) (i : ℕ) (hi : i < r.len) (t : α) :
    ∃ r', r.setOffset i t = some r' ∧ r'.WF ∧ r'.toList = r.toList.set i t := by
  have hh := h.headPos_lt
  have hle := h.len_le
  let pos := if r.headPos + i < r.ring.length then r.headPos + i
    else r.headPos + i - r.ring.length
  have hpos : pos < r.ring.length := by
    dsimp only [pos]
    split_ifs <;> omega
  refine ⟨{ r with ring := r.ring.set pos t }, ?_, ?_, ?_⟩
  · rw [setOffset, offsetPos_eq h i hi]
    rfl
  · exact ⟨by simpa using h.headPos_lt, by simpa using h.tailPos_lt, by simpa using h.full_eq⟩
  · apply toList_ext
    · simp [len]
    · intro j hj
      simp only [length_set, toList_length] at hj
      rw [getD_set _ _ _ _ _ (by simpa using hi), toList_getD r j hj]
      unfold slot
      rw [length_set, getD_set _ _ _ _ _ hpos]
      dsimp only [pos]
      split_ifs <;> first | rfl | omega

omit [Inhabited α] in
private theorem len_rewound {ring : List α} {n size : ℕ} (hring : ring.length = size)
    (hn : n ≤ size) : len ⟨ring, 0, n % size, decide (n = size)⟩ = n := by
  unfold len
  rw [hring]
  by_cases hf : n = size
  · simp [hf]
  · simp only [hf, decide_false, false_eq_true, if_false, Nat.zero_le, if_true, Nat.sub_zero]
    exact Nat.mod_eq_of_lt (by omega)

theorem live_eq (h : r.WF) : r.live = r.toList := by
  have hh := h.headPos_lt
  have hle := h.len_le
  have hlen : r.live.length = r.len := by
    unfold live
    dsimp only
    split_ifs
    · rw [length_take, length_drop]; omega
    · rw [length_append, length_take, length_drop]; omega
  symm
  apply toList_ext
  · exact hlen.symm
  · intro i hi
    rw [hlen] at hi
    unfold live slot
    by_cases hw : r.headPos + r.len ≤ r.ring.length
    · rw [if_pos hw, if_pos (by omega)]
      simp only [getD_eq_getElem?_getD, getElem?_take_of_lt hi, getElem?_drop]
    rw [if_neg hw]
    split_ifs with hi'
    · rw [getD_append _ _ _ _ (by rw [length_drop]; omega)]
      simp
    · rw [getD_append_right _ _ _ _ (by rw [length_drop]; omega), length_drop]
      have htake : i - (r.ring.length - r.headPos) < r.len - (r.ring.length - r.headPos) := by omega
      simp only [getD_eq_getElem?_getD, getElem?_take_of_lt htake]
      congr 2
      omega

theorem shrinkTo_eq (h : r.WF) (size : ℕ) :
    (r.shrinkTo size).WF ∧ (r.shrinkTo size).toList = r.toList := by
  unfold shrinkTo
  dsimp only
  split_ifs with hs
  · exact ⟨h, rfl⟩
  have hlive : r.live.length = r.len := by rw [live_eq h, toList_length]
  have hring : (r.live ++ replicate (size - r.live.length) default).length = size := by
    rw [length_append, length_replicate]
    omega
  have hmod : r.len % size < size := Nat.mod_lt _ (by omega)
  constructor
  · constructor
    · rw [hring]; exact .inl (Nat.zero_lt_of_lt hmod)
    · rw [hring]; exact .inl hmod
    · intro hf
      have hf' : r.len = size := by simpa using hf
      rw [hring]
      exact ⟨by simp [hf'], by omega⟩
  · apply toList_ext
    · simpa using len_rewound hring (by omega)
    · intro i hi
      rw [toList_length] at hi
      rw [slot, hring, Nat.zero_add, if_pos (by omega), getD_append _ _ _ _ (by omega), live_eq h]

theorem back_eq (h : r.WF) : r.back = r.toList.getLast? := by
  rw [back, getLast?_eq_getElem?, toList_length]
  split_ifs with he
  · rw [(empty_iff_toList h).mp he]
    rfl
  · have hlen : r.len ≠ 0 := fun hz => he (h.empty_iff.mpr hz)
    rw [← offset_eq h, Int.ofNat_sub (Nat.pos_of_ne_zero hlen)]
    rfl

inductive Op (α : Type*) where
  | init (size : ℕ)
  | pushBack (t : α)
  | popFront
  | shrinkTo (size : ℤ)
  | clear
  | front
  | back
  | offset (i : ℕ)

/-- A call with the bounds of the slices and indices it takes; it panics where one is outside. -/
def step (r : RingBuffer α) : Op α → Option (Option α × RingBuffer α)
  | .init size => some (none, .init size)
  | .pushBack t =>
    let grown := if r.full || r.ring.length == 0 then r.grow else r
    if r.headPos ≤ r.ring.length ∧ grown.tailPos < grown.ring.length then some (none, r.pushBack t)
    else none
  | .popFront =>
    if !r.empty && r.ring.length ≤ r.headPos then none
    else r.popFront.map fun x => (some x.1, x.2)
  | .shrinkTo size =>
    if r.headPos ≤ r.ring.length ∧ r.len ≤ r.ring.length + (r.ring.length - r.headPos) then
      some (none, r.shrinkTo size.toNat)
    else none
  | .clear => some (none, r.clear)
  | .front =>
    if !r.empty && r.ring.length ≤ r.headPos then none else r.front.map fun a => (some a, r)
  | .back => r.back.map fun a => (some a, r)
  | .offset i => (r.offset i).map fun a => (some a, r)

/-- The same on a list: only reads of what is not there fail. -/
def listStep (l : List α) : Op α → Option (Option α × List α)
  | .init _ => some (none, [])
  | .pushBack t => some (none, l ++ [t])
  | .popFront => l.head?.map fun a => (some a, l.tail)
  | .shrinkTo _ => some (none, l)
  | .clear => some (none, [])
  | .front => l.head?.map fun a => (some a, l)
  | .back => l.getLast?.map fun a => (some a, l)
  | .offset i => l[i]?.map fun a => (some a, l)

theorem step_refines (h : r.WF) (op : Op α) :
    (r.step op).map (fun x => (x.1, x.2.toList)) = listStep r.toList op ∧
      ∀ x ∈ r.step op, x.2.WF := by
  have hh := h.headPos_lt
  have hle := h.len_le
  have hhead : (!r.empty && decide (r.ring.length ≤ r.headPos)) = false := by
    cases he : r.empty with
    | true => rfl
    | false =>
      have hlen := mt h.empty_iff.mpr (by rw [he]; decide)
      simp only [Bool.not_false, Bool.true_and, decide_eq_false_iff_not]
      omega
  cases op with
  | init size => simp [step, listStep, wf_init]
  | clear => simp [step, listStep, clear, wf_init]
  | pushBack t =>
    have hgrown : (if r.full || r.ring.length == 0 then r.grow else r).tailPos <
        (if r.full || r.ring.length == 0 then r.grow else r).ring.length := by
      split_ifs with hg
      · exact length_ring_grow r
      · have htail := h.tailPos_lt
        have hroom := (room_iff.mp (eq_false_iff.mpr hg)).2
        omega
    have hstep : r.step (.pushBack t) = some (none, r.pushBack t) := if_pos ⟨by omega, hgrown⟩
    simp [hstep, listStep, toList_pushBack h, wf_pushBack h]
  | shrinkTo size =>
    have hbounds : r.headPos ≤ r.ring.length ∧
        r.len ≤ r.ring.length + (r.ring.length - r.headPos) := by omega
    simp [step, listStep, hbounds, shrinkTo_eq h]
  | popFront =>
    simp only [step, hhead, Bool.false_eq_true, if_false, listStep]
    cases hl : r.toList with
    | nil => simp [popFront, (empty_iff_toList h).mpr hl]
    | cons a l =>
      obtain ⟨r', hpop, hwf, hl'⟩ := popFront_eq h hl
      simp [hpop, hwf, hl']
  | front => simp [step, hhead, listStep, front_eq h, h, Function.comp_def]
  | back => simp [step, listStep, back_eq h, h, Function.comp_def]
  | offset i => simp [step, listStep, offset_eq h, h, Function.comp_def]

/-- Whatever is called, a ring buffer answers as a list does, is as long and as empty as the list, and
panics only where the list has nothing to read. -/
theorem run_refines_list (size : ℕ) (ops : List (Op α)) :
    (Run.answersM step (init size) ops).map (fun x => (x.1, x.2.toList, x.2.len, x.2.empty)) =
      (Run.answersM listStep [] ops).map fun x => (x.1, x.2, x.2.length, x.2.isEmpty) := by
  suffices hrun : ∀ r : RingBuffer α, r.WF →
      (Run.answersM step r ops).map (fun x => (x.1, x.2.toList, x.2.len, x.2.empty)) =
        (Run.answersM listStep r.toList ops).map fun x => (x.1, x.2, x.2.length, x.2.isEmpty) by
    simpa using hrun (init size) (wf_init size)
  induction ops with
  | nil =>
    intro r h
    have hempty : r.empty = r.toList.isEmpty := by
      rw [Bool.eq_iff_iff, empty_iff_toList h, List.isEmpty_iff]
    simp [Run.answersM, hempty]
  | cons op ops ih =>
    intro r h
    obtain ⟨hstep, hwf⟩ := step_refines h op
    rw [Run.answersM, Run.answersM, ← hstep]
    cases hs : r.step op with
    | none => rfl
    | some x =>
      have hnext := congrArg (Option.map fun y => (x.1 :: y.1, y.2)) (ih x.2 (hwf x hs))
      simpa [Function.comp_def] using hnext

end RingBuffer

end Outbound.Bbr
