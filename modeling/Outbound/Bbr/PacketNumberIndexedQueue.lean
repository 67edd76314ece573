import Mathlib.Data.Int.Interval
import Mathlib.Data.Set.Card
import Outbound.Bbr.RingBuffer

/-! The queue of send records indexed by packet number, as a finite map from packet numbers to
entries. `none` stands for a panic of the source; a missing entry is an inner `none`. -/
namespace Outbound.Bbr

open List Option RingBuffer Int64

structure EntryWrapper (T : Type*) where
  present : Bool
  entry : T
deriving DecidableEq, Repr

instance {T : Type*} [Inhabited T] : Inhabited (EntryWrapper T) := ⟨⟨false, default⟩⟩

def invalidPacketNumber : Int64 := -1

def shrinkDenominator : ℕ := 4

structure PacketNumberIndexedQueue (T : Type*) where
  entries : RingBuffer (EntryWrapper T)
  numberOfPresentEntries : ℤ
  firstPacket : Int64
  maxSlots : ℕ
  initialSlots : ℕ
  truncatedSlots : ℕ

variable {T : Type*} [Inhabited T]

def newPacketNumberIndexedQueue (initialSize maxSize : ℤ) : PacketNumberIndexedQueue T :=
  let initialSize := if initialSize < 1 then 1 else initialSize
  let maxSize := if maxSize < initialSize then initialSize else maxSize
  { entries := init initialSize.toNat
    numberOfPresentEntries := 0
    firstPacket := invalidPacketNumber
    maxSlots := maxSize.toNat
    initialSlots := initialSize.toNat
    truncatedSlots := 0 }

namespace PacketNumberIndexedQueue

variable (p : PacketNumberIndexedQueue T)

def isEmpty : Bool := p.numberOfPresentEntries == 0

def entrySlotsUsed : ℕ := p.entries.len

def lastPacket : Int64 :=
  if p.isEmpty then invalidPacketNumber
  else p.firstPacket + ofInt ((p.entries.len : ℤ) - 1)

/-- Pop slots from the front while `more` holds of the slot, at most `fuel` of them. Comes with
the number of slots popped. -/
def popWhile (more : Int64 → EntryWrapper T → Bool) :
    ℕ → PacketNumberIndexedQueue T → Option (ℕ × PacketNumberIndexedQueue T)
  | 0, p => some (0, p)
  | fuel + 1, p =>
    if p.entries.empty then some (0, p)
    else do
      let ew ← p.entries.front
      if more p.firstPacket ew then
        let (_, entries) ← p.entries.popFront
        let (n, q) ← popWhile more fuel
          { p with
            entries := entries
            numberOfPresentEntries :=
              if ew.present then p.numberOfPresentEntries - 1 else p.numberOfPresentEntries
            firstPacket := p.firstPacket + 1 }
        some (n + 1, q)
      else some (0, p)

def dropFront (n : ℕ) : Option (PacketNumberIndexedQueue T) := do
  let (k, q) ← popWhile (fun _ _ => true) n p
  some { q with truncatedSlots := q.truncatedSlots + k }

def shrinkTarget (initialSlots live : ℕ) : ℕ → ℕ → ℕ
  | 0, target => target
  | fuel + 1, target =>
    if initialSlots < target ∧ live * shrinkDenominator ≤ target then
      shrinkTarget initialSlots live fuel (target / 2)
    else target

def reclaim : PacketNumberIndexedQueue T :=
  let live := p.entries.len
  let capacity := p.entries.cap
  if capacity ≤ p.initialSlots then p
  else if 0 < live then
    let target := shrinkTarget p.initialSlots live capacity capacity
    if capacity ≤ target then p else { p with entries := p.entries.shrinkTo target }
  else { p with entries := p.entries.shrinkTo p.initialSlots }

/-- The common end of every trim: an emptied queue forgets its position. -/
def settle : PacketNumberIndexedQueue T :=
  reclaim (if p.entries.empty then { p with firstPacket := invalidPacketNumber } else p)

def clearup : Option (PacketNumberIndexedQueue T) := do
  let (_, q) ← popWhile (fun _ ew => !ew.present) p.entries.len p
  some q.settle

def restart (packetNumber : Int64) : PacketNumberIndexedQueue T :=
  { p with
    truncatedSlots := p.truncatedSlots + p.entries.len
    entries := init p.initialSlots
    numberOfPresentEntries := 0
    firstPacket := packetNumber }

def pushEntry (gap : ℕ) (e : T) : PacketNumberIndexedQueue T :=
  let padded := Loop.forUp (fun _ r => r.pushBack default) gap p.entries
  { p with
    entries := padded.pushBack ⟨true, e⟩
    numberOfPresentEntries := p.numberOfPresentEntries + 1 }

def emplace (packetNumber : Int64) (entry : Option T) :
    Option (Bool × PacketNumberIndexedQueue T) :=
  match entry with
  | none => some (false, p)
  | some e =>
    if packetNumber = invalidPacketNumber then some (false, p)
    else if p.isEmpty then
      some (true,
        { p with
          entries := p.entries.pushBack ⟨true, e⟩
          numberOfPresentEntries := 1
          firstPacket := packetNumber })
    else if packetNumber ≤ p.lastPacket then some (false, p)
    else
      let offset := (packetNumber - p.firstPacket).toInt
      let gap := (offset - p.entries.len).toNat
      if p.maxSlots ≤ gap then
        let q := p.restart packetNumber
        some (true,
          { q with entries := q.entries.pushBack ⟨true, e⟩, numberOfPresentEntries := 1 })
      else
        let excess := p.entries.len + gap + 1 - p.maxSlots
        do
          let q ← if 0 < excess then p.dropFront excess else some p
          some (true, q.pushEntry gap e)

def dropConsumedFront (isConsumed : T → Bool) :
    Option (ℕ × PacketNumberIndexedQueue T) := do
  let (n, q) ← popWhile (fun _ ew => !ew.present || isConsumed ew.entry) p.entries.len p
  some (n, q.settle)

variable (packetNumber : Int64)

def getEntryWraper : Option (Option (ℤ × EntryWrapper T)) :=
  if packetNumber = invalidPacketNumber ∨ p.isEmpty = true ∨ packetNumber < p.firstPacket then
    some none
  else
    let offset := (packetNumber - p.firstPacket).toInt
    if (p.entries.len : ℤ) ≤ offset then some none
    else do
      let ew ← p.entries.offset offset
      some (if ew.present then some (offset, ew) else none)

def getEntry : Option (Option T) :=
  (p.getEntryWraper packetNumber).map fun found => found.map fun x => x.2.entry

def modifyEntry (f : T → T) :
    Option (PacketNumberIndexedQueue T) := do
  match ← p.getEntryWraper packetNumber with
  | none => some p
  | some (offset, ew) =>
    let entries ← p.entries.setOffset offset { ew with entry := f ew.entry }
    some { p with entries := entries }

def remove :
    Option (Option T × PacketNumberIndexedQueue T) := do
  match ← p.getEntryWraper packetNumber with
  | none => some (none, p)
  | some (offset, ew) =>
    let entries ← p.entries.setOffset offset { ew with present := false }
    let q := { p with
      entries := entries
      numberOfPresentEntries := p.numberOfPresentEntries - 1 }
    if packetNumber = q.firstPacket then
      let cleared ← q.clearup
      some (some ew.entry, cleared)
    else some (some ew.entry, q)

def removeUpTo :
    Option (PacketNumberIndexedQueue T) := do
  let (_, q) ← popWhile
    (fun first _ => decide (first ≠ invalidPacketNumber) && decide (first < packetNumber))
    p.entries.len p
  q.clearup

end PacketNumberIndexedQueue

section View

omit [Inhabited T]

def EntryWrapper.value (ew : EntryWrapper T) : Option T := if ew.present then some ew.entry else none

/-- The map that a list of slots starting at packet number `first` stands for. -/
def view (first : ℤ) (l : List (EntryWrapper T)) (k : ℤ) : Option T :=
  if first ≤ k then (l[(k - first).toNat]?).bind EntryWrapper.value else none

def presentCount (l : List (EntryWrapper T)) : ℕ := l.countP EntryWrapper.present

variable (first : ℤ) (l : List (EntryWrapper T)) (ew : EntryWrapper T) (k : ℤ)

@[simp] theorem view_nil : view first ([] : List (EntryWrapper T)) k = none := by
  simp [view]

theorem view_drop (n : ℕ) (k : ℤ) :
    view (first + n) (l.drop n) k = if k < first + n then none else view first l k := by
  unfold view
  split_ifs with h1 h2 h3 <;> first | omega | rfl | skip
  rw [getElem?_drop]
  congr 2
  omega

theorem view_append_entry :
    view first (l ++ [ew]) k = if k = first + l.length then ew.value else view first l k := by
  unfold view
  by_cases hk : first ≤ k
  · split_ifs with he
    · have hi : (k - first).toNat = l.length := by omega
      simp [hi]
    · by_cases hlt : (k - first).toNat < l.length
      · rw [getElem?_append_left hlt]
      · rw [getElem?_append_right (by omega), getElem?_eq_none (by simp; omega),
          getElem?_eq_none (by omega)]
  · rw [if_neg hk, if_neg hk, if_neg (by omega)]

theorem view_append_absent (hew : ew.present = false) (gap : ℕ) (k : ℤ) :
    view first (l ++ replicate gap ew) k = view first l k := by
  induction gap with
  | zero => simp
  | succ gap ih =>
    rw [replicate_succ', ← append_assoc, view_append_entry, ih]
    split_ifs with he
    · have hlen : (k - first).toNat ≥ l.length := by
        rw [length_append, length_replicate] at he
        omega
      have hval : ew.value = none := by simp [EntryWrapper.value, hew]
      rw [hval, view, getElem?_eq_none hlen, bind_none, ite_self]
    · rfl

theorem view_set (i : ℕ) (hi : i < l.length) (ew : EntryWrapper T) (k : ℤ) :
    view first (l.set i ew) k = if k = first + i then ew.value else view first l k := by
  unfold view
  by_cases hk : first ≤ k
  · split_ifs with he
    · have hidx : (k - first).toNat = i := by omega
      rw [hidx, getElem?_set_self hi]
      rfl
    · rw [getElem?_set_ne (by omega)]
  · rw [if_neg hk, if_neg hk, if_neg (by omega)]

theorem view_some_range {first : ℤ} {l : List (EntryWrapper T)} {k : ℤ} {e : T}
    (h : view first l k = some e) : first ≤ k ∧ k < first + l.length := by
  unfold view at h
  split_ifs at h with hk
  refine ⟨hk, ?_⟩
  by_contra hlt
  rw [getElem?_eq_none (by omega)] at h
  simp at h

theorem presentCount_set_absent (i : ℕ) (ew : EntryWrapper T)
    (hi : l[i]? = some ew) (hp : ew.present = true) :
    presentCount (l.set i { ew with present := false }) + 1 = presentCount l := by
  induction l generalizing i with
  | nil => simp at hi
  | cons a l ih =>
    cases i with
    | zero =>
      have ha : a = ew := by simpa using hi
      subst ha
      simp [presentCount, hp]
    | succ i =>
      have := ih i (by simpa using hi)
      simp only [presentCount, set_cons_succ, countP_cons] at this ⊢
      omega

theorem presentCount_eq_zero_iff : presentCount l = 0 ↔ ∀ ew ∈ l, ew.present = false := by
  simp [presentCount, countP_eq_zero]

theorem presentCount_drop (n : ℕ) :
    (presentCount (l.drop n) : ℤ) = presentCount l - presentCount (l.take n) := by
  have hcount : presentCount (l.take n ++ l.drop n) =
      presentCount (l.take n) + presentCount (l.drop n) := countP_append
  rw [take_append_drop] at hcount
  omega

theorem view_cons (l : List (EntryWrapper T)) (k : ℤ) :
    view first (ew :: l) k = if k = first then ew.value else view (first + 1) l k := by
  unfold view
  split_ifs with h1 h2 h3 h4
  · simp [h2]
  · have hi : (k - first).toNat = (k - (first + 1)).toNat + 1 := by omega
    simp [hi]
  · omega
  · omega
  · omega
  · rfl

theorem ncard_view (first : ℤ) (l : List (EntryWrapper T)) :
    {k | (view first l k).isSome}.ncard = presentCount l := by
  have hfinite : ∀ first (l : List (EntryWrapper T)), {k | (view first l k).isSome}.Finite := by
    intro first l
    refine (Set.finite_Ico first (first + l.length)).subset ?_
    intro k hk
    obtain ⟨e, he⟩ := isSome_iff_exists.mp hk
    exact view_some_range he
  induction l generalizing first with
  | nil => simp [presentCount]
  | cons ew l ih =>
    have hnot : first ∉ {k | (view (first + 1) l k).isSome} := by
      intro hk
      obtain ⟨e, he⟩ := isSome_iff_exists.mp hk
      have := (view_some_range he).1
      omega
    cases hp : ew.present with
    | false =>
      have hset : {k | (view first (ew :: l) k).isSome} = {k | (view (first + 1) l k).isSome} := by
        ext k
        simp only [Set.mem_ofPred_eq, view_cons]
        split_ifs with hk
        · subst hk
          simp only [Set.mem_ofPred_eq] at hnot
          simp [EntryWrapper.value, hp, hnot]
        · rfl
      rw [hset, ih, presentCount, presentCount, countP_cons_of_neg (by simp [hp])]
    | true =>
      have hset : {k | (view first (ew :: l) k).isSome} =
          insert first {k | (view (first + 1) l k).isSome} := by
        ext k
        simp only [Set.mem_ofPred_eq, Set.mem_insert_iff, view_cons]
        split_ifs with hk <;> simp [EntryWrapper.value, hp, hk]
      simp [hset, Set.ncard_insert_of_notMem hnot (hfinite _ _), ih, presentCount, countP_cons_of_pos hp]

end View

namespace PacketNumberIndexedQueue

theorem popWhile_spec (more : Int64 → EntryWrapper T → Bool) (fuel : ℕ)
    (p : PacketNumberIndexedQueue T) (h : p.entries.WF) :
    ∃ n entries, popWhile more fuel p = some (n,
        { p with
          entries := entries
          numberOfPresentEntries :=
            p.numberOfPresentEntries - presentCount (p.entries.toList.take n)
          firstPacket := p.firstPacket + ofNat n }) ∧
      entries.WF ∧ entries.toList = p.entries.toList.drop n ∧
      n ≤ p.entries.len ∧ n ≤ fuel ∧
      (∀ i < n, ∃ ew, p.entries.toList[i]? = some ew ∧
        more (p.firstPacket + ofNat i) ew = true) ∧
      (n < fuel → ∀ ew, p.entries.toList[n]? = some ew →
        more (p.firstPacket + ofNat n) ew = false) := by
  induction fuel generalizing p with
  | zero =>
    refine ⟨0, p.entries, ?_, h, ?_⟩
    · simp [popWhile, presentCount]
    · simp
  | succ fuel ih =>
    cases hl : p.entries.toList with
    | nil =>
      have he := (empty_iff_toList h).mpr hl
      refine ⟨0, p.entries, ?_, h, ?_⟩
      · simp [popWhile, he, presentCount]
      · simp [hl]
    | cons ew l =>
      have he : p.entries.empty = false := by
        rw [← Bool.not_eq_true, empty_iff_toList h, hl]
        simp
      have hfront : p.entries.front = some ew := by rw [front_eq h, hl]; rfl
      cases hm : more p.firstPacket ew with
      | false =>
        refine ⟨0, p.entries, ?_, h, ?_⟩
        · simp [popWhile, he, hfront, hm, presentCount]
        · simp [hl, hm]
      | true =>
        obtain ⟨entries, hpop, hwf, hlist⟩ := popFront_eq h hl
        let q : PacketNumberIndexedQueue T := { p with
          entries := entries
          numberOfPresentEntries :=
            if ew.present then p.numberOfPresentEntries - 1 else p.numberOfPresentEntries
          firstPacket := p.firstPacket + 1 }
        have hadd : ∀ i : ℕ, q.firstPacket + ofNat i = p.firstPacket + ofNat (i + 1) := by
          intro i
          rw [Int64.ofNat_add, Int64.add_comm (Int64.ofNat i), ← Int64.add_assoc]
          rfl
        have hql : q.entries.toList = l := hlist
        obtain ⟨n, rest, hrun, hwf', hlist', hn, hnf, hall, hstop⟩ := ih q hwf
        have hqlen : p.entries.len = entries.len + 1 := by
          rw [← toList_length, hl, ← toList_length entries, hlist]
          rfl
        refine ⟨n + 1, rest, ?_, hwf', ?_, ?_, by omega, ?_, ?_⟩
        · have hunfold : popWhile more (fuel + 1) p =
              (popWhile more fuel q).bind fun x => some (x.1 + 1, x.2) := by
            simp only [popWhile, he, hfront, hpop, Bool.false_eq_true, if_false,
              bind_eq_bind, bind_some, hm, if_true]
            rfl
          rw [hunfold, hrun]
          simp only [bind_some, some.injEq, Prod.mk.injEq, true_and]
          rw [hadd n, hql]
          simp only [q]
          congr 1
          simp only [presentCount, take_succ_cons, countP_cons]
          split_ifs <;> push_cast <;> omega
        · simp [hlist', hql]
        · have : n ≤ entries.len := hn
          omega
        · intro i hi
          cases i with
          | zero => exact ⟨ew, by simp, by simpa using hm⟩
          | succ i =>
            obtain ⟨ew', hget, hmore⟩ := hall i (by omega)
            refine ⟨ew', ?_, ?_⟩
            · rwa [getElem?_cons_succ, ← hql]
            · rw [← hadd i]; exact hmore
        · intro hlt ew' hget
          rw [← hadd n]
          rw [getElem?_cons_succ, ← hql] at hget
          exact hstop (by omega) ew' hget

variable (p : PacketNumberIndexedQueue T)

def lookup (k : ℤ) : Option T :=
  view p.firstPacket.toInt p.entries.toList k

/-- What every operation keeps, also between its own steps. -/
structure Tracked : Prop where
  wf : p.entries.WF
  count : p.numberOfPresentEntries = presentCount p.entries.toList
  slots : p.entries.len ≤ p.maxSlots
  first_nonneg : p.entries.toList ≠ [] → 0 ≤ p.firstPacket.toInt
  last_lt : p.entries.toList ≠ [] → p.firstPacket.toInt + p.entries.len ≤ 2 ^ 63
  maxSlots_pos : 0 < p.maxSlots

/-- The unstated invariant of the source: the oldest slot is never an empty one. -/
structure Good : Prop extends Tracked p where
  front_present : ∀ ew, p.entries.toList.head? = some ew → ew.present = true

theorem toInt_add_ofNat (first : Int64) (n : ℕ) (h0 : 0 ≤ first.toInt)
    (h : first.toInt + n < 2 ^ 63) : (first + ofNat n).toInt = first.toInt + n := by
  rw [toInt_add, toInt_ofNat_of_lt (by omega)]
  exact Int.bmod_eq_of_le (by omega) (by omega)

theorem toInt_sub_of_nonneg (a b : Int64) (hb : 0 ≤ b.toInt) (h : b.toInt ≤ a.toInt) :
    (a - b).toInt = a.toInt - b.toInt := by
  have := a.toInt_lt
  simpa using Int.bmod_eq_of_le (by omega) (by omega)

theorem toInt_invalid : invalidPacketNumber.toInt = -1 := by decide

namespace Good

variable {p}

section

variable (h : Good p)

include h

theorem isEmpty_iff : p.isEmpty = true ↔ p.entries.toList = [] := by
  rw [isEmpty, beq_iff_eq, h.count]
  constructor
  · intro hz
    cases hl : p.entries.toList with
    | nil => rfl
    | cons ew l =>
      have hp := h.front_present ew (by rw [hl]; rfl)
      have hall := (presentCount_eq_zero_iff p.entries.toList).mp (by omega)
      have := hall ew (by rw [hl]; exact mem_cons_self)
      simp [hp] at this
  · intro hl
    simp [hl, presentCount]

theorem lookup_of_isEmpty (he : p.isEmpty = true) (k : ℤ) : p.lookup k = none := by
  rw [lookup, h.isEmpty_iff.mp he, view_nil]

theorem lastPacket_eq (he : ¬ p.isEmpty = true) :
    p.lastPacket.toInt = p.firstPacket.toInt + p.entries.len - 1 := by
  have hl : p.entries.toList ≠ [] := fun hl => he (h.isEmpty_iff.mpr hl)
  have h0 := h.first_nonneg hl
  have h1 := h.last_lt hl
  rw [lastPacket, if_neg he, toInt_add, toInt_ofInt_of_le (by omega) (by omega),
    Int.bmod_eq_of_le (by omega) (by omega)]
  omega

theorem lookup_eq_none_of_invalid : p.lookup (-1) = none := by
  by_cases hl : p.entries.toList = []
  · rw [lookup, hl, view_nil]
  · have h0 := h.first_nonneg hl
    rw [lookup, view, if_neg (by omega)]

theorem getEntryWraper_eq (pn : Int64) :
    (p.lookup pn.toInt = none ∧ p.getEntryWraper pn = some none) ∨
    (∃ i ew, p.entries.toList[i]? = some ew ∧ ew.present = true ∧
      pn.toInt = p.firstPacket.toInt + (i : ℕ) ∧ p.lookup pn.toInt = some ew.entry ∧
      p.getEntryWraper pn = some (some ((i : ℤ), ew))) := by
  unfold getEntryWraper
  split_ifs with hc
  · refine .inl ⟨?_, rfl⟩
    rcases hc with rfl | he | hlt
    · rw [toInt_invalid]; exact h.lookup_eq_none_of_invalid
    · exact h.lookup_of_isEmpty he _
    · rw [lt_iff_toInt_lt] at hlt
      rw [lookup, view, if_neg (by omega)]
  obtain ⟨-, he, hge⟩ := not_or.mp hc |>.imp_right not_or.mp
  have hl : p.entries.toList ≠ [] := fun hl => he (h.isEmpty_iff.mpr hl)
  rw [lt_iff_toInt_lt, not_lt] at hge
  have hoff := toInt_sub_of_nonneg pn p.firstPacket (h.first_nonneg hl) hge
  have hview : p.lookup pn.toInt = (p.entries.toList[(pn.toInt - p.firstPacket.toInt).toNat]?).bind
      EntryWrapper.value := by
    rw [lookup, view, if_pos hge]
  dsimp only
  rw [hoff]
  obtain ⟨i, hi⟩ : ∃ i : ℕ, pn.toInt - p.firstPacket.toInt = i :=
    ⟨_, (Int.toNat_of_nonneg (by omega)).symm⟩
  rw [hi, Int.toNat_natCast] at hview
  rw [hi]
  split_ifs with hlen
  · refine .inl ⟨?_, rfl⟩
    rw [hview, getElem?_eq_none (by rw [toList_length]; omega), bind_none]
  rw [offset_eq h.wf i]
  obtain ⟨ew, hew⟩ : ∃ ew, p.entries.toList[i]? = some ew :=
    ⟨_, getElem?_eq_getElem (by rw [toList_length]; omega)⟩
  rw [hew] at hview ⊢
  cases hp : ew.present with
  | false =>
    left
    simp [hview, EntryWrapper.value, hp]
  | true =>
    refine .inr ⟨i, ew, hew, hp, by omega, ?_, ?_⟩
    · simp [hview, EntryWrapper.value, hp]
    · simp [hp]

theorem getEntry_eq (pn : Int64) : p.getEntry pn = some (p.lookup pn.toInt) := by
  rcases h.getEntryWraper_eq pn with ⟨hnone, hw⟩ | ⟨i, ew, -, -, -, hsome, hw⟩
  · rw [getEntry, hw, hnone]
    rfl
  · rw [getEntry, hw, hsome]
    rfl

end

end Good

end PacketNumberIndexedQueue

end Outbound.Bbr
