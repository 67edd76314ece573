import Mathlib.Algebra.Group.Prod
import Mathlib.Algebra.GroupWithZero.Nat
import Mathlib.Algebra.Order.Ring.Rat
import Mathlib.Data.List.Induction

/-! The Brutal congestion controller: its acknowledgement rate, from a ring of one slot for each of
five seconds. -/
namespace Outbound.Brutal

open List

abbrev pktInfoSlotCount : ℕ := 5

def minSampleCount : ℕ := 50

def minAckRate : ℚ := 4 / 5

/-- The numbers of packets acknowledged and lost. -/
abbrev Counts := ℕ × ℕ

structure PktInfo where
  timestamp : ℕ
  counts : Counts

/-- The slots and the rate of the sender; its pacer and its debug output are left out. -/
structure BrutalSender where
  pktInfoSlots : Fin pktInfoSlotCount → PktInfo
  ackRate : ℚ

def newBrutalSender : BrutalSender := ⟨fun _ => ⟨0, 0⟩, 1⟩

/-- A congestion event: its time in nanoseconds since the epoch, and the packets it reports. -/
structure Event where
  eventTime : ℕ
  packets : Counts

def Event.unix (e : Event) : ℕ := e.eventTime / 1000000000

namespace BrutalSender

def countSlot (minTimestamp : ℤ) (count : Counts) (info : PktInfo) : Counts :=
  if info.timestamp < minTimestamp then count else count + info.counts

variable (b : BrutalSender)

def updateAckRate (currentTimestamp : ℕ) : BrutalSender :=
  let minTimestamp : ℤ := currentTimestamp - pktInfoSlotCount
  let (acks, losses) := (ofFn b.pktInfoSlots).foldl (countSlot minTimestamp) 0
  let rate : ℚ := acks / (acks + losses : ℕ)
  { b with
    ackRate :=
      if acks + losses < minSampleCount then 1 else if rate < minAckRate then minAckRate else rate }

/-- The slot of the event's second is added to, or reset where it is of another second. -/
def record (e : Event) : BrutalSender :=
  let slot := Fin.ofNat pktInfoSlotCount e.unix
  let info := b.pktInfoSlots slot
  { b with
    pktInfoSlots := fun i =>
      if i ≠ slot then b.pktInfoSlots i
      else ⟨e.unix, if info.timestamp = e.unix then info.counts + e.packets else e.packets⟩ }

def onCongestionEventEx (e : Event) : BrutalSender :=
  (b.record e).updateAckRate e.unix

def run (events : List Event) : BrutalSender := events.foldl onCongestionEventEx newBrutalSender

end BrutalSender

/-- What the events of the second `s` report. -/
def reported : List Event → ℕ → Counts
  | [], _ => 0
  | e :: events, s => (if e.unix = s then e.packets else 0) + reported events s

/-- What was reported in the current second and the four before it. -/
def recent (events : List Event) (now : ℕ) : Counts :=
  reported events now + reported events (now - 1) + reported events (now - 2) +
    reported events (now - 3) + reported events (now - 4)

def rateOf (count : Counts) : ℚ :=
  if count.1 + count.2 < minSampleCount then 1
  else max minAckRate (count.1 / (count.1 + count.2 : ℕ))

variable {events : List Event} {e : Event} {s now i : ℕ} {info : PktInfo}

theorem reported_concat : reported (events ++ [e]) s =
    reported events s + if e.unix = s then e.packets else 0 := by
  induction events with
  | nil => simp [reported]
  | cons x events ih => simp [reported, ih, add_assoc]

theorem reported_eq_zero (h : ∀ e ∈ events, e.unix ≠ s) : reported events s = 0 := by
  induction events with
  | nil => rfl
  | cons x events ih => simp_all [reported]

/-- The slot `i` holds the counts of the last second of its residue that had an event. -/
structure Holds (events : List Event) (now i : ℕ) (info : PktInfo) : Prop where
  newest : ∀ e ∈ events, e.unix % 5 = i → e.unix ≤ info.timestamp
  counts : info.counts = reported events info.timestamp
  slot : info.timestamp % 5 = i ∨ info.timestamp = 0
  le : info.timestamp ≤ now

/-- An event of another residue leaves a slot valid. -/
theorem Holds.skip (h : Holds events e.unix i info) (hstart : 5 ≤ e.unix) (hi : e.unix % 5 ≠ i) :
    Holds (events ++ [e]) e.unix i info := by
  have hother : e.unix ≠ info.timestamp := by
    have := h.slot
    omega
  exact ⟨forall_mem_append.mpr ⟨h.newest, forall_mem_singleton.mpr fun h => absurd h hi⟩,
    by rw [reported_concat, if_neg hother, h.counts, add_zero], h.slot, h.le⟩

theorem Holds.add (h : Holds events e.unix (e.unix % 5) info) :
    Holds (events ++ [e]) e.unix (e.unix % 5)
      ⟨e.unix, if info.timestamp = e.unix then info.counts + e.packets else e.packets⟩ := by
  refine ⟨forall_mem_append.mpr ⟨fun x hx hres => (h.newest x hx hres).trans h.le,
    forall_mem_singleton.mpr fun _ => le_rfl⟩, ?_, .inl rfl, le_rfl⟩
  rw [reported_concat, if_pos rfl]
  split_ifs with hsame
  · rw [h.counts, hsame]
  · have hlt : ∀ x ∈ events, x.unix ≠ e.unix := by
      intro x hx heq
      have hle := h.newest x hx (by rw [heq])
      exact hsame (le_antisymm h.le (heq ▸ hle))
    rw [reported_eq_zero hlt, zero_add]

/-- What a slot contributes: the counts of the second of its residue among the last five. The cut-off
lets a sixth second in, but its slot is the one of the current second. -/
theorem Holds.contributes (h : Holds events now i info) (hi : i < 5) (hnow : 5 ≤ now)
    (hstart : ∀ e ∈ events, 5 ≤ e.unix) (hcurrent : now % 5 = i → info.timestamp = now)
    (count : Counts) : BrutalSender.countSlot (now - (5 : ℕ)) count info =
      count + reported events (now - (now - i) % 5) := by
  have hle := h.le
  have hslot := h.slot
  rw [BrutalSender.countSlot]
  by_cases heq : info.timestamp = now - (now - i) % 5
  · rw [if_neg (by omega), h.counts, heq]
  · have hnone : ∀ e ∈ events, e.unix ≠ now - (now - i) % 5 := by
      intro e he hs
      have := h.newest e he (by omega)
      omega
    rw [reported_eq_zero hnone, add_zero]
    split_ifs with hold
    · rfl
    · have hearly : ∀ e ∈ events, e.unix ≠ info.timestamp := by
        intro e he
        have := hstart e he
        omega
      rw [h.counts, reported_eq_zero hearly, add_zero]

theorem sum_residues (hnow : 5 ≤ now) (g : ℕ → Counts) :
    g (now - (now - 0) % 5) + g (now - (now - 1) % 5) + g (now - (now - 2) % 5) +
      g (now - (now - 3) % 5) + g (now - (now - 4) % 5) =
      g now + g (now - 1) + g (now - 2) + g (now - 3) + g (now - 4) := by
  have hback (i : ℕ) (hi : i < 5) : (now - i) % 5 = (now % 5 + 5 - i) % 5 := by omega
  rw [hback 0, hback 1, hback 2, hback 3, hback 4] <;> try decide
  have hlt : now % 5 < 5 := Nat.mod_lt _ (by decide)
  generalize now % 5 = r at hlt
  match r, hlt with
  | 0, _ | 1, _ | 2, _ | 3, _ | 4, _ => simp; ac_rfl

namespace BrutalSender

variable {b : BrutalSender}

theorem holds_record (h : ∀ i : Fin 5, Holds events e.unix i (b.pktInfoSlots i))
    (hstart : 5 ≤ e.unix) (i : Fin 5) :
    Holds (events ++ [e]) e.unix i ((b.record e).pktInfoSlots i) := by
  by_cases hi : i = .ofNat 5 e.unix
  · rw [hi, show (b.record e).pktInfoSlots (.ofNat 5 e.unix) = _ from if_neg (not_not.mpr rfl)]
    exact (h (.ofNat 5 e.unix)).add
  · rw [show (b.record e).pktInfoSlots i = _ from if_pos hi]
    exact (h i).skip hstart fun heq => hi (Fin.ext heq.symm)

theorem ackRate_updateAckRate (h : ∀ i : Fin 5, Holds events now i (b.pktInfoSlots i))
    (hnow : 5 ≤ now) (hstart : ∀ e ∈ events, 5 ≤ e.unix)
    (hcurrent : (b.pktInfoSlots (.ofNat 5 now)).timestamp = now) :
    (b.updateAckRate now).ackRate = rateOf (recent events now) := by
  have hslot (i : Fin 5) := (h i).contributes i.isLt hnow hstart fun hi => by
    rwa [show i = .ofNat 5 now from Fin.ext hi.symm]
  have hcount : (ofFn b.pktInfoSlots).foldl (countSlot ((now : ℤ) - pktInfoSlotCount)) 0 =
      recent events now := by
    simp only [ofFn_succ, ofFn_zero, foldl, hslot, zero_add]
    exact sum_residues hnow _
  simp only [updateAckRate, hcount, rateOf]
  split_ifs with hfew hlow
  · rfl
  · exact (max_eq_left hlow.le).symm
  · exact (max_eq_right (le_of_not_gt hlow)).symm

variable (events)

theorem holds_run (now : ℕ) (hstart : ∀ e ∈ events, 5 ≤ e.unix)
    (htimes : events.Pairwise fun x y => x.eventTime ≤ y.eventTime)
    (hnow : ∀ e ∈ events, e.unix ≤ now) (i : Fin 5) :
    Holds events now i ((run events).pktInfoSlots i) := by
  induction events using reverseRecOn generalizing now i with
  | nil => exact ⟨nofun, rfl, .inr rfl, Nat.zero_le now⟩
  | append_singleton events e ih =>
    rw [forall_mem_append, forall_mem_singleton] at hstart hnow
    obtain ⟨htimes, -, hlast⟩ := pairwise_append.mp htimes
    have hrec := holds_record (ih e.unix hstart.1 htimes fun x hx =>
      Nat.div_le_div_right (hlast x hx e (mem_singleton_self e))) hstart.2 i
    rw [run, foldl_append]
    exact { hrec with le := hrec.le.trans hnow.2 }

/-- After each event the rate is that of the counts reported in the last five seconds. -/
theorem ackRate_run (last : Event) (hstart : ∀ e ∈ events ++ [last], 5 ≤ e.unix)
    (htimes : (events ++ [last]).Pairwise fun x y => x.eventTime ≤ y.eventTime) :
    (run (events ++ [last])).ackRate = rateOf (recent (events ++ [last]) last.unix) := by
  have hold := forall_mem_append.mp hstart
  obtain ⟨hpair, -, hlast⟩ := pairwise_append.mp htimes
  have hnow : 5 ≤ last.unix := hold.2 last (mem_singleton_self last)
  have hholds := holds_run events last.unix hold.1 hpair fun x hx =>
    Nat.div_le_div_right (hlast x hx last (mem_singleton_self last))
  rw [run, foldl_append]
  exact ackRate_updateAckRate (holds_record hholds hnow) hnow hstart
    (congrArg PktInfo.timestamp (if_neg (not_not.mpr rfl)))

/-- The second five back is not cut off, but its slot is that of the current one and is reset. -/
theorem ackRate_run_gap :
    (run [⟨7000000000, 10, 90⟩, ⟨12000000000, 60, 0⟩]).ackRate = rateOf (60, 0) :=
  ackRate_run [⟨7000000000, 10, 90⟩] ⟨12000000000, 60, 0⟩ (by decide) (by decide)

end BrutalSender

end Outbound.Brutal
