import Outbound.Bbr.BandwidthSampler
import Outbound.Bbr.PacketNumberMap

/-! Delivered-byte accounting of the bandwidth sampler over whole runs. A ledger says which packets
were sent and reported; the sampler's records and its total of acknowledged bytes follow it. -/
namespace Outbound.Bbr

section A0Candidates

variable {candidates : RingBuffer AckPoint}

theorem popFront_of_lt (h : candidates.WF) (hn : 0 < candidates.len) :
    ∃ a c, candidates.popFront = some (a, c) ∧ c.WF ∧ c.len + 1 = candidates.len := by
  cases hl : candidates.toList with
  | nil =>
    rw [RingBuffer.toList_eq_nil_iff] at hl
    omega
  | cons a l =>
    obtain ⟨c, hpop, hwf, hlist⟩ := RingBuffer.popFront_eq h hl
    refine ⟨a, c, hpop, hwf, ?_⟩
    simp [← RingBuffer.toList_length, hlist, hl]

theorem offset_of_lt (h : candidates.WF) {i : ℕ} (hi : i < candidates.len) :
    ∃ a, candidates.offset i = some a := by
  rw [RingBuffer.offset_eq h, ← Option.isSome_iff_exists]
  simpa using hi

theorem findA0Above_spec (h : candidates.WF) (totalBytesAcked : ByteCount) (fuel i : ℕ)
    (hi : 0 < i) :
    ∃ found, findA0Above candidates totalBytesAcked fuel i = some found ∧
      ∀ j, found = some j → 0 < j ∧ j < candidates.len := by
  induction fuel generalizing i with
  | zero => exact ⟨none, rfl, by simp⟩
  | succ fuel ih =>
    unfold findA0Above
    split_ifs with hlt
    · obtain ⟨a, ha⟩ := offset_of_lt h hlt
      rw [ha]
      simp only [Option.bind_eq_bind, Option.bind_some]
      split_ifs
      · refine ⟨some i, rfl, ?_⟩
        intro j hj
        cases hj
        exact ⟨hi, hlt⟩
      · exact ih (i + 1) (Nat.succ_pos i)
    · exact ⟨none, rfl, by simp⟩

theorem popFronts_spec (n : ℕ) (h : candidates.WF) (hn : n ≤ candidates.len) :
    ∃ c, popFronts n candidates = some c ∧ c.WF := by
  induction n generalizing candidates with
  | zero => exact ⟨candidates, rfl, h⟩
  | succ n ih =>
    obtain ⟨a, c, hpop, hwf, hlen⟩ := popFront_of_lt h (by omega)
    obtain ⟨d, hrun, hd⟩ := ih hwf (by omega)
    refine ⟨d, ?_, hd⟩
    rwa [popFronts, hpop]

theorem popStale_spec (fuel k : ℕ) (h : candidates.WF) :
    ∃ c, popStale fuel k candidates = some c ∧ c.WF := by
  induction fuel generalizing k candidates with
  | zero => exact ⟨candidates, rfl, h⟩
  | succ fuel ih =>
    unfold popStale
    split_ifs with hlt
    · obtain ⟨a, c, hpop, hwf, -⟩ := popFront_of_lt h (by omega)
      rw [hpop]
      exact ih (k + 1) hwf
    · exact ⟨candidates, rfl, h⟩

theorem chooseA0Point_spec (h : candidates.WF) (totalBytesAcked : ByteCount) :
    ∃ a0 c, chooseA0Point candidates totalBytesAcked = some (a0, c) ∧ c.WF := by
  unfold chooseA0Point
  split_ifs with he hone
  · exact ⟨none, candidates, rfl, h⟩
  · have hlen : 0 < candidates.toList.length := by rw [RingBuffer.toList_length]; omega
    obtain ⟨a, ha⟩ : ∃ a, candidates.toList.head? = some a :=
      ⟨_, List.head?_eq_some_head (List.ne_nil_of_length_pos hlen)⟩
    rw [RingBuffer.front_eq h, ha]
    exact ⟨some a, candidates, rfl, h⟩
  · have hpos : 0 < candidates.len := by
      rw [h.empty_iff] at he
      omega
    obtain ⟨found, hfind, hrange⟩ := findA0Above_spec h totalBytesAcked candidates.len 1 one_pos
    rw [hfind]
    cases found with
    | some i =>
      obtain ⟨hi, hlt⟩ := hrange i rfl
      obtain ⟨a, ha⟩ := offset_of_lt h (show i - 1 < candidates.len by omega)
      obtain ⟨c, hpop, hwf⟩ := popFronts_spec (i - 1) h (by omega)
      rw [Int.ofNat_sub hi] at ha
      refine ⟨some a, c, ?_, hwf⟩
      simp only [Option.bind_eq_bind, Option.bind_some]
      rw [show ((i : ℤ) - 1) = (i : ℤ) - (1 : ℕ) from rfl, ha, hpop]
      rfl
    | none =>
      obtain ⟨a, ha⟩ := offset_of_lt h (show candidates.len - 1 < candidates.len by omega)
      obtain ⟨c, hpop, hwf⟩ := popStale_spec candidates.len 0 h
      rw [Int.ofNat_sub hpos] at ha
      refine ⟨some a, c, ?_, hwf⟩
      simp [RingBuffer.back, he, show ((candidates.len : ℤ) - 1) = (candidates.len : ℤ) - (1 : ℕ) from rfl, ha, hpop]

end A0Candidates

namespace BandwidthSampler

variable {b : BandwidthSampler}

theorem takeSample_spec (h : b.a0Candidates.WF) (ackTime : Time)
    (sentPacket : ConnectionStateOnSentPacket) :
    ∃ sample c, b.takeSample ackTime sentPacket = some (sample, { b with a0Candidates := c }) ∧
      c.WF := by
  have hpoint : ∃ a0 c, b.a0Point sentPacket = some (a0, c) ∧ c.WF := by
    unfold a0Point
    split_ifs
    · obtain ⟨a0, c, hrun, hwf⟩ := chooseA0Point_spec h sentPacket.sendTimeState.totalBytesAcked
      rw [hrun]
      exact ⟨_, c, rfl, hwf⟩
    · exact ⟨_, _, rfl, h⟩
  unfold takeSample
  split_ifs
  · exact ⟨_, b.a0Candidates, rfl, h⟩
  · obtain ⟨a0, c, hrun, hwf⟩ := hpoint
    rw [hrun]
    simp only [Option.bind_eq_bind, Option.bind_some]
    split_ifs
    · exact ⟨_, c, rfl, hwf⟩
    · exact ⟨_, c, rfl, hwf⟩

theorem finishSample_spec (h : b.a0Candidates.WF) (scale : Scale) (t : AckTally)
    (maxBandwidth estBandwidthUpperBound : Bandwidth) (roundTripCount : UInt64) :
    ∃ sample n tracker c,
      b.finishSample scale t maxBandwidth estBandwidthUpperBound roundTripCount =
        (sample, { b with
          totalBytesAckedAfterLastAckEvent := n
          maxAckHeightTracker := tracker
          a0Candidates := c }) ∧ c.WF := by
  unfold finishSample onAckEventEnd
  dsimp only
  split_ifs
  all_goals first
    | exact ⟨_, b.totalBytesAckedAfterLastAckEvent, b.maxAckHeightTracker, b.a0Candidates, rfl, h⟩
    | exact ⟨_, _, _, _, rfl, h⟩
    | exact ⟨_, _, _, _, rfl, RingBuffer.wf_pushBack h _⟩

end BandwidthSampler

/-- What the connection knows: the last packet number used, the retransmittable packets with their
sizes, those that were reported acknowledged or lost, and the bytes of those acknowledged. -/
structure Ledger where
  lastSent : ℤ
  sent : List (ℤ × ByteCount)
  reported : List ℤ
  acked : ByteCount

namespace Ledger

def new : Ledger := ⟨-1, [], [], 0⟩

def size (l : Ledger) (k : ℤ) : Option ByteCount := l.sent.lookup k

def Outstanding (l : Ledger) (k : ℤ) (bytes : ByteCount) : Prop :=
  l.size k = some bytes ∧ k ∉ l.reported

instance (l : Ledger) (k : ℤ) (bytes : ByteCount) : Decidable (l.Outstanding k bytes) :=
  inferInstanceAs (Decidable (_ ∧ _))

variable (l : Ledger)

def send (k : ℤ) (bytes : ByteCount) (isRetransmittable : Bool) : Ledger :=
  { l with lastSent := k, sent := if isRetransmittable then (k, bytes) :: l.sent else l.sent }

def report (k : ℤ) : Ledger :=
  { l with reported := if (l.size k).isSome then k :: l.reported else l.reported }

def ack (k : ℤ) : Ledger :=
  { l.report k with acked := l.acked + (l.size k).getD 0 }

/-- Among the packets sent, none is reported twice when `ks` are reported next. -/
def ReportsOnce (ks : List ℤ) : Prop :=
  ∀ p ∈ l.sent, (ks ++ l.reported).count p.1 ≤ 1

instance (ks : List ℤ) : Decidable (l.ReportsOnce ks) :=
  inferInstanceAs (Decidable (∀ _ ∈ _, _))

variable {l} {k : ℤ}

theorem mem_sent {bytes : ByteCount} (h : l.size k = some bytes) : (k, bytes) ∈ l.sent := by
  obtain ⟨before, after, hsent, -⟩ := List.lookup_eq_some_iff.mp h
  rw [hsent]
  simp

theorem size_send (l : Ledger) (k : ℤ) (bytes : ByteCount) (j : ℤ) :
    (l.send k bytes true).size j = if j = k then some bytes else l.size j := by
  unfold size send
  rw [if_pos rfl]
  by_cases hj : j = k
  · rw [hj, if_pos rfl, List.lookup_cons_self]
  · rw [if_neg hj, List.lookup_cons, beq_false_of_ne hj]

@[simp] theorem size_report (l : Ledger) (k j : ℤ) : (l.report k).size j = l.size j := rfl

theorem mem_reported_report (hk : (l.size k).isSome) (j : ℤ) :
    j ∈ (l.report k).reported ↔ j = k ∨ j ∈ l.reported := by
  simp [report, hk]

theorem report_of_unsent (hk : l.size k = none) : l.report k = l := by
  simp [report, hk]

namespace ReportsOnce

variable {ks : List ℤ}

theorem fresh (h : l.ReportsOnce (k :: ks)) (hk : (l.size k).isSome) : k ∉ l.reported := by
  obtain ⟨bytes, hsize⟩ := Option.isSome_iff_exists.mp hk
  have hcount : (k :: ks ++ l.reported).count k ≤ 1 := h _ (mem_sent hsize)
  intro hmem
  have hpos := List.count_pos_iff.mpr hmem
  rw [List.cons_append, List.count_cons_self, List.count_append] at hcount
  omega

theorem tail (h : l.ReportsOnce (k :: ks)) : (l.report k).ReportsOnce ks := by
  intro p hp
  have hcount := h p hp
  unfold report
  dsimp only
  rw [List.cons_append, List.count_cons, List.count_append] at hcount
  split_ifs
  · rw [List.count_append, List.count_cons]
    omega
  · rw [List.count_append]
    omega

end ReportsOnce

end Ledger

open PacketNumberIndexedQueue Ledger RingBuffer BandwidthSampler

/-- The records follow the ledger: every record is of a packet sent, with its size, consumed just
when it was reported, and every outstanding packet has one. -/
structure Records (q : PacketNumberIndexedQueue ConnectionStateOnSentPacket) (l : Ledger) :
    Prop where
  good : q.Good
  record : ∀ k e, q.lookup k = some e →
    l.size k = some e.size ∧ (e.consumed = true ↔ k ∈ l.reported)
  live : ∀ k bytes, l.Outstanding k bytes → (q.lookup k).isSome
  last : q.entries.toList ≠ [] → q.firstPacket.toInt + q.entries.len ≤ l.lastSent + 1
  sent_le : ∀ k, (l.size k).isSome → k ≤ l.lastSent
  reported_sent : ∀ k ∈ l.reported, (l.size k).isSome
  lastSent_ge : -1 ≤ l.lastSent

/-- No record is older than every outstanding packet. -/
def Settled (q : PacketNumberIndexedQueue ConnectionStateOnSentPacket) (l : Ledger) : Prop :=
  ∀ k e, q.lookup k = some e → ∃ j bytes, j ≤ k ∧ l.Outstanding j bytes

namespace Records

variable {q : PacketNumberIndexedQueue ConnectionStateOnSentPacket} {l : Ledger} {k : ℤ}

theorem lookup_of_outstanding (h : Records q l) {bytes : ByteCount} (hk : l.Outstanding k bytes) :
    ∃ e, q.lookup k = some e ∧ e.size = bytes ∧ e.consumed = false := by
  obtain ⟨e, he⟩ := Option.isSome_iff_exists.mp (h.live k bytes hk)
  obtain ⟨hsize, hconsumed⟩ := h.record k e he
  refine ⟨e, he, ?_, ?_⟩
  · exact Option.some.inj (hsize.symm.trans hk.1)
  · rw [← Bool.not_eq_true, hconsumed]
    exact hk.2

theorem first_outstanding (h : Records q l) (hs : Settled q l) (hne : q.entries.toList ≠ []) :
    ∃ bytes, l.Outstanding q.firstPacket.toInt bytes := by
  cases hl : q.entries.toList with
  | nil => exact absurd hl hne
  | cons ew rest =>
    have hp := h.good.front_present ew (by rw [hl]; rfl)
    have hfirst : q.lookup q.firstPacket.toInt = some ew.entry := by
      rw [lookup, hl, view_cons, if_pos rfl, EntryWrapper.value, if_pos hp]
    obtain ⟨j, bytes, hj, hout⟩ := hs _ _ hfirst
    obtain ⟨e, he⟩ := Option.isSome_iff_exists.mp (h.live j bytes hout)
    have hge := (view_some_range he).1
    obtain rfl : j = q.firstPacket.toInt := by omega
    exact ⟨bytes, hout⟩

theorem report_absent (h : Records q l) (hnone : q.lookup k = none)
    (hfresh : (l.size k).isSome → k ∉ l.reported) : l.size k = none := by
  cases hsize : l.size k with
  | none => rfl
  | some bytes =>
    have hsome := h.live k bytes ⟨hsize, hfresh (by simp [hsize])⟩
    simp [hnone] at hsome

theorem consume (h : Records q l) (pn : Int64) {e : ConnectionStateOnSentPacket}
    (he : q.lookup pn.toInt = some e) :
    ∃ q', q.modifyEntry pn (·.consume) = some q' ∧ q'.maxSlots = q.maxSlots ∧
      Records q' (l.report pn.toInt) := by
  obtain ⟨q', hrun, hgood, hmax, hfirst, hlen, hlook⟩ := modifyEntry_spec h.good pn (·.consume)
  have hsome : (l.size pn.toInt).isSome := by
    rw [(h.record _ _ he).1]
    rfl
  refine ⟨q', hrun, hmax, hgood, ?_, ?_, ?_, h.sent_le, ?_, h.lastSent_ge⟩
  · intro k e' he'
    rw [hlook] at he'
    rw [mem_reported_report hsome, size_report]
    split_ifs at he' with hk
    · obtain ⟨e'', he'', rfl⟩ := Option.map_eq_some_iff.mp he'
      exact ⟨(h.record k e'' he'').1, by simp [ConnectionStateOnSentPacket.consume, hk]⟩
    · simpa [hk] using h.record k e' he'
  · rintro k bytes ⟨hsize, hreported⟩
    rw [mem_reported_report hsome, not_or] at hreported
    rw [hlook, if_neg hreported.1]
    exact h.live k bytes ⟨hsize, hreported.2⟩
  · intro hne
    rw [hfirst, hlen]
    apply h.last
    intro hl
    rw [toList_eq_nil_iff, ← hlen, ← toList_eq_nil_iff] at hl
    exact hne hl
  · intro k hk
    rw [mem_reported_report hsome] at hk
    rcases hk with rfl | hk
    · exact hsome
    · exact h.reported_sent k hk

theorem ack (h : Records q (l.report k)) : Records q (l.ack k) :=
  ⟨h.good, h.record, h.live, h.last, h.sent_le, h.reported_sent, h.lastSent_ge⟩

theorem trim (h : Records q l) :
    ∃ n q', q.dropConsumedFront (·.consumed) = some (n, q') ∧ q'.maxSlots = q.maxSlots ∧
      Records q' l ∧ Settled q' l := by
  obtain ⟨n, q', hrun, hgood, hmax, hlook, hdropped, hfront⟩ :=
    dropConsumedFront_spec h.good (·.consumed)
  have hkept : ∀ k e, q'.lookup k = some e → q.firstPacket.toInt + n ≤ k ∧ q.lookup k = some e := by
    intro k e he
    rw [hlook] at he
    split_ifs at he with hk
    exact ⟨by omega, he⟩
  refine ⟨n, q', hrun, hmax, ⟨hgood, ?_, ?_, ?_, h.sent_le, h.reported_sent, h.lastSent_ge⟩, ?_⟩
  · exact fun k e he => h.record k e (hkept k e he).2
  · intro k bytes hout
    obtain ⟨e, he, -, hc⟩ := h.lookup_of_outstanding hout
    rw [hlook, if_neg, he]
    · rfl
    · intro hk
      have := hdropped k e hk he
      simp [hc] at this
  · intro hne
    obtain ⟨hlast, e, he, -⟩ := hfront (by simpa using hgood.isEmpty_iff.not.mpr hne)
    rw [hlast]
    apply h.last
    intro hl
    rw [lookup, hl, view_nil] at he
    simp at he
  · intro k e he
    have hne : q'.isEmpty = false := by
      rw [← Bool.not_eq_true]
      intro hempty
      rw [hgood.lookup_of_isEmpty hempty] at he
      simp at he
    obtain ⟨-, e', he', hc⟩ := hfront hne
    obtain ⟨hsize, hconsumed⟩ := h.record _ _ he'
    refine ⟨_, e'.size, (hkept k e he).1, hsize, ?_⟩
    rw [← hconsumed, hc]
    exact Bool.false_ne_true

/-- A packet number above all others, not too far from the oldest outstanding one, gets its record
and costs no outstanding packet its own. -/
theorem emplace (h : Records q l) (hs : Settled q l) (pn : Int64)
    (e : ConnectionStateOnSentPacket) (hnew : e.consumed = false) (hlt : l.lastSent < pn.toInt)
    (hspan : ∀ p ∈ l.sent, l.Outstanding p.1 p.2 → pn.toInt - p.1 < q.maxSlots) :
    ∃ q', q.emplace pn (some e) = some (true, q') ∧ q'.maxSlots = q.maxSlots ∧
      Records q' (l.send pn.toInt e.size true) ∧ Settled q' (l.send pn.toInt e.size true) ∧
      q'.lookup pn.toInt = some e := by
  have hpn : 0 ≤ pn.toInt := by
    have := h.lastSent_ge
    omega
  have hfresh : pn.toInt ∉ l.reported := by
    intro hmem
    have := h.sent_le _ (h.reported_sent _ hmem)
    omega
  have hok : q.EmplaceOk pn := by
    unfold EmplaceOk
    split_ifs with he
    · exact .inl hpn
    · obtain ⟨bytes, hout⟩ := h.first_outstanding hs (h.good.isEmpty_iff.not.mp he)
      have := hspan _ (mem_sent hout.1) hout
      omega
  obtain ⟨ok, q', hrun, hgood, hmax, hiff, -, hq⟩ := emplace_spec h.good pn (some e) hok
  have htrue : ok = true := by
    refine hiff.mpr ⟨rfl, ?_, ?_⟩
    · rintro rfl
      rw [toInt_invalid] at hpn
      omega
    · by_cases he : q.isEmpty = true
      · exact .inl he
      · right
        have := h.last (h.good.isEmpty_iff.not.mp he)
        rw [Int64.lt_iff_toInt_lt, h.good.lastPacket_eq he]
        omega
  subst htrue
  obtain ⟨e', he', hq⟩ := hq rfl
  obtain rfl := Option.some.inj he'
  have hlook := hq.lookup
  have hold : ∀ k e', q'.lookup k = some e' → k ≠ pn.toInt → q.lookup k = some e' := by
    intro k e' hk hne
    rw [hlook, emplaced, if_neg hne] at hk
    split_ifs at hk
    exact hk
  have hmem : ∀ k bytes, l.Outstanding k bytes →
      (l.send pn.toInt e.size true).Outstanding k bytes := by
    rintro k bytes ⟨hsize, hk⟩
    have := h.sent_le k (by simp [hsize])
    exact ⟨by rw [size_send, if_neg (by omega), hsize], hk⟩
  refine ⟨q', hrun, hmax, ⟨hgood, ?_, ?_, ?_, ?_, ?_, ?_⟩, ?_, by rw [hlook, emplaced, if_pos rfl]⟩
  · intro k e' hk
    rw [size_send]
    split_ifs with hkp
    · rw [hlook, emplaced, if_pos hkp, Option.some.injEq] at hk
      subst hk
      simp [hnew, hkp, send, hfresh]
    · exact h.record k e' (hold k e' hk hkp)
  · rintro k bytes ⟨hsize, hk⟩
    rw [hlook, emplaced]
    rw [size_send] at hsize
    split_ifs at hsize ⊢ with hkp hfar
    · rfl
    · have hspan' := hspan _ (mem_sent hsize) ⟨hsize, hk⟩
      omega
    · exact h.live k bytes ⟨hsize, hk⟩
  · intro _
    exact hq.last.le
  · intro k hk
    change k ≤ pn.toInt
    rw [size_send] at hk
    split_ifs at hk with hkp
    · omega
    · have := h.sent_le k hk
      omega
  · intro k hk
    rw [size_send]
    split_ifs
    · rfl
    · exact h.reported_sent k hk
  · change -1 ≤ pn.toInt
    omega
  · intro k e' hk
    by_cases hkp : k = pn.toInt
    · exact ⟨pn.toInt, e.size, by omega, by rw [size_send, if_pos rfl], hfresh⟩
    · obtain ⟨j, bytes, hj, hout⟩ := hs k e' (hold k e' hk hkp)
      exact ⟨j, bytes, hj, hmem j bytes hout⟩

end Records

structure Tracks (b : BandwidthSampler) (l : Ledger) : Prop where
  records : Records b.connectionStateMap l
  candidates : b.a0Candidates.WF
  acked : b.totalBytesAcked = l.acked

namespace Tracks

variable {b : BandwidthSampler} {l : Ledger}

theorem onPacketLost (h : Tracks b l) (pn : Int64) (bytesLost : ByteCount)
    (hfresh : (l.size pn.toInt).isSome → pn.toInt ∉ l.reported) :
    ∃ s b', b.onPacketLost pn bytesLost = some (s, b') ∧
      b'.connectionStateMap.maxSlots = b.connectionStateMap.maxSlots ∧
      Tracks b' (l.report pn.toInt) := by
  unfold BandwidthSampler.onPacketLost
  dsimp only
  rw [h.records.good.getEntry_eq]
  cases he : b.connectionStateMap.lookup pn.toInt with
  | none =>
    rw [report_of_unsent (h.records.report_absent he hfresh)]
    exact ⟨default, _, rfl, rfl, h.records, h.candidates, h.acked⟩
  | some e =>
    obtain ⟨q, hrun, hmax, hrecords⟩ := h.records.consume pn he
    simp only [Option.bind_eq_bind, Option.bind_some, hrun]
    exact ⟨_, _, rfl, hmax, hrecords, h.candidates, h.acked⟩

theorem onPacketAcknowledged (h : Tracks b l) (ackTime : Time) (pn : Int64)
    (hfresh : (l.size pn.toInt).isSome → pn.toInt ∉ l.reported) :
    ∃ s b', b.onPacketAcknowledged ackTime pn = some (s, b') ∧
      b'.connectionStateMap.maxSlots = b.connectionStateMap.maxSlots ∧
      Tracks b' (l.ack pn.toInt) := by
  unfold BandwidthSampler.onPacketAcknowledged
  dsimp only
  rw [h.records.good.getEntry_eq]
  cases he : b.connectionStateMap.lookup pn.toInt with
  | none =>
    have hunsent := h.records.report_absent he hfresh
    have hack : l.ack pn.toInt = l := by
      simp [Ledger.ack, report_of_unsent hunsent, hunsent]
    rw [hack]
    exact ⟨newBandwidthSample, _, rfl, rfl, h.records, h.candidates, h.acked⟩
  | some e =>
    obtain ⟨q, hrun, hmax, hrecords⟩ := h.records.consume pn he
    simp only [Option.bind_eq_bind, Option.bind_some, hrun]
    let b₁ : BandwidthSampler :=
      { b with lastAckedPacket := pn, connectionStateMap := q }
    obtain ⟨s, c, hsample, hwf⟩ := takeSample_spec
      (b := b₁.delivered ackTime pn e) h.candidates ackTime e
    refine ⟨s, _, hsample, hmax, hrecords.ack, hwf, ?_⟩
    change b.totalBytesAcked + e.size = l.acked + (l.size pn.toInt).getD 0
    simp [h.acked, (h.records.record _ _ he).1]

def lose (l : Ledger) (lost : List LostPacketInfo) : Ledger :=
  lost.foldl (fun l p => l.report p.packetNumber.toInt) l

def acknowledge (l : Ledger) (acked : List AckedPacketInfo) : Ledger :=
  acked.foldl (fun l p => l.ack p.packetNumber.toInt) l

section

variable (h : Tracks b l)

include h

theorem loseAll (lost : List LostPacketInfo) (last : SendTimeState)
    {ks : List ℤ} (hreports : l.ReportsOnce (lost.map (·.packetNumber.toInt) ++ ks)) :
    ∃ s b', loseAll lost last b = some (s, b') ∧
      b'.connectionStateMap.maxSlots = b.connectionStateMap.maxSlots ∧
      Tracks b' (lose l lost) ∧ (lose l lost).ReportsOnce ks := by
  induction lost generalizing b l last with
  | nil => exact ⟨last, b, rfl, rfl, h, hreports⟩
  | cons p lost ih =>
    obtain ⟨s, b₁, hrun, hmax, hb₁⟩ := h.onPacketLost p.packetNumber p.bytesLost hreports.fresh
    obtain ⟨s', b', hrest, hmax', htracks⟩ := ih hb₁ (if s.isValid then s else last) hreports.tail
    refine ⟨s', b', ?_, hmax'.trans hmax, htracks⟩
    rwa [loseAll, hrun]

theorem acknowledgeAll (ackTime : Time) (acked : List AckedPacketInfo)
    (t : BandwidthSampler.AckTally) (hreports : l.ReportsOnce (acked.map (·.packetNumber.toInt))) :
    ∃ t' b', acknowledgeAll ackTime acked t b = some (t', b') ∧
      b'.connectionStateMap.maxSlots = b.connectionStateMap.maxSlots ∧
      Tracks b' (acknowledge l acked) := by
  induction acked generalizing b l t with
  | nil => exact ⟨t, b, rfl, rfl, h⟩
  | cons p acked ih =>
    obtain ⟨s, b₁, hrun, hmax, hb₁⟩ := h.onPacketAcknowledged ackTime p.packetNumber hreports.fresh
    obtain ⟨t', b', hrest, hmax', htracks⟩ := ih hb₁ (t.add s b₁.totalBytesAcked) hreports.tail
    refine ⟨t', b', ?_, hmax'.trans hmax, htracks⟩
    rwa [acknowledgeAll, hrun]

theorem reclaimConsumed :
    ∃ b', b.reclaimConsumed = some b' ∧
      b'.connectionStateMap.maxSlots = b.connectionStateMap.maxSlots ∧
      Tracks b' l ∧ Settled b'.connectionStateMap l := by
  obtain ⟨n, q, hrun, hmax, hrecords, hsettled⟩ := h.records.trim
  refine ⟨{ b with connectionStateMap := q }, ?_, hmax, ⟨hrecords, h.candidates, h.acked⟩, hsettled⟩
  rw [BandwidthSampler.reclaimConsumed, hrun]
  rfl

theorem onCongestionEvent (scale : Scale) (ackTime : Time)
    (acked : List AckedPacketInfo) (lost : List LostPacketInfo)
    (maxBandwidth estBandwidthUpperBound : Bandwidth) (roundTripCount : UInt64)
    (hreports : l.ReportsOnce
      (lost.map (·.packetNumber.toInt) ++ acked.map (·.packetNumber.toInt))) :
    ∃ sample b', b.onCongestionEvent scale ackTime acked lost maxBandwidth estBandwidthUpperBound
        roundTripCount = some (sample, b') ∧
      b'.connectionStateMap.maxSlots = b.connectionStateMap.maxSlots ∧
      Tracks b' (acknowledge (lose l lost) acked) ∧
      Settled b'.connectionStateMap (acknowledge (lose l lost) acked) := by
  obtain ⟨s, b₁, hlost, hmax₁, hb₁, hreports'⟩ := h.loseAll lost default hreports
  unfold BandwidthSampler.onCongestionEvent
  simp only [hlost, Option.bind_eq_bind, Option.bind_some]
  cases acked with
  | nil =>
    obtain ⟨b', hreclaim, hmax, hb', hsettled⟩ := hb₁.reclaimConsumed
    rw [List.isEmpty_nil, if_pos rfl, hreclaim]
    exact ⟨_, b', rfl, hmax.trans hmax₁, hb', hsettled⟩
  | cons p acked =>
    obtain ⟨t, b₂, hacked, hmax₂, hb₂⟩ :=
      hb₁.acknowledgeAll ackTime (p :: acked) ⟨newCongestionEventSample, default, 0⟩ hreports'
    obtain ⟨sample, n, tracker, c, hfinish, hwf⟩ := finishSample_spec
      hb₂.candidates scale t maxBandwidth estBandwidthUpperBound roundTripCount
    have hb₃ : Tracks { b₂ with
        totalBytesAckedAfterLastAckEvent := n
        maxAckHeightTracker := tracker
        a0Candidates := c } (acknowledge (lose l lost) (p :: acked)) :=
      ⟨hb₂.records, hwf, hb₂.acked⟩
    obtain ⟨b', hreclaim, hmax, hb', hsettled⟩ := hb₃.reclaimConsumed
    rw [List.isEmpty_cons, if_neg Bool.false_ne_true, hacked]
    simp only [Option.bind_some, hfinish, hreclaim]
    exact ⟨_, b', rfl, hmax.trans (hmax₂.trans hmax₁), hb', hsettled⟩

variable (hs : Settled b.connectionStateMap l) (sentTime : Time) (pn : Int64)
  (bytes bytesInFlight : ByteCount)

include hs

theorem onPacketSent_record (hlt : l.lastSent < pn.toInt)
    (hspan : ∀ p ∈ l.sent, l.Outstanding p.1 p.2 →
      pn.toInt - p.1 < b.connectionStateMap.maxSlots) :
    ∃ q, b.onPacketSent sentTime pn bytes bytesInFlight true =
        some { b.opened sentTime pn bytes bytesInFlight with connectionStateMap := q } ∧
      q.maxSlots = b.connectionStateMap.maxSlots ∧ Records q (l.send pn.toInt bytes true) ∧
      Settled q (l.send pn.toInt bytes true) ∧
      q.lookup pn.toInt = some ((b.opened sentTime pn bytes bytesInFlight).sentRecord sentTime bytes
        (bytesInFlight + bytes)) := by
  have hmap : (b.opened sentTime pn bytes bytesInFlight).connectionStateMap =
      b.connectionStateMap := by
    unfold opened anchor
    split_ifs <;> rfl
  obtain ⟨q, hrun, hmax, hrecords, hsettled, hlook⟩ := h.records.emplace hs pn
    ((b.opened sentTime pn bytes bytesInFlight).sentRecord sentTime bytes (bytesInFlight + bytes))
    rfl hlt hspan
  refine ⟨q, ?_, hmax, hrecords, hsettled, hlook⟩
  rw [onPacketSent, Bool.not_true, if_neg Bool.false_ne_true]
  dsimp only
  rw [hmap, hrun]
  rfl

theorem onPacketSent (isRetransmittable : Bool) (hlt : l.lastSent < pn.toInt)
    (hspan : isRetransmittable = true → ∀ p ∈ l.sent, l.Outstanding p.1 p.2 →
      pn.toInt - p.1 < b.connectionStateMap.maxSlots) :
    ∃ b', b.onPacketSent sentTime pn bytes bytesInFlight isRetransmittable = some b' ∧
      b'.connectionStateMap.maxSlots = b.connectionStateMap.maxSlots ∧
      Tracks b' (l.send pn.toInt bytes isRetransmittable) ∧
      Settled b'.connectionStateMap (l.send pn.toInt bytes isRetransmittable) := by
  cases isRetransmittable with
  | false =>
    refine ⟨_, rfl, rfl, ⟨?_, h.candidates, h.acked⟩, hs⟩
    have hr := h.records
    exact ⟨hr.good, hr.record, hr.live,
      fun hne => (hr.last hne).trans (Int.add_le_add_right hlt.le 1),
      fun k hk => (hr.sent_le k hk).trans hlt.le, hr.reported_sent, hr.lastSent_ge.trans hlt.le⟩
  | true =>
    obtain ⟨q, hrun, hmax, hrecords, hsettled, -⟩ :=
      h.onPacketSent_record hs sentTime pn bytes bytesInFlight hlt (hspan rfl)
    have hopened : (b.opened sentTime pn bytes bytesInFlight).a0Candidates.WF ∧
        (b.opened sentTime pn bytes bytesInFlight).totalBytesAcked = b.totalBytesAcked := by
      unfold opened anchor
      dsimp only
      split_ifs
      · exact ⟨wf_pushBack (wf_init _) _, rfl⟩
      · exact ⟨h.candidates, rfl⟩
      · exact ⟨h.candidates, rfl⟩
    exact ⟨_, hrun, hmax, ⟨hrecords, hopened.1, hopened.2.trans h.acked⟩, hsettled⟩

end

end Tracks

inductive SamplerEvent where
  | sent (sentTime : Time) (packetNumber : Int64) (bytes bytesInFlight : ByteCount)
      (isRetransmittable : Bool)
  | congestion (ackTime : Time) (acked : List AckedPacketInfo) (lost : List LostPacketInfo)
      (maxBandwidth estBandwidthUpperBound : Bandwidth) (roundTripCount : UInt64)
  | appLimited
  | enableOverestimateAvoidance

variable (scale : Scale) (budget : ℕ) (quic : QuicConfig)

def BandwidthSampler.step (b : BandwidthSampler) :
    SamplerEvent → Option BandwidthSampler
  | .sent sentTime packetNumber bytes bytesInFlight isRetransmittable =>
    b.onPacketSent sentTime packetNumber bytes bytesInFlight isRetransmittable
  | .congestion ackTime acked lost maxBandwidth estBandwidthUpperBound roundTripCount =>
    (b.onCongestionEvent scale ackTime acked lost maxBandwidth estBandwidthUpperBound
      roundTripCount).map Prod.snd
  | .appLimited => some b.onAppLimited
  | .enableOverestimateAvoidance => some b.enableOverestimateAvoidance

def BandwidthSampler.run (b : BandwidthSampler) (events : List SamplerEvent) :
    Option BandwidthSampler :=
  events.foldlM (BandwidthSampler.step scale) b

def sendRecordBudget : ℕ :=
  max initialConnectionStateMapSlots (maxConnectionStateMapSlots quic)

namespace Ledger

def step (l : Ledger) : SamplerEvent → Ledger
  | .sent _ packetNumber bytes _ isRetransmittable =>
    l.send packetNumber.toInt bytes isRetransmittable
  | .congestion _ acked lost _ _ _ => Tracks.acknowledge (Tracks.lose l lost) acked
  | _ => l

def run (l : Ledger) (events : List SamplerEvent) : Ledger := events.foldl step l

/-- Packet numbers increase, no outstanding packet is a whole budget behind the one sent, and no
packet is reported twice. -/
def Allows (l : Ledger) : SamplerEvent → Prop
  | .sent _ packetNumber _ _ isRetransmittable => l.lastSent < packetNumber.toInt ∧
    (isRetransmittable = true →
      ∀ p ∈ l.sent, l.Outstanding p.1 p.2 → packetNumber.toInt - p.1 < budget)
  | .congestion _ acked lost _ _ _ =>
    l.ReportsOnce (lost.map (·.packetNumber.toInt) ++ acked.map (·.packetNumber.toInt))
  | _ => True

instance (l : Ledger) (event : SamplerEvent) : Decidable (l.Allows budget event) := by
  cases event <;> unfold Allows <;> infer_instance

def AllowsRun (budget : ℕ) : Ledger → List SamplerEvent → Prop
  | _, [] => True
  | l, event :: events => l.Allows budget event ∧ AllowsRun budget (l.step event) events

instance (l : Ledger) (events : List SamplerEvent) : Decidable (AllowsRun budget l events) := by
  induction events generalizing l with
  | nil => exact isTrue trivial
  | cons event events ih =>
    have := ih (l.step event)
    exact inferInstanceAs (Decidable (_ ∧ _))

end Ledger

namespace Tracks

variable {b : BandwidthSampler} {l : Ledger}

theorem step (h : Tracks b l) (hs : Settled b.connectionStateMap l) (scale : Scale)
    (event : SamplerEvent) (hallows : l.Allows b.connectionStateMap.maxSlots event) :
    ∃ b', b.step scale event = some b' ∧
      b'.connectionStateMap.maxSlots = b.connectionStateMap.maxSlots ∧
      Tracks b' (l.step event) ∧ Settled b'.connectionStateMap (l.step event) := by
  cases event with
  | sent sentTime pn bytes bytesInFlight isRetransmittable =>
    exact h.onPacketSent hs sentTime pn bytes bytesInFlight isRetransmittable hallows.1 hallows.2
  | congestion ackTime acked lost maxBandwidth estBandwidthUpperBound roundTripCount =>
    obtain ⟨sample, b', hrun, hmax, hb', hsettled⟩ := h.onCongestionEvent scale ackTime acked lost
      maxBandwidth estBandwidthUpperBound roundTripCount hallows
    refine ⟨b', ?_, hmax, hb', hsettled⟩
    rw [BandwidthSampler.step, hrun]
    rfl
  | appLimited => exact ⟨_, rfl, rfl, ⟨h.records, h.candidates, h.acked⟩, hs⟩
  | enableOverestimateAvoidance =>
    rw [BandwidthSampler.step, BandwidthSampler.enableOverestimateAvoidance]
    split_ifs
    · exact ⟨b, rfl, rfl, h, hs⟩
    · exact ⟨_, rfl, rfl, ⟨h.records, wf_init _, h.acked⟩, hs⟩

theorem run (scale : Scale) (events : List SamplerEvent) (h : Tracks b l)
    (hs : Settled b.connectionStateMap l)
    (hallows : Ledger.AllowsRun b.connectionStateMap.maxSlots l events) :
    ∃ b', b.run scale events = some b' ∧
      b'.connectionStateMap.maxSlots = b.connectionStateMap.maxSlots ∧ Tracks b' (l.run events) ∧
      Settled b'.connectionStateMap (l.run events) := by
  induction events generalizing b l with
  | nil => exact ⟨b, rfl, rfl, h, hs⟩
  | cons event events ih =>
    obtain ⟨b₁, hstep, hmax, hb₁, hs₁⟩ := h.step hs scale event hallows.1
    obtain ⟨b', hrun, hmax', hb'⟩ := ih hb₁ hs₁ (hmax ▸ hallows.2)
    refine ⟨b', ?_, hmax'.trans hmax, hb'⟩
    simpa [BandwidthSampler.run, hstep] using hrun

theorem new (quic : QuicConfig) (windowLength : UInt64) :
    Tracks (newBandwidthSampler quic windowLength) .new ∧
      Settled (newBandwidthSampler quic windowLength).connectionStateMap .new := by
  have hgood : (newBandwidthSampler quic windowLength).connectionStateMap.Good := good_new _ _
  have hnone : ∀ k, (newBandwidthSampler quic windowLength).connectionStateMap.lookup k = none :=
    fun k => hgood.lookup_of_isEmpty rfl k
  have hl := hgood.isEmpty_iff.mp rfl
  refine ⟨⟨⟨hgood, ?_, ?_, fun hne => absurd hl hne, ?_, ?_, le_rfl⟩, ?_, rfl⟩, ?_⟩
  · intro k e he
    simp [hnone] at he
  · rintro k bytes ⟨hsize, -⟩
    simp [size, Ledger.new] at hsize
  · intro k hk
    simp [size, Ledger.new] at hk
  · intro k hk
    simp [Ledger.new] at hk
  · exact wf_init 0
  · intro k e he
    simp [hnone] at he

end Tracks

/-- The delivered bytes are counted exactly, every outstanding packet still has its record, and no
record or slot is older than the oldest outstanding packet. -/
structure Accounts (b : BandwidthSampler) (l : Ledger) : Prop where
  acked : b.totalBytesAcked = l.acked
  retrievable : ∀ (pn : Int64) (bytes : ByteCount), l.Outstanding pn.toInt bytes →
    ∃ e, b.connectionStateMap.getEntry pn = some (some e) ∧ e.size = bytes
  trimmed : ∀ (pn : Int64) (e : ConnectionStateOnSentPacket),
    b.connectionStateMap.getEntry pn = some (some e) → ∃ k bytes, k ≤ pn.toInt ∧ l.Outstanding k bytes
  first : b.connectionStateMap.entrySlotsUsed ≠ 0 →
    ∃ bytes, l.Outstanding b.connectionStateMap.firstPacket.toInt bytes

theorem Tracks.accounts {b : BandwidthSampler} {l : Ledger} (h : Tracks b l)
    (hs : Settled b.connectionStateMap l) : Accounts b l where
  acked := h.acked
  retrievable := by
    intro pn bytes hout
    obtain ⟨e, he, hsize, -⟩ := h.records.lookup_of_outstanding hout
    exact ⟨e, by rw [h.records.good.getEntry_eq, he], hsize⟩
  trimmed := by
    intro pn e he
    rw [h.records.good.getEntry_eq, Option.some.injEq] at he
    exact hs _ e he
  first := by
    intro hused
    apply h.records.first_outstanding hs
    intro hl
    exact hused ((toList_eq_nil_iff _).mp hl)

theorem maxSlots_newBandwidthSampler (windowLength : UInt64) :
    (newBandwidthSampler quic windowLength).connectionStateMap.maxSlots = sendRecordBudget quic := by
  unfold newBandwidthSampler newPacketNumberIndexedQueue sendRecordBudget
  rw [if_neg (by decide)]
  dsimp only
  split_ifs with h
  · rw [Int.toNat_natCast, max_eq_left (by omega)]
  · rw [Int.toNat_natCast, max_eq_right (by omega)]

/-- Accounting of delivered bytes. In every run in which packet numbers increase, no packet is
reported twice and no outstanding packet falls a whole budget behind, the sampler never panics and
its accounts are exact after every event. -/
theorem run_accounts (windowLength : UInt64)
    (events : List SamplerEvent) (hallows : Ledger.AllowsRun (sendRecordBudget quic) .new events) :
    ∃ b, (newBandwidthSampler quic windowLength).run scale events = some b ∧
      Accounts b (new.run events) := by
  obtain ⟨htracks, hsettled⟩ := Tracks.new quic windowLength
  rw [← maxSlots_newBandwidthSampler quic windowLength] at hallows
  obtain ⟨b, hrun, -, hb, hs⟩ := Tracks.run scale events htracks hsettled hallows
  exact ⟨b, hrun, hb.accounts hs⟩

def sampleReports : List SamplerEvent :=
  [.sent 1 1 1200 1200 true, .sent 2 2 1000 2200 true, .sent 3 3 40 2200 false,
    .sent 4 5 900 3100 true, .congestion 5 [⟨2, 1000⟩] [] 0 0 0, .appLimited,
    .congestion 6 [⟨5, 900⟩, ⟨3, 40⟩] [⟨1, 1200⟩] 0 0 1]

theorem run_accounts_sample :
    Ledger.AllowsRun (sendRecordBudget sampleQuic) .new sampleReports ∧
      (new.run sampleReports).acked = 1900 ∧
      ∃ b, (newBandwidthSampler sampleQuic 10).run exactScale sampleReports = some b ∧
        Accounts b (new.run sampleReports) := by
  have hallows : Ledger.AllowsRun (sendRecordBudget sampleQuic) .new sampleReports := by decide
  exact ⟨hallows, by decide, run_accounts exactScale sampleQuic 10 sampleReports hallows⟩

end Outbound.Bbr
