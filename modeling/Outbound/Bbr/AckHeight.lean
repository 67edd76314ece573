import Outbound.Bbr.BandwidthSampler

/-! The heights of ack aggregation, against the bytes that were acked in the epoch. -/
namespace Outbound.Bbr

/-- A product with a factor of at least one is no less than the number itself, where the number is
exact in floating point and the product is in the range of the conversion back. -/
def Scale.Enlarges (scale : Scale) : Prop :=
  ∀ (g : ℚ) (x : ℤ), 1 ≤ g → g ≤ 2147483648 → 0 ≤ x → x < 2147483648 → x ≤ scale g x

theorem enlarges_exactScale : Scale.Enlarges exactScale := by
  intro g x hg _ hx _
  have hcast : (0 : ℚ) ≤ x := by exact_mod_cast hx
  have hmul : (1 : ℚ) * x ≤ g * x := Rat.mul_le_mul_of_nonneg_right hg hcast
  rw [one_mul] at hmul
  exact Rat.le_floor_iff.mpr hmul

theorem bytesFromBandwidthAndTimeDelta_of_fits {bandwidth : Bandwidth} {delta : Duration}
    (hrange : bandwidth.toNat ≤ 1099511627776) (hdelta : 0 ≤ delta)
    (hfits : bandwidth.toNat * delta ≤ maxDuration) :
    0 ≤ bytesFromBandwidthAndTimeDelta bandwidth delta ∧
      bytesFromBandwidthAndTimeDelta bandwidth delta < 2147483648 := by
  have hsmall : 2 * bandwidth.toBitVec.toNat < 2 ^ 64 := by
    rw [UInt64.toNat_toBitVec]
    omega
  have hbytes : bandwidth.toBytes = bandwidth.toNat := BitVec.toInt_eq_toNat_of_lt hsmall
  have hpos : 0 ≤ (bandwidth.toNat : ℤ) * delta := Int.mul_nonneg (Int.natCast_nonneg _) hdelta
  have hdiv : ∀ x : ℤ, 0 ≤ x → x ≤ 9223372036854775807 →
      0 ≤ x / 8000000000 ∧ x / 8000000000 < 2147483648 := by omega
  unfold bytesFromBandwidthAndTimeDelta
  rw [hbytes, wrap64_of_le hpos hfits, Int.tdiv_eq_ediv_of_nonneg hpos]
  exact hdiv _ hpos hfits

namespace MaxAckHeightTracker

structure Ack where
  bandwidthEstimate : Bandwidth
  isNewMaxBandwidth : Bool
  roundTripCount : UInt64
  lastSentPacketNumber : Int64
  lastAckedPacketNumber : Int64
  ackTime : Time
  bytesAcked : ByteCount

variable (scale : Scale) (m : MaxAckHeightTracker) (s : History) (a : Ack)

def ack : ByteCount × MaxAckHeightTracker :=
  m.update scale a.bandwidthEstimate a.isNewMaxBandwidth a.roundTripCount a.lastSentPacketNumber
    a.lastAckedPacketNumber a.ackTime a.bytesAcked

/-- `Update` starts an epoch with this ack before it looks at the bandwidth. -/
def startsEpoch : Bool :=
  Time.isZero m.aggregationEpochStartTime || (m.startNewAggregationEpochAfterFullRound &&
    m.lastSentPacketNumberBeforeEpoch != invalidPacketNumber &&
    a.lastAckedPacketNumber != invalidPacketNumber &&
    decide (m.lastSentPacketNumberBeforeEpoch < a.lastAckedPacketNumber))

def expected : ByteCount :=
  bytesFromBandwidthAndTimeDelta a.bandwidthEstimate (a.ackTime.sub m.aggregationEpochStartTime)

theorem ack_cases :
    (m.ack scale a).2.ackAggregationBandwidthThreshold = m.ackAggregationBandwidthThreshold ∧
    (((m.ack scale a).1 = 0 ∧
        (m.ack scale a).2.numAckAggregationEpochs = m.numAckAggregationEpochs + 1 ∧
        (m.ack scale a).2.aggregationEpochStartTime = a.ackTime ∧
        (m.ack scale a).2.aggregationEpochBytes = a.bytesAcked) ∨
      (m.startsEpoch a = false ∧
        scale m.ackAggregationBandwidthThreshold (m.expected a) < m.aggregationEpochBytes ∧
        (m.ack scale a).1 =
          wrap64 (wrap64 (m.aggregationEpochBytes + a.bytesAcked) - m.expected a) ∧
        (m.ack scale a).2.numAckAggregationEpochs = m.numAckAggregationEpochs ∧
        (m.ack scale a).2.aggregationEpochStartTime = m.aggregationEpochStartTime ∧
        (m.ack scale a).2.aggregationEpochBytes =
          wrap64 (m.aggregationEpochBytes + a.bytesAcked))) := by
  -- lowering the heights of the filter changes nothing else
  have hfilter : ∃ f, (if m.reduceExtraAckedOnBandwidthIncrease && a.isNewMaxBandwidth then
      m.reduce a.bandwidthEstimate else m) = { m with maxAckHeightFilter := f } := by
    split
    · exact ⟨_, rfl⟩
    · exact ⟨_, rfl⟩
  obtain ⟨f, hf⟩ := hfilter
  unfold ack update
  rw [hf]
  dsimp only
  split_ifs with hstart hless
  · exact ⟨rfl, .inl ⟨rfl, rfl, rfl, rfl⟩⟩
  · exact ⟨rfl, .inl ⟨rfl, rfl, rfl, rfl⟩⟩
  · exact ⟨rfl, .inr ⟨eq_false_of_ne_true hstart, Int.not_le.mp hless, rfl, rfl, rfl, rfl⟩⟩

inductive Call where
  | update (a : Ack)
  | setFilterWindowLength (length : UInt64)
  | reset (newHeight : ByteCount) (newTime : UInt64)
  /-- The setters of the threshold and of the two flags. -/
  | configure (threshold : ℚ) (startAfterFullRound reduceOnIncrease : Bool)

/-- The tracker, with the time of the last ack and the bytes acked since the epoch started. -/
structure History where
  tracker : MaxAckHeightTracker
  now : Time
  epochBytes : ByteCount

namespace History

def step : Call → ByteCount × History
  | .update a =>
    let (height, tracker) := s.tracker.ack scale a
    let carried :=
      if tracker.numAckAggregationEpochs = s.tracker.numAckAggregationEpochs then s.epochBytes else 0
    (height, ⟨tracker, a.ackTime, carried + a.bytesAcked⟩)
  | .setFilterWindowLength length =>
    (0, { s with tracker := s.tracker.setFilterWindowLength length })
  | .reset newHeight newTime => (0, { s with tracker := s.tracker.reset newHeight newTime })
  | .configure threshold startAfterFullRound reduceOnIncrease =>
    (0, { s with tracker := { s.tracker with
      ackAggregationBandwidthThreshold := threshold
      startNewAggregationEpochAfterFullRound := startAfterFullRound
      reduceExtraAckedOnBandwidthIncrease := reduceOnIncrease } })

/-- Acks come in the order of their times, with estimates of up to a terabit per second. -/
def Allows : Call → Prop
  | .update a => s.now ≤ a.ackTime ∧ 0 ≤ a.bytesAcked ∧ a.bandwidthEstimate.toNat ≤ 1099511627776
  | .configure threshold _ _ => 1 ≤ threshold
  | _ => True

def Fits : Call → Prop
  | .update a => s.tracker.startsEpoch a = true ∨
    a.bandwidthEstimate.toNat * (a.ackTime - s.tracker.aggregationEpochStartTime) ≤ maxDuration ∧
      s.tracker.aggregationEpochBytes + a.bytesAcked ≤ maxDuration ∧
      s.tracker.ackAggregationBandwidthThreshold ≤ 2147483648
  | _ => True

def HeightBounded (c : Call) : Prop :=
  0 ≤ (s.step scale c).1 ∧ (s.step scale c).1 ≤ (s.step scale c).2.epochBytes

structure Counts : Prop where
  threshold : 1 ≤ s.tracker.ackAggregationBandwidthThreshold
  start : s.tracker.aggregationEpochStartTime ≤ s.now
  bytes : s.tracker.aggregationEpochStartTime ≠ 0 → s.tracker.aggregationEpochBytes = s.epochBytes
  nonneg : 0 ≤ s.epochBytes

theorem Counts.step {scale : Scale} (hscale : scale.Enlarges) {s : History} (h : s.Counts) {c : Call}
    (hallows : s.Allows c) (hfits : s.Fits c) :
    s.HeightBounded scale c ∧ (s.step scale c).2.Counts := by
  cases c with
  | setFilterWindowLength length =>
    exact ⟨⟨Int.le_refl 0, h.nonneg⟩, h.threshold, h.start, h.bytes, h.nonneg⟩
  | reset newHeight newTime =>
    exact ⟨⟨Int.le_refl 0, h.nonneg⟩, h.threshold, h.start, h.bytes, h.nonneg⟩
  | configure threshold startAfterFullRound reduceOnIncrease =>
    exact ⟨⟨Int.le_refl 0, h.nonneg⟩, hallows, h.start, h.bytes, h.nonneg⟩
  | update a =>
    obtain ⟨horder, hacked, hrange⟩ := hallows
    have hbegun := Int.le_trans h.start horder
    obtain ⟨hkept, hcases⟩ := ack_cases scale s.tracker a
    rcases hcases with ⟨hheight, hepochs, hstart, hbytes⟩ |
      ⟨hgoes, hover, hheight, hepochs, hstart, hbytes⟩
    · have hcarried : (s.step scale (.update a)).2.epochBytes = a.bytesAcked := by
        simp [History.step, hepochs]
      refine ⟨⟨hheight.ge, ?_⟩, hkept ▸ h.threshold, hstart.le, fun _ => hbytes.trans hcarried.symm, ?_⟩
      · rw [hcarried]
        exact hheight.trans_le hacked
      · rwa [hcarried]
    · have hcarried : (s.step scale (.update a)).2.epochBytes = s.epochBytes + a.bytesAcked := by
        simp [History.step, hepochs]
      obtain ⟨hproduct, hsum, hthreshold⟩ := hfits.resolve_left (by simp [hgoes])
      have hset : s.tracker.aggregationEpochStartTime ≠ 0 := by
        intro hzero
        simp [startsEpoch, hzero, Time.isZero] at hgoes
      obtain ⟨hdelta, hclamped⟩ := Time.sub_of_le hbegun
      obtain ⟨hpos, hsmall⟩ := bytesFromBandwidthAndTimeDelta_of_fits hrange hdelta
        ((Int.mul_le_mul_of_nonneg_left hclamped (Int.natCast_nonneg _)).trans hproduct)
      -- the epoch would have been reset, had it acked no more than was expected
      have hexpected : s.tracker.expected a ≤ s.epochBytes := by
        rw [← h.bytes hset]
        exact (hscale _ _ h.threshold hthreshold hpos hsmall).trans hover.le
      have htotal : 0 ≤ s.epochBytes + a.bytesAcked := Int.add_nonneg h.nonneg hacked
      rw [h.bytes hset] at hsum hheight hbytes
      rw [wrap64_of_le htotal hsum] at hheight hbytes
      have hnonneg : 0 ≤ s.epochBytes + a.bytesAcked - s.tracker.expected a :=
        Int.sub_nonneg_of_le (hexpected.trans (Int.le_add_of_nonneg_right hacked))
      have hle : s.epochBytes + a.bytesAcked - s.tracker.expected a ≤ s.epochBytes + a.bytesAcked :=
        Int.sub_le_self _ hpos
      rw [wrap64_of_le hnonneg (hle.trans hsum)] at hheight
      refine ⟨⟨hnonneg.trans_eq hheight.symm, ?_⟩, hkept ▸ h.threshold, hstart.trans_le hbegun,
        fun _ => hbytes.trans hcarried.symm, ?_⟩
      · rw [hcarried]
        exact hheight.trans_le hle
      · rwa [hcarried]

/-- No height exceeds what was acked in its epoch, as long as nothing leaves the range of a word. -/
theorem heightBounded_run {scale : Scale} (hscale : scale.Enlarges) {m : MaxAckHeightTracker}
    (hunset : m.aggregationEpochStartTime = 0) (hthreshold : 1 ≤ m.ackAggregationBandwidthThreshold)
    {calls : List Call}
    (hrun : Run.Along (step scale) (fun s c => s.Allows c ∧ s.Fits c) ⟨m, 0, 0⟩ calls) :
    Run.Along (step scale) (HeightBounded scale) ⟨m, 0, 0⟩ calls := by
  have hnew : Counts ⟨m, 0, 0⟩ :=
    ⟨hthreshold, hunset.le, fun hset => absurd hunset hset, Int.le_refl 0⟩
  exact Run.Along.of_invariant Counts (fun _ _ h hc => h.step hscale hc.1 hc.2) hnew hrun

def sampleAck (bandwidth : Bandwidth) (ackTime : Time) : Call :=
  .update ⟨bandwidth, false, 0, 1, 0, ackTime, 1000⟩

theorem heightBounded_slow :
    Run.Along (step exactScale) (HeightBounded exactScale) ⟨new 10, 0, 0⟩
      [sampleAck 8000 1700000000000000000, sampleAck 8000 1700000000000001000] := by
  apply heightBounded_run enlarges_exactScale rfl (by decide)
  refine ⟨⟨⟨?_, ?_, ?_⟩, .inl rfl⟩, ⟨⟨?_, ?_, ?_⟩, .inr ⟨?_, ?_, ?_⟩⟩, trivial⟩ <;> decide

/-- At eight gigabits per second a pause of one second is enough to leave the range. -/
theorem height_after_pause :
    (Run.answers (step exactScale) ⟨new 10, 0, 0⟩
      [sampleAck 8589934592 1, sampleAck 8589934592 1073741825]) = [0, 1152923504] ∧
    (Run.exec (step exactScale) ⟨new 10, 0, 0⟩
      [sampleAck 8589934592 1, sampleAck 8589934592 1073741825]).epochBytes = 2000 := by
  decide +kernel

end History

end MaxAckHeightTracker

end Outbound.Bbr
