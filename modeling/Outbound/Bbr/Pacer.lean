import Outbound.Bbr.BandwidthSampler

/-! The token bucket that paces packets. The bandwidth it asks its owner for is an argument here. -/
namespace Outbound.Bbr

structure Pacer where
  budgetAtLastSent : ByteCount
  maxDatagramSize : ByteCount
  lastSentTime : Time
deriving DecidableEq

namespace Pacer

def maxBurstPackets : ℕ := 10

variable (quic : QuicConfig)

def new : Pacer :=
  ⟨maxBurstPackets * quic.initialPacketSize, quic.initialPacketSize, 0⟩

variable (p : Pacer) (bandwidth : ByteCount)

def maxBurstSize : ByteCount :=
  max ((wrap64 ((quic.minPacingDelay + millisecond) * bandwidth)).tdiv second)
    (wrap64 (maxBurstPackets * p.maxDatagramSize))

def budget (now : Time) : ByteCount :=
  if Time.isZero p.lastSentTime then p.maxBurstSize quic bandwidth
  else
    let budget := wrap64 (p.budgetAtLastSent +
      (wrap64 (bandwidth * Time.sub now p.lastSentTime)).tdiv second)
    -- the source's guard against a product that left the range of a word
    let budget := if budget < 0 then 2 ^ 62 - 1 else budget
    min (p.maxBurstSize quic bandwidth) budget

def sentPacket (sendTime : Time) (size : ByteCount) : Pacer :=
  let budget := p.budget quic bandwidth sendTime
  { p with
    budgetAtLastSent := if budget < size then 0 else budget - size
    lastSentTime := sendTime }

def setMaxDatagramSize (s : ByteCount) : Pacer := { p with maxDatagramSize := s }

/-- The time at which the next packet should be sent, or the zero time if that is at once. The
division is exact, and rounded up. -/
def timeUntilSend : Time :=
  if p.maxDatagramSize ≤ p.budgetAtLastSent then 0
  else p.lastSentTime + max quic.minPacingDelay
    (-(-((p.maxDatagramSize - p.budgetAtLastSent) * second) / bandwidth))

section Budget

variable {bandwidth} {size : ByteCount} {p} {now : Time}

/-- The values with which the size of a burst and the delay of a datagram are in the range of a
word. -/
structure InRange (bandwidth size : ByteCount) : Prop where
  delay : 0 ≤ quic.minPacingDelay ∧ quic.minPacingDelay ≤ millisecond
  bandwidth : 0 < bandwidth ∧ bandwidth ≤ 137438953472
  size : 0 < size ∧ size ≤ 9223372036

/-- The product of the source, before it is cut to a word. -/
def product (p : Pacer) (bandwidth : ByteCount) (now : Time) : ℤ :=
  bandwidth * now.sub p.lastSentTime

/-- Up to here the product is in the range of a word, or it is so far below zero after the first wrap
that the guard repairs the sum. -/
def Fits (p : Pacer) (bandwidth : ByteCount) (now : Time) : Prop :=
  p.lastSentTime = 0 ∨ p.product bandwidth now ≤ maxDuration ∨
    p.product bandwidth now + (p.budgetAtLastSent + 1) * second ≤ 18446744073709551616

/-- The budget is in its bounds and does not shrink, and a sender that waits as told can send. -/
structure Paces (p : Pacer) (bandwidth : ByteCount) (now later : Time) : Prop where
  nonneg : 0 ≤ p.budget quic bandwidth now
  mono : p.budget quic bandwidth now ≤ p.budget quic bandwidth later
  le_burst : p.budget quic bandwidth later ≤ p.maxBurstSize quic bandwidth
  sends : p.timeUntilSend quic bandwidth ≤ now → p.maxDatagramSize ≤ p.budget quic bandwidth now

variable {quic}

/-- What the division of the wrapped product gives, up to the second wrap. -/
theorem tdiv_wrap64 {x : ℤ} (hx : 0 ≤ x) (hle : x ≤ 27670116110564327423) :
    x ≤ 9223372036854775807 ∧ (wrap64 x).tdiv second = x / 1000000000 ∨
    9223372036854775807 < x ∧ x < 18446744073709551616 ∧
      (wrap64 x).tdiv second = -((18446744073709551616 - x) / 1000000000) ∨
    18446744073709551616 ≤ x ∧
      (wrap64 x).tdiv second = (x - 18446744073709551616) / 1000000000 := by
  by_cases hfits : x ≤ 9223372036854775807
  · rw [wrap64_of_le hx hfits]
    exact .inl ⟨hfits, Int.tdiv_eq_ediv_of_nonneg hx⟩
  have hwrap : wrap64 x = x - 18446744073709551616 := by
    rw [wrap64, Int.bmod_def]
    split_ifs <;> omega
  rw [hwrap]
  by_cases hneg : x < 18446744073709551616
  · refine .inr (.inl ⟨Int.not_le.mp hfits, hneg, ?_⟩)
    rw [← Int.neg_sub, Int.neg_tdiv]
    exact congrArg _ (Int.tdiv_eq_ediv_of_nonneg (Int.sub_nonneg_of_le hneg.le))
  · have hpos := Int.not_lt.mp hneg
    exact .inr (.inr ⟨hpos, Int.tdiv_eq_ediv_of_nonneg (Int.sub_nonneg_of_le hpos)⟩)

section

variable (h : InRange quic bandwidth p.maxDatagramSize)

include h

theorem maxBurstSize_of_inRange :
    10 * p.maxDatagramSize ≤ p.maxBurstSize quic bandwidth ∧
      1000000 * bandwidth / 1000000000 ≤ p.maxBurstSize quic bandwidth ∧
      p.maxBurstSize quic bandwidth ≤ 4611686018427387903 := by
  obtain ⟨⟨hdelay, hdelay'⟩, ⟨hbandwidth, hbandwidth'⟩, hsize, hsize'⟩ := h
  have hproduct : (quic.minPacingDelay + millisecond) * bandwidth ≤
      (1000000 + 1000000) * 137438953472 :=
    Int.mul_le_mul (Int.add_le_add_right hdelay' _) hbandwidth' hbandwidth.le (by decide)
  have hleast : 1000000 * bandwidth ≤ (quic.minPacingDelay + millisecond) * bandwidth :=
    Int.mul_le_mul_of_nonneg_right (Int.le_add_of_nonneg_left hdelay) hbandwidth.le
  have hpos : 0 ≤ (quic.minPacingDelay + millisecond) * bandwidth :=
    (Int.mul_nonneg (by decide) hbandwidth.le).trans hleast
  have hburst : 0 ≤ 10 * p.maxDatagramSize ∧ 10 * p.maxDatagramSize ≤ 4611686018427387903 := by lia
  have hdiv : ∀ x : ℤ, x ≤ (1000000 + 1000000) * 137438953472 →
      x / 1000000000 ≤ 4611686018427387903 := by omega
  have hpackets : (maxBurstPackets : ℤ) * p.maxDatagramSize = 10 * p.maxDatagramSize := rfl
  unfold maxBurstSize
  rw [hpackets, wrap64_of_le hpos (hproduct.trans (by decide)),
    wrap64_of_le hburst.1 (hburst.2.trans (by decide)), Int.tdiv_eq_ediv_of_nonneg hpos]
  exact ⟨Int.le_max_right _ _, (Int.ediv_le_ediv (by decide) hleast).trans (Int.le_max_left _ _),
    Int.max_le.mpr ⟨hdiv _ hproduct, hburst.2⟩⟩

theorem budget_bounds (now : Time) :
    0 ≤ p.budget quic bandwidth now ∧
      p.budget quic bandwidth now ≤ p.maxBurstSize quic bandwidth := by
  have hburst : 0 ≤ p.maxBurstSize quic bandwidth :=
    (Int.mul_nonneg (by decide) h.size.1.le).trans (maxBurstSize_of_inRange h).1
  unfold budget
  split
  · exact ⟨hburst, Int.le_refl _⟩
  · refine ⟨Int.le_min.mpr ⟨hburst, ?_⟩, Int.min_le_left _ _⟩
    split_ifs with hneg
    · decide
    · exact Int.not_lt.mp hneg

section

variable (hset : p.lastSentTime ≠ 0)
  (hlast : 0 ≤ p.budgetAtLastSent ∧ p.budgetAtLastSent < p.maxBurstSize quic bandwidth)

include hset hlast

/-- The sum is in the range of a word, so that nothing but the product wraps. -/
theorem budget_eq (hpos : 0 ≤ p.product bandwidth now)
    (hle : p.product bandwidth now ≤ 27670116110564327423) :
    p.budget quic bandwidth now =
      if p.budgetAtLastSent + (wrap64 (p.product bandwidth now)).tdiv second < 0 then
        p.maxBurstSize quic bandwidth
      else min (p.maxBurstSize quic bandwidth)
        (p.budgetAtLastSent + (wrap64 (p.product bandwidth now)).tdiv second) := by
  have hburst := (maxBurstSize_of_inRange h).2.2
  have hzero : Time.isZero p.lastSentTime = false := beq_false_of_ne hset
  have hquotient : -9223372037 ≤ (wrap64 (p.product bandwidth now)).tdiv second ∧
      (wrap64 (p.product bandwidth now)).tdiv second ≤ 9223372037 := by
    have hcases := tdiv_wrap64 hpos hle
    lia
  unfold budget
  rw [hzero]
  change min _ (if wrap64 (p.budgetAtLastSent + (wrap64 (p.product bandwidth now)).tdiv second) < 0
    then _ else wrap64 (p.budgetAtLastSent + (wrap64 (p.product bandwidth now)).tdiv second)) = _
  rw [wrap64, Int.bmod_eq_of_le (by lia) (by lia)]
  split_ifs
  · exact Int.min_eq_left hburst
  · rfl

/-- Within the range: what has accrued since the last packet, up to a burst; where the guard repairs
the sum, a burst. -/
theorem budget_of_fits (hpos : 0 ≤ p.product bandwidth now) (hfits : p.Fits bandwidth now) :
    9223372036854775807 < p.product bandwidth now ∧
        p.budget quic bandwidth now = p.maxBurstSize quic bandwidth ∨
      p.product bandwidth now ≤ 9223372036854775807 ∧
      p.budget quic bandwidth now = min (p.maxBurstSize quic bandwidth)
        (p.budgetAtLastSent + p.product bandwidth now / 1000000000) := by
  have hbound : p.product bandwidth now ≤ 9223372036854775807 ∨
      p.product bandwidth now + (p.budgetAtLastSent + 1) * 1000000000 ≤ 18446744073709551616 :=
    hfits.resolve_left hset
  have hle : p.product bandwidth now ≤ 27670116110564327423 := by lia
  rw [budget_eq h hset hlast hpos hle]
  rcases tdiv_wrap64 hpos hle with ⟨hsmall, heq⟩ | ⟨hover, hneg, heq⟩ | ⟨hover, -⟩
  · rw [heq, if_neg (by lia)]
    exact .inr ⟨hsmall, rfl⟩
  · rw [heq, if_pos (by lia)]
    exact .inl ⟨hover, rfl⟩
  · lia

/-- The first product behind the range: the budget falls to what was left by the last packet, or to
what has accrued anew. -/
theorem budget_behind (hover : ¬ p.product bandwidth now ≤ 9223372036854775807)
    (hwrap : 18446744073709551616 <
      p.product bandwidth now + (p.budgetAtLastSent + 1) * 1000000000)
    (hfirst : p.product bandwidth now ≤ bandwidth +
      max 9223372036854775807 (18446744073709551616 - (p.budgetAtLastSent + 1) * 1000000000)) :
    p.budget quic bandwidth now ≤ p.budgetAtLastSent + bandwidth / 1000000000 ∧
      p.budget quic bandwidth now < p.maxBurstSize quic bandwidth := by
  have hbandwidth := h.bandwidth
  have hburst := (maxBurstSize_of_inRange h).2.1
  have hle : p.product bandwidth now ≤ 27670116110564327423 := by lia
  rw [budget_eq h hset hlast (by lia) hle]
  rcases tdiv_wrap64 (by lia) hle with ⟨hsmall, -⟩ | ⟨-, hneg, heq⟩ | ⟨hpast, heq⟩
  · exact absurd hsmall hover
  · lia
  · lia

end

end

/-- A packet with its size, which is not zero, and the time it was sent. -/
structure SentPacket where
  time : Time
  size : ℕ
  size_pos : 0 < size

def sending (quic : QuicConfig) (bandwidth size : ByteCount) (sent : List SentPacket) : Pacer :=
  Run.exec (fun p s => ((), p.sentPacket quic bandwidth s.time s.size))
    ((new quic).setMaxDatagramSize size) sent

structure Keeps (quic : QuicConfig) (bandwidth size : ByteCount) (p : Pacer) : Prop where
  size : p.maxDatagramSize = size
  budget : p.lastSentTime ≠ 0 →
    0 ≤ p.budgetAtLastSent ∧ p.budgetAtLastSent < p.maxBurstSize quic bandwidth

section

variable (h : InRange quic bandwidth size)

include h

theorem keeps_sending (sent : List SentPacket) :
    Keeps quic bandwidth size (sending quic bandwidth size sent) := by
  apply Run.exec_invariant _ (Keeps quic bandwidth size)
  · rintro p ⟨time, bytes, hbytes⟩ hp
    refine ⟨hp.size, fun _ => ?_⟩
    have hrange : InRange quic bandwidth p.maxDatagramSize := hp.size ▸ h
    have hburst := (maxBurstSize_of_inRange hrange).1
    have hsize := hrange.size.1
    have hbounds := budget_bounds hrange time
    change 0 ≤ (p.sentPacket quic bandwidth time bytes).budgetAtLastSent ∧
      (p.sentPacket quic bandwidth time bytes).budgetAtLastSent < p.maxBurstSize quic bandwidth
    unfold sentPacket
    dsimp only
    split_ifs <;> lia
  · exact ⟨rfl, fun hset => absurd rfl hset⟩

theorem product_mono {later : Time} (hlater : now ≤ later) :
    p.product bandwidth now ≤ p.product bandwidth later :=
  Int.mul_le_mul_of_nonneg_left (Time.sub_mono hlater _) h.bandwidth.1.le

theorem Fits.mono {later : Time} (hlater : now ≤ later)
    (hfits : p.Fits bandwidth later) : p.Fits bandwidth now :=
  hfits.imp_right (.imp (product_mono h hlater).trans (Int.add_le_add_right (product_mono h hlater) _).trans)

end

/-- What a datagram lacks has accrued after the delay. -/
theorem missing_le_product (h : InRange quic bandwidth p.maxDatagramSize)
    (hb : 0 ≤ p.budgetAtLastSent) (hsmall : ¬ p.maxDatagramSize ≤ p.budgetAtLastSent)
    (hwaited : p.timeUntilSend quic bandwidth ≤ now) :
    (p.maxDatagramSize - p.budgetAtLastSent) * 1000000000 ≤ p.product bandwidth now := by
  obtain ⟨⟨hdelay, -⟩, ⟨hbandwidth, -⟩, -, hsize⟩ := h
  unfold timeUntilSend at hwaited
  rw [if_neg hsmall] at hwaited
  have hlong : -(-((p.maxDatagramSize - p.budgetAtLastSent) * second) / bandwidth) ≤
      now - p.lastSentTime :=
    (Int.le_max_right _ _).trans (Int.le_sub_left_of_add_le hwaited)
  have hsub : now.sub p.lastSentTime = 9223372036854775807 ∨
      now.sub p.lastSentTime = now - p.lastSentTime := by
    unfold Time.sub maxDuration minDuration
    lia
  unfold product
  rcases hsub with heq | heq
  · lia
  · have hneg := (Int.le_ediv_iff_mul_le hbandwidth).mp (Int.neg_le_of_neg_le hlong)
    rw [Int.neg_mul, Int.mul_comm _ bandwidth] at hneg
    rw [heq]
    exact Int.le_of_neg_le_neg hneg

theorem paces_of_fits (h : InRange quic bandwidth p.maxDatagramSize)
    (hp : Keeps quic bandwidth p.maxDatagramSize p) {later : Time}
    (horder : p.lastSentTime ≤ now) (hlater : now ≤ later) (hfits : p.Fits bandwidth later) :
    Paces quic p bandwidth now later := by
  have hburst := (maxBurstSize_of_inRange h).1
  have hsize := h.size.1
  by_cases hset : p.lastSentTime = 0
  · have hfull : ∀ t, p.budget quic bandwidth t = p.maxBurstSize quic bandwidth := by
      intro t
      rw [budget, hset]
      rfl
    constructor <;> simp only [hfull] <;> lia
  have hlast := hp.budget hset
  have hpos : 0 ≤ p.product bandwidth now :=
    Int.mul_nonneg h.bandwidth.1.le (Time.sub_of_le horder).1
  have hmono := product_mono (p := p) h hlater
  have hnow := budget_of_fits h hset hlast hpos (hfits.mono h hlater)
  have hthen := budget_of_fits h hset hlast (hpos.trans hmono) hfits
  refine ⟨(budget_bounds h _).1, by lia, (budget_bounds h _).2, fun hwaited => ?_⟩
  by_cases hsmall : p.maxDatagramSize ≤ p.budgetAtLastSent
  · lia
  · have hmissing := missing_le_product h hlast.1 hsmall hwaited
    lia

theorem exists_least_multiple {n : ℤ} (hn : 0 < n) (y : ℤ) :
    ∃ k, y < n * k ∧ n * k ≤ y + n ∧ ∀ d, y < n * d → k ≤ d := by
  refine ⟨y / n + 1, ?_, ?_, fun d hd => Int.ediv_lt_of_lt_mul hn (Int.mul_comm n d ▸ hd)⟩
  · rw [Int.mul_add, Int.mul_one]
    exact Int.lt_mul_ediv_self_add hn
  · rw [Int.mul_add, Int.mul_one]
    exact Int.add_le_add_right (Int.mul_ediv_self_le hn.ne') n

/-- Behind the range the budget is below what it was before. -/
theorem fits_of_paces (h : InRange quic bandwidth p.maxDatagramSize)
    (hp : Keeps quic bandwidth p.maxDatagramSize p) {horizon : Time}
    (hpaces : ∀ now later, p.lastSentTime ≤ now → now ≤ later → later ≤ horizon →
      Paces quic p bandwidth now later) : p.Fits bandwidth horizon := by
  by_contra hnot
  have hset : p.lastSentTime ≠ 0 := fun hzero => hnot (.inl hzero)
  have hover : 9223372036854775807 < p.product bandwidth horizon :=
    Int.not_le.mp fun hle => hnot (.inr (.inl hle))
  have hwrap : 18446744073709551616 <
      p.product bandwidth horizon + (p.budgetAtLastSent + 1) * 1000000000 :=
    Int.not_le.mp fun hle => hnot (.inr (.inr hle))
  have hlast := hp.budget hset
  obtain ⟨hbandwidth, hbandwidth'⟩ := h.bandwidth
  have hafter : ∀ k : ℤ, 0 ≤ k → k ≤ 9223372036854775807 →
      p.product bandwidth (p.lastSentTime + k) = bandwidth * k := by
    intro k hk hk'
    unfold product Time.sub maxDuration minDuration
    congr 1
    lia
  obtain ⟨y, hy⟩ : ∃ y, y = max 9223372036854775807
    (18446744073709551616 - (p.budgetAtLastSent + 1) * 1000000000) := ⟨_, rfl⟩
  -- the first time with a product behind the range, and a time by which a little has accrued
  obtain ⟨k, hbehind, hfirst, hleast⟩ := exists_least_multiple hbandwidth y
  obtain ⟨j, haccrued, hlittle, hleast'⟩ :=
    exists_least_multiple hbandwidth (1000000000 + bandwidth)
  have hk : k ≤ horizon.sub p.lastSentTime := hleast _ (show y < p.product bandwidth horizon by lia)
  have hj : j ≤ k := hleast' k (by lia)
  have hj' : 0 < j := Int.pos_of_mul_pos_right (by lia : 0 < bandwidth * j) hbandwidth
  have hsub : horizon.sub p.lastSentTime ≤ 9223372036854775807 ∧
      p.lastSentTime + k ≤ horizon := by
    unfold Time.sub maxDuration minDuration at *
    lia
  have hproduct := hafter k (by lia) (by lia)
  have hproduct' := hafter j (by lia) (by lia)
  have hpast := budget_behind h hset hlast
    (show ¬ p.product bandwidth (p.lastSentTime + k) ≤ 9223372036854775807 by lia) (by lia) (by lia)
  have hfits : p.product bandwidth (p.lastSentTime + j) ≤ maxDuration := by
    unfold maxDuration
    lia
  have hbefore := budget_of_fits h hset hlast (by lia) (.inr (.inl hfits))
  have hmono := (hpaces (p.lastSentTime + j) (p.lastSentTime + k) (by lia) (by lia) hsub.2).mono
  lia

/-- Up to a horizon the budget does not shrink and lets a sender send that waits as told, exactly if
the product is in its range at the horizon. -/
theorem budget_run_iff (h : InRange quic bandwidth size) (sent : List SentPacket) (horizon : Time) :
    (∀ now later, (sending quic bandwidth size sent).lastSentTime ≤ now → now ≤ later →
      later ≤ horizon → Paces quic (sending quic bandwidth size sent) bandwidth now later) ↔
    (sending quic bandwidth size sent).Fits bandwidth horizon := by
  have hkeeps := keeps_sending h sent
  generalize sending quic bandwidth size sent = p at *
  obtain rfl := hkeeps.size
  exact ⟨fits_of_paces h hkeeps, fun hfits now later horder hlater hle =>
    paces_of_fits h hkeeps horder hlater (hfits.mono h hle)⟩

/-- The product has left the range of a word, and the guard repairs the sum. -/
theorem budget_run_iff_repaired :
    Paces sampleQuic (sending sampleQuic 8388608 1200 [⟨1, 1200, by decide⟩]) 8388608 2
      1099511627777 :=
  (budget_run_iff ⟨by decide, by decide, by decide⟩ _ 1099511627777).mpr (.inr (.inr (by decide))) 2
    1099511627777 (by decide) (by decide) (Int.le_refl _)

/-- At eight megabytes per second the product comes back to zero after 37 minutes. -/
theorem budget_after_wrap :
    let p := sending sampleQuic 8388608 1200 (List.replicate 14 ⟨1, 1200, by decide⟩)
    p.timeUntilSend sampleQuic 8388608 = 1000001 ∧ p.budget sampleQuic 8388608 1000001 = 8388 ∧
      p.budget sampleQuic 8388608 2199023255553 = 0 := by
  decide +kernel

end Budget

end Pacer

end Outbound.Bbr
