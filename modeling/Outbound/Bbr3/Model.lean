import Outbound.Bbr.RefSampler
import Outbound.Bbr3.Params

/-! What the experimental sender estimates about the path. Rates are bytes per second; products
with gains are exact and rounded down. -/
namespace Outbound.Bbr3
open Bbr

def bdpFrom (bw : ℕ) (rtt : Duration) : ByteCount :=
  if bw = 0 ∨ rtt ≤ 0 then 0 else bw * rtt / second

def scaled (gain : ℚ) (x : ℤ) : ℤ := (gain * x).floor

structure AckEvent where
  priorInFlight : ByteCount
  now : Time
  acked : List AckedPacketInfo
  lost : List LostPacketInfo

namespace AckEvent

variable (e : AckEvent)

def ackedBytes : ByteCount := (e.acked.map (·.bytesAcked)).sum

def lostBytes : ByteCount := (e.lost.map (·.bytesLost)).sum

def maxPn : Int64 :=
  (e.acked.map (·.packetNumber) ++ e.lost.map (·.packetNumber)).foldl
    (fun maxPn pn => if maxPn < pn then pn else maxPn) (-1)

def bytesInFlight : ByteCount := max 0 (e.priorInFlight - e.ackedBytes - e.lostBytes)

end AckEvent

structure Model where
  ref : RefSampler
  maxDatagramSize : ByteCount
  initialCwnd : ByteCount
  minCwnd : ByteCount
  round : UInt64
  roundEnd : Int64
  lastSent : Int64
  bytesInFlight : ByteCount
  bwLo : ℕ
  inflightHi : ByteCount
  inflightLo : ByteCount
  minRtt : Duration
  minRttStamp : Time
  fullBwReached : Bool
  fullBwBaseline : ℕ
  fullBwRounds : ℤ
  roundBytesSent : ByteCount
  roundBytesLost : ByteCount
  roundBytesAcked : ByteCount
  roundLostPackets : ℤ
  lastRoundSent : ByteCount
  lastRoundLost : ByteCount
  lastRoundAcked : ByteCount
  lastRoundLostPkts : ℤ
  lastRoundLossThreshold : ℚ
  lossBaseline : ℚ
  lossBaselineSet : Bool
  probeUpRounds : ℤ

def newModel (quic : QuicConfig) (p : Params) (maxDatagramSize : ByteCount) : Model :=
  let maxDatagramSize := if maxDatagramSize ≤ 0 then (quic.initialPacketSize : ℤ) else maxDatagramSize
  { ref := newRefSampler quic p.maxBwFilterRounds
    maxDatagramSize := maxDatagramSize
    initialCwnd := p.initialCwndPackets * maxDatagramSize
    minCwnd := p.minCwndPackets * maxDatagramSize
    round := 0
    roundEnd := -1
    lastSent := -1
    bytesInFlight := 0
    bwLo := 0
    inflightHi := 0
    inflightLo := 0
    minRtt := 0
    minRttStamp := 0
    fullBwReached := false
    fullBwBaseline := 0
    fullBwRounds := 0
    roundBytesSent := 0
    roundBytesLost := 0
    roundBytesAcked := 0
    roundLostPackets := 0
    lastRoundSent := 0
    lastRoundLost := 0
    lastRoundAcked := 0
    lastRoundLostPkts := 0
    lastRoundLossThreshold := 0
    lossBaseline := 0
    lossBaselineSet := false
    probeUpRounds := 0 }

namespace Model

variable (p : Params) (m : Model) (now : Time) (e : AckEvent) (sample : Duration) (ackedPn : Int64)

def setMaxDatagramSize (s : ByteCount) : Model :=
  if s ≤ 0 then m
  else
    { m with
      maxDatagramSize := s
      minCwnd := p.minCwndPackets * s
      initialCwnd := p.initialCwndPackets * s }

def estimate : ℕ := m.ref.maxBandwidthBytesPerSecond.toNat

def minRttValue : Duration := if m.minRtt ≤ 0 then p.defaultMinRtt else m.minRtt

def bdp : ByteCount := bdpFrom m.estimate (m.minRttValue p)

def startsRound : Bool :=
  !decide (ackedPn < 0) && (decide (m.roundEnd < 0) || decide (m.roundEnd < ackedPn))

def updateRound : Bool × Model :=
  if m.startsRound ackedPn then
    (true, { m with round := m.round + 1, roundEnd := m.lastSent })
  else (false, m)

def onPacketSent (sentTime : Time) (packetNumber : Int64) (bytes bytesInFlight : ByteCount)
    (isRetransmittable : Bool) : Option Model := do
  let ref ← m.ref.onPacketSent sentTime packetNumber bytes bytesInFlight isRetransmittable
  some { m with
    ref := ref
    lastSent := packetNumber
    roundBytesSent := if isRetransmittable then m.roundBytesSent + bytes else m.roundBytesSent }

def minRttExpired : Bool :=
  m.minRtt != 0 && decide (m.minRttStamp + p.minRttFilterLen < now)

def updateMinRtt : Bool × Model :=
  if sample ≤ 0 then (false, m)
  else
    let expired := m.minRttExpired p now
    if expired = true ∨ m.minRtt = 0 ∨ sample < m.minRtt then
      (expired, { m with minRtt := sample, minRttStamp := now })
    else (expired, m)

def countFlatRound : Model :=
  let rounds := m.fullBwRounds + 1
  { m with
    fullBwRounds := rounds
    fullBwReached := m.fullBwReached || decide (p.fullBwRounds ≤ rounds) }

def checkFullBwReached : Model :=
  let est := m.estimate
  if est = 0 then m
  else if m.fullBwBaseline = 0 then { m with fullBwBaseline := est }
  else if p.fullBwThreshold * m.fullBwBaseline ≤ est then
    { m with fullBwBaseline := est, fullBwRounds := 0 }
  else m.countFlatRound p

def minLossSent : ByteCount := p.minLossSentPackets * m.maxDatagramSize

def lossThresholdNow : ℚ :=
  if p.enableLossBaseline && m.lossBaselineSet then
    if p.lossThreshold < m.lossBaseline * p.lossBaselineFactor then
      m.lossBaseline * p.lossBaselineFactor
    else p.lossThreshold
  else p.lossThreshold

def updateLossBaseline : Model :=
  if !p.enableLossBaseline || decide (m.lastRoundSent < m.minLossSent p) then m
  else
    let rate : ℚ := m.lastRoundLost / m.lastRoundSent
    if !m.lossBaselineSet then { m with lossBaseline := rate, lossBaselineSet := true }
    else
      { m with
        lossBaseline := (1 - p.lossBaselineWeight) * m.lossBaseline + p.lossBaselineWeight * rate }

def lossRateExceeded : Bool :=
  if decide (p.minLossPackets ≤ m.roundLostPackets) &&
      decide (m.minLossSent p ≤ m.roundBytesSent) &&
      decide (m.lossThresholdNow p * m.roundBytesSent < m.roundBytesLost) then true
  else if decide (p.minLossPackets ≤ m.lastRoundLostPkts) &&
      decide (m.minLossSent p ≤ m.lastRoundSent) then
    let threshold := if 0 < m.lastRoundLossThreshold then m.lastRoundLossThreshold
      else m.lossThresholdNow p
    decide (threshold * m.lastRoundSent < m.lastRoundLost)
  else false

def capInflightHi : Model :=
  let target := if m.lastRoundSent = 0 then m.roundBytesSent else m.lastRoundSent
  let target := max (max (m.bdp p) m.initialCwnd) target
  if m.inflightHi = 0 ∨ target < m.inflightHi then { m with inflightHi := target } else m

def adaptLowerBounds : Model :=
  let est := m.estimate
  if est = 0 then m
  else
    let decayed := (scaled p.beta est).toNat
    let bwLo := if m.bwLo = 0 ∨ decayed < m.bwLo then decayed else m.bwLo
    let lo := max (bdpFrom est (m.minRttValue p)) (bdpFrom bwLo (m.minRttValue p))
    { m with bwLo := bwLo, inflightLo := max m.minCwnd lo }

def growInflightHi (cwnd : ByteCount) : Model :=
  let target := m.inflightHi + scaled p.probeUpGrowth m.inflightHi
  { m with inflightHi := max m.inflightHi (max (cwnd + 2 * m.maxDatagramSize) target) }

def resetProbeUp : Model := { m with probeUpRounds := 0 }

def probeUpRound (roundStart : Bool) (lostBytes cwnd : ByteCount) : Bool × Model :=
  if decide (0 < lostBytes) && m.lossRateExceeded p then (true, (m.capInflightHi p).resetProbeUp)
  else if !roundStart then (false, m)
  else
    let m := m.growInflightHi p cwnd
    let rounds := m.probeUpRounds + 1
    if p.probeUpRounds ≤ rounds then (true, m.resetProbeUp)
    else (false, { m with probeUpRounds := rounds })

def probeRttTarget : ByteCount :=
  let upper := if m.inflightHi = 0 then scaled p.cwndGain (m.bdp p) else m.inflightHi
  max m.minCwnd (scaled p.probeRttFraction upper)

def closeRound : Model :=
  { m with
    lastRoundLossThreshold := m.lossThresholdNow p
    lastRoundSent := m.roundBytesSent
    lastRoundLost := m.roundBytesLost
    lastRoundAcked := m.roundBytesAcked
    lastRoundLostPkts := m.roundLostPackets
    roundBytesSent := 0
    roundBytesLost := 0
    roundBytesAcked := 0
    roundLostPackets := 0 }

def accountEvent (ackedBytes lostBytes : ByteCount) (lostPackets : ℕ) (maxPn : Int64) :
    Bool × Model :=
  let (roundStart, m) := m.updateRound maxPn
  let m :=
    { m with
      roundBytesLost := m.roundBytesLost + lostBytes
      roundBytesAcked := m.roundBytesAcked + ackedBytes
      roundLostPackets := m.roundLostPackets + lostPackets }
  (roundStart, if roundStart then m.closeRound p else m)

def setBytesInFlight (n : ByteCount) : Model := { m with bytesInFlight := n }

def setRef (ref : RefSampler) : Model := { m with ref := ref }

/-- The event enters the round's account and the shared estimator. The answers are whether a round
started and what the event delivered. -/
def takeEvent : Option (Bool × ByteCount × Model) := do
  let (roundStart, m) := (m.setBytesInFlight e.bytesInFlight).accountEvent p e.ackedBytes
    e.lostBytes e.lost.length e.maxPn
  let (_, ref) ← m.ref.onCongestionEvent e.now e.acked e.lost m.round
  some (roundStart, ref.totalBytesAcked - m.ref.totalBytesAcked, m.setRef ref)

def settleEvent : Bool × Model :=
  let (expired, m) := m.updateMinRtt p e.now sample
  (expired, if 0 < e.lostBytes then m.adaptLowerBounds p else m)

def onAppLimited : Model := { m with ref := m.ref.onAppLimited }

end Model

end Outbound.Bbr3
