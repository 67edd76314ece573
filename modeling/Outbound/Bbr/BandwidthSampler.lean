import Outbound.Bbr.Bandwidth
import Outbound.Bbr.PacketNumberIndexedQueue
import Outbound.Bbr.WindowedFilter

/-! The bandwidth sampler: what it records of every packet sent, and the samples it takes when
packets are acknowledged or lost. `none` stands for a panic of the source. -/
namespace Outbound.Bbr

structure QuicConfig where
  initialPacketSize : ℕ
  minInitialPacketSize : ℕ
  maxPacketBufferSize : ℕ
  maxCongestionWindowPackets : ℕ
  packetsPerConnectionID : ℕ
  minPacingDelay : Duration

def sampleQuic : QuicConfig := ⟨1280, 1200, 1452, 20000, 4, 1000000⟩

def initialConnectionStateMapSlots : ℕ := 64

variable (quic : QuicConfig) (r : RecentAckPoints)

def maxConnectionStateMapSlots : ℕ := 5 * quic.maxCongestionWindowPackets / 2

def defaultCandidatesBufferSize : ℕ := 256

structure AckedPacketInfo where
  packetNumber : Int64
  bytesAcked : ByteCount
deriving DecidableEq

structure LostPacketInfo where
  packetNumber : Int64
  bytesLost : ByteCount
deriving DecidableEq

structure SendTimeState where
  isValid : Bool
  isAppLimited : Bool
  totalBytesSent : ByteCount
  totalBytesAcked : ByteCount
  totalBytesLost : ByteCount
  bytesInFlight : ByteCount
deriving DecidableEq, Inhabited

structure ExtraAckedEvent where
  extraAcked : ByteCount
  bytesAcked : ByteCount
  timeDelta : Duration
  round : UInt64
deriving DecidableEq, Inhabited

def maxExtraAckedEventFunc (a b : ExtraAckedEvent) : ℤ := maxFilter a.extraAcked b.extraAcked

structure BandwidthSample where
  bandwidth : Bandwidth
  rtt : Duration
  sendRate : Bandwidth
  stateAtSend : SendTimeState
deriving DecidableEq

def newBandwidthSample : BandwidthSample := ⟨0, 0, infBandwidth, default⟩

structure MaxAckHeightTracker where
  maxAckHeightFilter : WindowedFilter ExtraAckedEvent UInt64
  aggregationEpochStartTime : Time
  aggregationEpochBytes : ByteCount
  lastSentPacketNumberBeforeEpoch : Int64
  numAckAggregationEpochs : ℕ
  ackAggregationBandwidthThreshold : ℚ
  startNewAggregationEpochAfterFullRound : Bool
  reduceExtraAckedOnBandwidthIncrease : Bool

namespace MaxAckHeightTracker

def new (windowLength : UInt64) : MaxAckHeightTracker :=
  { maxAckHeightFilter := .new windowLength maxExtraAckedEventFunc
    aggregationEpochStartTime := 0
    aggregationEpochBytes := 0
    lastSentPacketNumberBeforeEpoch := invalidPacketNumber
    numAckAggregationEpochs := 0
    ackAggregationBandwidthThreshold := 1
    startNewAggregationEpochAfterFullRound := false
    reduceExtraAckedOnBandwidthIncrease := false }

variable (m : MaxAckHeightTracker) (bandwidthEstimate : Bandwidth)

def get : ByteCount := m.maxAckHeightFilter.getBest.extraAcked

def reinsert (e : ExtraAckedEvent)
    (f : WindowedFilter ExtraAckedEvent UInt64) : WindowedFilter ExtraAckedEvent UInt64 :=
  let expectedBytesAcked := bytesFromBandwidthAndTimeDelta bandwidthEstimate e.timeDelta
  if expectedBytesAcked < e.bytesAcked then
    f.update { e with extraAcked := e.bytesAcked - expectedBytesAcked } e.round
  else f

def reduce : MaxAckHeightTracker :=
  let best := m.maxAckHeightFilter.getBest
  let secondBest := m.maxAckHeightFilter.getSecondBest
  let thirdBest := m.maxAckHeightFilter.getThirdBest
  { m with
    maxAckHeightFilter := reinsert bandwidthEstimate thirdBest
      (reinsert bandwidthEstimate secondBest
        (reinsert bandwidthEstimate best m.maxAckHeightFilter.clear)) }

def startEpoch (lastSentPacketNumber : Int64) (ackTime : Time)
    (bytesAcked : ByteCount) : MaxAckHeightTracker :=
  { m with
    aggregationEpochBytes := bytesAcked
    aggregationEpochStartTime := ackTime
    lastSentPacketNumberBeforeEpoch := lastSentPacketNumber
    numAckAggregationEpochs := m.numAckAggregationEpochs + 1 }

def update (scale : Scale) (m : MaxAckHeightTracker) (bandwidthEstimate : Bandwidth)
    (isNewMaxBandwidth : Bool) (roundTripCount : UInt64)
    (lastSentPacketNumber lastAckedPacketNumber : Int64) (ackTime : Time)
    (bytesAcked : ByteCount) : ByteCount × MaxAckHeightTracker :=
  let m := if m.reduceExtraAckedOnBandwidthIncrease && isNewMaxBandwidth then
    m.reduce bandwidthEstimate else m
  let forceNewEpoch := m.startNewAggregationEpochAfterFullRound &&
    m.lastSentPacketNumberBeforeEpoch != invalidPacketNumber &&
    lastAckedPacketNumber != invalidPacketNumber &&
    decide (m.lastSentPacketNumberBeforeEpoch < lastAckedPacketNumber)
  if Time.isZero m.aggregationEpochStartTime || forceNewEpoch then
    (0, m.startEpoch lastSentPacketNumber ackTime bytesAcked)
  else
    let aggregationDelta := Time.sub ackTime m.aggregationEpochStartTime
    let expectedBytesAcked := bytesFromBandwidthAndTimeDelta bandwidthEstimate aggregationDelta
    if m.aggregationEpochBytes ≤ scale m.ackAggregationBandwidthThreshold expectedBytesAcked then
      (0, m.startEpoch lastSentPacketNumber ackTime bytesAcked)
    else
      let m := { m with aggregationEpochBytes := wrap64 (m.aggregationEpochBytes + bytesAcked) }
      let extraBytesAcked := wrap64 (m.aggregationEpochBytes - expectedBytesAcked)
      let newEvent := ⟨extraBytesAcked, m.aggregationEpochBytes, aggregationDelta, 0⟩
      (extraBytesAcked,
        { m with maxAckHeightFilter := m.maxAckHeightFilter.update newEvent roundTripCount })

def setFilterWindowLength (length : UInt64) : MaxAckHeightTracker :=
  { m with maxAckHeightFilter := m.maxAckHeightFilter.setWindowLength length }

def reset (m : MaxAckHeightTracker) (newHeight : ByteCount) (newTime : UInt64) :
    MaxAckHeightTracker :=
  { m with
    maxAckHeightFilter := m.maxAckHeightFilter.reset ⟨newHeight, 0, 0, newTime⟩ newTime }

end MaxAckHeightTracker

structure AckPoint where
  ackTime : Time
  totalBytesAcked : ByteCount
deriving DecidableEq, Inhabited

structure RecentAckPoints where
  less : AckPoint
  most : AckPoint
deriving DecidableEq, Inhabited

namespace RecentAckPoints

def update (ackTime : Time) (totalBytesAcked : ByteCount) : RecentAckPoints :=
  let r := if ackTime < r.most.ackTime then { r with most.ackTime := ackTime }
    else if r.most.ackTime < ackTime then
      { less := r.most, most := { r.most with ackTime := ackTime } }
    else r
  { r with most.totalBytesAcked := totalBytesAcked }

def lessRecentPoint : AckPoint :=
  if r.less.totalBytesAcked ≠ 0 then r.less else r.most

end RecentAckPoints

structure ConnectionStateOnSentPacket where
  sentTime : Time
  size : ByteCount
  totalBytesSentAtLastAckedPacket : ByteCount
  lastAckedPacketSentTime : Time
  lastAckedPacketAckTime : Time
  sendTimeState : SendTimeState
  consumed : Bool
deriving DecidableEq, Inhabited

variable (sentPacket : ConnectionStateOnSentPacket)

def sentPacketToSendTimeState : SendTimeState :=
  { sentPacket.sendTimeState with isValid := true }

def ConnectionStateOnSentPacket.consume : ConnectionStateOnSentPacket :=
  { sentPacket with consumed := true }

structure CongestionEventSample where
  sampleMaxBandwidth : Bandwidth
  sampleIsAppLimited : Bool
  sampleRtt : Duration
  sampleMaxInflight : ByteCount
  lastPacketSendState : SendTimeState
  extraAcked : ByteCount
deriving DecidableEq

def newCongestionEventSample : CongestionEventSample := ⟨0, false, infRTT, 0, default, 0⟩

structure BandwidthSampler where
  totalBytesSent : ByteCount
  totalBytesAcked : ByteCount
  totalBytesLost : ByteCount
  totalBytesSentAtLastAckedPacket : ByteCount
  lastAckedPacketSentTime : Time
  lastAckedPacketAckTime : Time
  lastSentPacket : Int64
  lastAckedPacket : Int64
  isAppLimited : Bool
  endOfAppLimitedPhase : Int64
  connectionStateMap : PacketNumberIndexedQueue ConnectionStateOnSentPacket
  recentAckPoints : RecentAckPoints
  a0Candidates : RingBuffer AckPoint
  maxAckHeightTracker : MaxAckHeightTracker
  totalBytesAckedAfterLastAckEvent : ByteCount
  overestimateAvoidance : Bool
  limitMaxAckHeightTrackerBySendRate : Bool

def newBandwidthSampler (maxAckHeightTrackerWindowLength : UInt64) : BandwidthSampler :=
  { totalBytesSent := 0
    totalBytesAcked := 0
    totalBytesLost := 0
    totalBytesSentAtLastAckedPacket := 0
    lastAckedPacketSentTime := 0
    lastAckedPacketAckTime := 0
    lastSentPacket := invalidPacketNumber
    lastAckedPacket := invalidPacketNumber
    isAppLimited := false
    endOfAppLimitedPhase := invalidPacketNumber
    connectionStateMap := newPacketNumberIndexedQueue initialConnectionStateMapSlots
      (maxConnectionStateMapSlots quic)
    recentAckPoints := default
    a0Candidates := ⟨[], 0, 0, false⟩
    maxAckHeightTracker := .new maxAckHeightTrackerWindowLength
    totalBytesAckedAfterLastAckEvent := 0
    overestimateAvoidance := false
    limitMaxAckHeightTrackerBySendRate := false }

/-- The loop of `chooseA0Point`: the first candidate from the `i`-th on whose total is above the
one asked for. -/
def findA0Above (candidates : RingBuffer AckPoint) (totalBytesAcked : ByteCount) :
    ℕ → ℕ → Option (Option ℕ)
  | 0, _ => some none
  | fuel + 1, i =>
    if i < candidates.len then do
      let point ← candidates.offset i
      if totalBytesAcked < point.totalBytesAcked then some (some i)
      else findA0Above candidates totalBytesAcked fuel (i + 1)
    else some none

def popFronts : ℕ → RingBuffer AckPoint → Option (RingBuffer AckPoint)
  | 0, candidates => some candidates
  | n + 1, candidates => do
    let (_, candidates) ← candidates.popFront
    popFronts n candidates

/-- The closing loop of `chooseA0Point`, whose bound shrinks as it pops. -/
def popStale : ℕ → ℕ → RingBuffer AckPoint → Option (RingBuffer AckPoint)
  | 0, _, candidates => some candidates
  | fuel + 1, k, candidates =>
    if (k : ℤ) < candidates.len - 1 then do
      let (_, candidates) ← candidates.popFront
      popStale fuel (k + 1) candidates
    else some candidates

/-- The point chosen, when there is a candidate, and the candidates that remain. -/
def chooseA0Point (candidates : RingBuffer AckPoint) (totalBytesAcked : ByteCount) :
    Option (Option AckPoint × RingBuffer AckPoint) :=
  if candidates.empty then some (none, candidates)
  else if candidates.len = 1 then do
    let a0 ← candidates.front
    some (some a0, candidates)
  else do
    match ← findA0Above candidates totalBytesAcked candidates.len 1 with
    | some i =>
      let a0 ← candidates.offset ((i : ℤ) - 1)
      let candidates ← popFronts (i - 1) candidates
      some (some a0, candidates)
    | none =>
      let a0 ← candidates.back
      let candidates ← popStale candidates.len 0 candidates
      some (some a0, candidates)

namespace BandwidthSampler

variable (scale : Scale) (b : BandwidthSampler) (ackTime : Time) (t : AckTally)

def maxAckHeight : ByteCount := b.maxAckHeightTracker.get

def resetMaxAckHeightTracker (newHeight : ByteCount) (newTime : UInt64) : BandwidthSampler :=
  { b with maxAckHeightTracker := b.maxAckHeightTracker.reset newHeight newTime }

def enableOverestimateAvoidance : BandwidthSampler :=
  if b.overestimateAvoidance then b
  else
    { b with
      overestimateAvoidance := true
      a0Candidates := .init defaultCandidatesBufferSize
      maxAckHeightTracker.ackAggregationBandwidthThreshold := 2 }

variable (sentTime : Time)

def anchor : BandwidthSampler :=
  let points := (default : RecentAckPoints).update sentTime b.totalBytesAcked
  { b with
    lastAckedPacketAckTime := sentTime
    recentAckPoints := if b.overestimateAvoidance then points else b.recentAckPoints
    a0Candidates := if b.overestimateAvoidance then b.a0Candidates.clear.pushBack points.most
      else b.a0Candidates
    totalBytesSentAtLastAckedPacket := b.totalBytesSent
    lastAckedPacketSentTime := sentTime }

def sentRecord (size bytesInFlight : ByteCount) : ConnectionStateOnSentPacket :=
  { sentTime := sentTime
    size := size
    totalBytesSentAtLastAckedPacket := b.totalBytesSentAtLastAckedPacket
    lastAckedPacketSentTime := b.lastAckedPacketSentTime
    lastAckedPacketAckTime := b.lastAckedPacketAckTime
    sendTimeState := ⟨true, b.isAppLimited, b.totalBytesSent, b.totalBytesAcked, b.totalBytesLost,
      bytesInFlight⟩
    consumed := false }

variable (packetNumber : Int64) (bytes bytesInFlight : ByteCount)

def opened : BandwidthSampler :=
  let b := { b with lastSentPacket := packetNumber, totalBytesSent := b.totalBytesSent + bytes }
  if bytesInFlight = 0 then b.anchor sentTime else b

def onPacketSent (isRetransmittable : Bool) : Option BandwidthSampler :=
  if !isRetransmittable then some { b with lastSentPacket := packetNumber }
  else do
    let b := b.opened sentTime packetNumber bytes bytesInFlight
    let (_, connectionStateMap) ← b.connectionStateMap.emplace packetNumber
      (some (b.sentRecord sentTime bytes (bytesInFlight + bytes)))
    some { b with connectionStateMap := connectionStateMap }

def onPacketLost (bytesLost : ByteCount) :
    Option (SendTimeState × BandwidthSampler) := do
  let b := { b with totalBytesLost := b.totalBytesLost + bytesLost }
  match ← b.connectionStateMap.getEntry packetNumber with
  | none => some (default, b)
  | some sentPacket =>
    let connectionStateMap ← b.connectionStateMap.modifyEntry packetNumber (·.consume)
    some (sentPacketToSendTimeState sentPacket, { b with connectionStateMap := connectionStateMap })

def onAppLimited : BandwidthSampler :=
  { b with isAppLimited := true, endOfAppLimitedPhase := b.lastSentPacket }

def reclaimConsumed : Option BandwidthSampler := do
  let (_, connectionStateMap) ← b.connectionStateMap.dropConsumedFront (·.consumed)
  some { b with connectionStateMap := connectionStateMap }

def removeObsoletePackets (leastUnacked : Int64) :
    Option BandwidthSampler := do
  let connectionStateMap ← b.connectionStateMap.removeUpTo leastUnacked
  some { b with connectionStateMap := connectionStateMap }

def delivered
    (sentPacket : ConnectionStateOnSentPacket) : BandwidthSampler :=
  let totalBytesAcked := b.totalBytesAcked + sentPacket.size
  { b with
    totalBytesAcked := totalBytesAcked
    totalBytesSentAtLastAckedPacket := sentPacket.sendTimeState.totalBytesSent
    lastAckedPacketSentTime := sentPacket.sentTime
    lastAckedPacketAckTime := ackTime
    recentAckPoints := if b.overestimateAvoidance then
      b.recentAckPoints.update ackTime totalBytesAcked else b.recentAckPoints
    isAppLimited := b.isAppLimited &&
      !(b.endOfAppLimitedPhase == invalidPacketNumber ||
        decide (b.endOfAppLimitedPhase < packetNumber)) }

def sendRate : Bandwidth :=
  if sentPacket.lastAckedPacketSentTime < sentPacket.sentTime then
    bandwidthFromDelta
      (sentPacket.sendTimeState.totalBytesSent - sentPacket.totalBytesSentAtLastAckedPacket)
      (Time.sub sentPacket.sentTime sentPacket.lastAckedPacketSentTime)
  else infBandwidth

def a0Point (sentPacket : ConnectionStateOnSentPacket) : Option (AckPoint × RingBuffer AckPoint) :=
  let recorded : AckPoint :=
    ⟨sentPacket.lastAckedPacketAckTime, sentPacket.sendTimeState.totalBytesAcked⟩
  if b.overestimateAvoidance then do
    let (a0, candidates) ← chooseA0Point b.a0Candidates sentPacket.sendTimeState.totalBytesAcked
    some (a0.getD recorded, candidates)
  else some (recorded, b.a0Candidates)

def takeSample (sentPacket : ConnectionStateOnSentPacket) :
    Option (BandwidthSample × BandwidthSampler) :=
  if Time.isZero sentPacket.lastAckedPacketSentTime then some (newBandwidthSample, b)
  else do
    let (a0, candidates) ← b.a0Point sentPacket
    let b := { b with a0Candidates := candidates }
    if Time.sub ackTime a0.ackTime ≤ 0 then some (newBandwidthSample, b)
    else
      let ackRate := bandwidthFromDelta (b.totalBytesAcked - a0.totalBytesAcked)
        (Time.sub ackTime a0.ackTime)
      some (
        { bandwidth := min (sendRate sentPacket) ackRate
          rtt := Time.sub ackTime sentPacket.sentTime
          sendRate := sendRate sentPacket
          stateAtSend := sentPacketToSendTimeState sentPacket }, b)

def onPacketAcknowledged :
    Option (BandwidthSample × BandwidthSampler) := do
  let b := { b with lastAckedPacket := packetNumber }
  match ← b.connectionStateMap.getEntry packetNumber with
  | none => some (newBandwidthSample, b)
  | some sentPacket =>
    let connectionStateMap ← b.connectionStateMap.modifyEntry packetNumber (·.consume)
    let b := { b with connectionStateMap := connectionStateMap }
    (b.delivered ackTime packetNumber sentPacket).takeSample ackTime sentPacket

def onAckEventEnd (bandwidthEstimate : Bandwidth)
    (isNewMaxBandwidth : Bool) (roundTripCount : UInt64) : ByteCount × BandwidthSampler :=
  let newlyAckedBytes := b.totalBytesAcked - b.totalBytesAckedAfterLastAckEvent
  if newlyAckedBytes = 0 then (0, b)
  else
    let (extraAcked, tracker) := b.maxAckHeightTracker.update scale bandwidthEstimate
      isNewMaxBandwidth roundTripCount b.lastSentPacket b.lastAckedPacket b.lastAckedPacketAckTime
      newlyAckedBytes
    (extraAcked,
      { b with
        totalBytesAckedAfterLastAckEvent := b.totalBytesAcked
        maxAckHeightTracker := tracker
        a0Candidates := if b.overestimateAvoidance && extraAcked == 0 then
          b.a0Candidates.pushBack b.recentAckPoints.lessRecentPoint else b.a0Candidates })

def loseAll : List LostPacketInfo → SendTimeState → BandwidthSampler →
    Option (SendTimeState × BandwidthSampler)
  | [], last, b => some (last, b)
  | p :: lost, last, b => do
    let (sendState, b) ← b.onPacketLost p.packetNumber p.bytesLost
    loseAll lost (if sendState.isValid then sendState else last) b

structure AckTally where
  sample : CongestionEventSample
  lastAckedPacketSendState : SendTimeState
  maxSendRate : Bandwidth

def AckTally.add (sample : BandwidthSample) (totalBytesAcked : ByteCount) : AckTally :=
  if !sample.stateAtSend.isValid then t
  else
    let better := t.sample.sampleMaxBandwidth < sample.bandwidth
    let inflightSample := totalBytesAcked - sample.stateAtSend.totalBytesAcked
    { sample := { t.sample with
        sampleRtt := if sample.rtt ≠ 0 then min t.sample.sampleRtt sample.rtt
          else t.sample.sampleRtt
        sampleMaxBandwidth := if better then sample.bandwidth else t.sample.sampleMaxBandwidth
        sampleIsAppLimited := if better then sample.stateAtSend.isAppLimited
          else t.sample.sampleIsAppLimited
        sampleMaxInflight := if t.sample.sampleMaxInflight < inflightSample then inflightSample
          else t.sample.sampleMaxInflight }
      lastAckedPacketSendState := sample.stateAtSend
      maxSendRate := if sample.sendRate ≠ infBandwidth then max t.maxSendRate sample.sendRate
        else t.maxSendRate }

def acknowledgeAll (ackTime : Time) : List AckedPacketInfo → AckTally → BandwidthSampler →
    Option (AckTally × BandwidthSampler)
  | [], t, b => some (t, b)
  | p :: acked, t, b => do
    let (sample, b) ← b.onPacketAcknowledged ackTime p.packetNumber
    acknowledgeAll ackTime acked (t.add sample b.totalBytesAcked) b

variable (ackedPackets : List AckedPacketInfo) (lostPackets : List LostPacketInfo)
  (maxBandwidth estBandwidthUpperBound : Bandwidth) (roundTripCount : UInt64)

def lossIsNewer : Bool :=
  match lostPackets.getLast?, ackedPackets.getLast? with
  | some l, some a => decide (a.packetNumber < l.packetNumber)
  | _, _ => false

def lastSendState
    (lastAcked lastLost : SendTimeState) : SendTimeState :=
  if !lastLost.isValid then lastAcked
  else if !lastAcked.isValid then lastLost
  else if lossIsNewer ackedPackets lostPackets then lastLost else lastAcked

def finishSample : CongestionEventSample × BandwidthSampler :=
  let isNewMaxBandwidth := decide (maxBandwidth < t.sample.sampleMaxBandwidth)
  let maxBandwidth := max maxBandwidth t.sample.sampleMaxBandwidth
  let maxBandwidth := if b.limitMaxAckHeightTrackerBySendRate then max maxBandwidth t.maxSendRate
    else maxBandwidth
  let (extraAcked, b) := b.onAckEventEnd scale (min estBandwidthUpperBound maxBandwidth)
    isNewMaxBandwidth roundTripCount
  ({ t.sample with extraAcked := extraAcked }, b)

def onCongestionEvent :
    Option (CongestionEventSample × BandwidthSampler) := do
  let (lastLost, b) ← loseAll lostPackets default b
  if ackedPackets.isEmpty then
    let b ← b.reclaimConsumed
    some ({ newCongestionEventSample with lastPacketSendState := lastLost }, b)
  else
    let (t, b) ← acknowledgeAll ackTime ackedPackets ⟨newCongestionEventSample, default, 0⟩ b
    let last := lastSendState ackedPackets lostPackets t.lastAckedPacketSendState lastLost
    let (sample, b) := b.finishSample scale t maxBandwidth estBandwidthUpperBound roundTripCount
    let b ← b.reclaimConsumed
    some ({ sample with lastPacketSendState := last }, b)

end BandwidthSampler

end Outbound.Bbr
