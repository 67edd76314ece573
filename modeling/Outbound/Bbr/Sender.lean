import Outbound.Bbr.Pacer

/-! The BBR sender: its modes, its recovery state and the window it allows. What the sender reads
from its surroundings during a call, the minimum round trip time and a random draw, is an argument
of the call. `none` stands for a panic of the source. -/
namespace Outbound.Bbr

def minBps : ByteCount := 65536

def initialCongestionWindowPackets : ℕ := 32

def defaultMinimumCongestionWindow (quic : QuicConfig) : ByteCount := 4 * quic.initialPacketSize

def defaultHighGain : ℚ := 2885 / 1000

def pacingGain : List ℚ := [5 / 4, 3 / 4, 1, 1, 1, 1, 1, 1]

def gainCycleLength : ℕ := 8

def bandwidthWindowSize : UInt64 := 10

def minRttExpiry : Duration := 10 * second

def probeRttTime : Duration := 200 * millisecond

def startupGrowthTarget : ℚ := 5 / 4

def roundTripsWithoutGrowthBeforeExitingStartup : ℤ := 3

def defaultStartupFullLossCount : ℕ := 8

def quicBbr2DefaultLossThreshold : ℚ := 2 / 100

def maxBbrBurstPackets : ℕ := 3

inductive BbrMode where
  | startup
  | drain
  | probeBw
  | probeRtt
deriving DecidableEq, Repr

inductive BbrRecoveryState where
  | notInRecovery
  | conservation
  | growth
deriving DecidableEq, Repr

structure BbrSender where
  pacer : Pacer
  mode : BbrMode
  sampler : BandwidthSampler
  roundTripCount : UInt64
  lastSentPacket : Int64
  currentRoundTripEnd : Int64
  numLossEventsInRound : ℕ
  bytesLostInRound : ByteCount
  maxBandwidth : WindowedFilter Bandwidth UInt64
  minRtt : Duration
  minRttTimestamp : Time
  congestionWindow : ByteCount
  initialCongestionWindow : ByteCount
  maxCongestionWindow : ByteCount
  minCongestionWindow : ByteCount
  highGain : ℚ
  highCwndGain : ℚ
  drainGain : ℚ
  pacingRate : Bandwidth
  pacingGain : ℚ
  congestionWindowGain : ℚ
  congestionWindowGainConstant : ℚ
  numStartupRtts : ℤ
  cycleCurrentOffset : ℕ
  lastCycleStart : Time
  isAtFullBandwidth : Bool
  roundsWithoutBandwidthGain : ℤ
  bandwidthAtLastRound : Bandwidth
  exitingQuiescence : Bool
  exitProbeRttAt : Time
  probeRttRoundPassed : Bool
  lastSampleIsAppLimited : Bool
  hasNoAppLimitedSample : Bool
  recoveryState : BbrRecoveryState
  endRecoveryAt : Int64
  recoveryWindow : ByteCount
  enableAckAggregationDuringStartup : Bool
  expireAckAggregationInStartup : Bool
  drainToTarget : Bool
  detectOvershooting : Bool
  bytesLostWhileDetectingOvershooting : ByteCount
  bytesLostMultiplierWhileDetectingOvershooting : ℕ
  cwndToCalculateMinPacingRate : ByteCount
  maxDatagramSize : ByteCount
  bytesInFlight : ByteCount

namespace BbrSender

def enterStartupMode (b : BbrSender) : BbrSender :=
  { b with mode := .startup, pacingGain := b.highGain, congestionWindowGain := b.highCwndGain }

def setHighCwndGain (b : BbrSender) (highCwndGain : ℚ) : BbrSender :=
  { b with
    highCwndGain := highCwndGain
    congestionWindowGain := if b.mode = .startup then highCwndGain else b.congestionWindowGain }

def new (quic : QuicConfig)
    (initialMaxDatagramSize initialCongestionWindow initialMaxCongestionWindow : ByteCount) :
    BbrSender :=
  let b : BbrSender :=
    { pacer := .new quic
      mode := .startup
      sampler := newBandwidthSampler quic bandwidthWindowSize
      roundTripCount := 0
      lastSentPacket := invalidPacketNumber
      currentRoundTripEnd := invalidPacketNumber
      numLossEventsInRound := 0
      bytesLostInRound := 0
      maxBandwidth := .new bandwidthWindowSize maxFilter
      minRtt := 0
      minRttTimestamp := 0
      congestionWindow := initialCongestionWindow
      initialCongestionWindow := initialCongestionWindow
      maxCongestionWindow := initialMaxCongestionWindow
      minCongestionWindow := defaultMinimumCongestionWindow quic
      highGain := defaultHighGain
      highCwndGain := defaultHighGain
      drainGain := 1 / defaultHighGain
      pacingRate := 0
      pacingGain := 1
      congestionWindowGain := 1
      congestionWindowGainConstant := 2
      numStartupRtts := roundTripsWithoutGrowthBeforeExitingStartup
      cycleCurrentOffset := 0
      lastCycleStart := 0
      isAtFullBandwidth := false
      roundsWithoutBandwidthGain := 0
      bandwidthAtLastRound := 0
      exitingQuiescence := false
      exitProbeRttAt := 0
      probeRttRoundPassed := false
      lastSampleIsAppLimited := false
      hasNoAppLimitedSample := false
      recoveryState := .notInRecovery
      endRecoveryAt := invalidPacketNumber
      recoveryWindow := initialMaxCongestionWindow
      enableAckAggregationDuringStartup := false
      expireAckAggregationInStartup := false
      drainToTarget := false
      detectOvershooting := false
      bytesLostWhileDetectingOvershooting := 0
      bytesLostMultiplierWhileDetectingOvershooting := 2
      cwndToCalculateMinPacingRate := initialCongestionWindow
      maxDatagramSize := initialMaxDatagramSize
      bytesInFlight := 0 }
  b.enterStartupMode.setHighCwndGain 2

end BbrSender

def newBbrSender (quic : QuicConfig) (initialMaxDatagramSize : ByteCount) : BbrSender :=
  .new quic initialMaxDatagramSize (initialCongestionWindowPackets * initialMaxDatagramSize)
    (quic.maxCongestionWindowPackets * initialMaxDatagramSize)

namespace BbrSender

variable (scale : Scale) (quic : QuicConfig) (b : BbrSender) (minRTT : Duration)
  (lastPacketSendState : SendTimeState) (now : Time) (bytesAcked bytesLost : ByteCount)
  (targetRate : Bandwidth) (excessAcked priorInFlight : ByteCount)

def inRecovery : Bool := b.recoveryState != .notInRecovery

def probeRttCongestionWindow : ByteCount := b.minCongestionWindow

def getCongestionWindow : ByteCount :=
  if b.mode = .probeRtt then b.probeRttCongestionWindow
  else if b.inRecovery then min b.congestionWindow b.recoveryWindow
  else b.congestionWindow

def canSend (bytesInFlight : ByteCount) : Bool :=
  decide (bytesInFlight < b.getCongestionWindow)

def bandwidthEstimate : Bandwidth := b.maxBandwidth.getBest

def bandwidthForPacer : ByteCount :=
  let bps := scale (b.congestionWindowGain / 8) b.bandwidthEstimate.toNat
  if bps < minBps then minBps else bps

def onPacketSent (scale : Scale) (quic : QuicConfig) (b : BbrSender) (sentTime : Time)
    (bytesInFlight : ByteCount) (packetNumber : Int64) (bytes : ByteCount)
    (isRetransmittable : Bool) : Option BbrSender := do
  let sampler ← b.sampler.onPacketSent sentTime packetNumber bytes bytesInFlight isRetransmittable
  some { b with
    pacer := b.pacer.sentPacket quic (b.bandwidthForPacer scale) sentTime bytes
    lastSentPacket := packetNumber
    bytesInFlight := bytesInFlight
    exitingQuiescence := if bytesInFlight = 0 then true else b.exitingQuiescence
    sampler := sampler }

def setMaxDatagramSize (b : BbrSender) (s : ByteCount) : Option BbrSender :=
  if s < b.maxDatagramSize then none
  else
    some { b with
      congestionWindow := if b.congestionWindow = b.minCongestionWindow then b.minCongestionWindow
        else b.congestionWindow
      maxDatagramSize := s
      pacer := b.pacer.setMaxDatagramSize s }

def getMinRtt : Duration :=
  if b.minRtt ≠ 0 then b.minRtt else if minRTT = 0 then 100 * millisecond else minRTT

def getTargetCongestionWindow (gain : ℚ) : ByteCount :=
  let bdp := bdpFromRttAndBandwidth (b.getMinRtt minRTT) b.bandwidthEstimate
  let congestionWindow := scale gain bdp
  let congestionWindow :=
    if congestionWindow = 0 then scale gain b.initialCongestionWindow else congestionWindow
  max congestionWindow b.minCongestionWindow

def maybeApplimited (bytesInFlight : ByteCount) : BbrSender :=
  let congestionWindow := b.getCongestionWindow
  if congestionWindow ≤ bytesInFlight then b
  else
    let availableBytes := congestionWindow - bytesInFlight
    let drainLimited := b.mode == .drain && decide (congestionWindow.tdiv 2 < bytesInFlight)
    if !drainLimited || decide (maxBbrBurstPackets * b.maxDatagramSize < availableBytes) then
      { b with sampler := b.sampler.onAppLimited }
    else b

variable (draw : ℕ) (lastAckedPacket : Int64) (isRoundStart minRttExpired : Bool)

def startsRound : Bool :=
  b.currentRoundTripEnd == invalidPacketNumber || decide (b.currentRoundTripEnd < lastAckedPacket)

def updateRoundTripCounter : Bool × BbrSender :=
  if b.startsRound lastAckedPacket then
    (true, { b with
      roundTripCount := b.roundTripCount + 1
      currentRoundTripEnd := b.lastSentPacket })
  else (false, b)

def updateRecoveryState (hasLosses isRoundStart : Bool) : BbrSender :=
  if !b.isAtFullBandwidth then b
  else
    let b := if hasLosses then { b with endRecoveryAt := b.lastSentPacket } else b
    match b.recoveryState with
    | .notInRecovery =>
      if hasLosses then
        { b with
          recoveryState := .conservation
          recoveryWindow := 0
          currentRoundTripEnd := b.lastSentPacket }
      else b
    | state =>
      let state := if state = .conservation ∧ isRoundStart = true then .growth else state
      if !hasLosses && decide (b.endRecoveryAt < lastAckedPacket) then
        { b with recoveryState := .notInRecovery }
      else { b with recoveryState := state }

def updateRound (ackedPackets : List AckedPacketInfo) (hasLosses : Bool) : Bool × BbrSender :=
  match ackedPackets.getLast? with
  | none => (false, b)
  | some p =>
    let (isRoundStart, b) := b.updateRoundTripCounter p.packetNumber
    (isRoundStart, b.updateRecoveryState p.packetNumber hasLosses isRoundStart)

def takeSample (sample : CongestionEventSample) (totalBytesAckedBefore : ByteCount) : BbrSender :=
  let b := if sample.lastPacketSendState.isValid then
    { b with
      lastSampleIsAppLimited := sample.lastPacketSendState.isAppLimited
      hasNoAppLimitedSample := b.hasNoAppLimitedSample || !sample.lastPacketSendState.isAppLimited }
    else b
  if totalBytesAckedBefore ≠ b.sampler.totalBytesAcked ∧
      (sample.sampleIsAppLimited = false ∨ b.maxBandwidth.getBest < sample.sampleMaxBandwidth) then
    { b with maxBandwidth := b.maxBandwidth.update sample.sampleMaxBandwidth b.roundTripCount }
  else b

def maybeUpdateMinRtt (sampleMinRtt : Duration) : Bool × BbrSender :=
  let minRttExpired := decide (b.minRtt ≠ 0) && decide (b.minRttTimestamp + minRttExpiry < now)
  if minRttExpired = true ∨ sampleMinRtt < b.minRtt ∨ b.minRtt = 0 then
    (minRttExpired, { b with minRtt := sampleMinRtt, minRttTimestamp := now })
  else (minRttExpired, b)

def updateMinRtt (sampleRtt : Duration) : Bool × BbrSender :=
  if sampleRtt ≠ infRTT then b.maybeUpdateMinRtt now sampleRtt else (false, b)

def countLosses (hasLosses : Bool) (bytesLost : ByteCount) : BbrSender :=
  if hasLosses then
    { b with
      numLossEventsInRound := b.numLossEventsInRound + 1
      bytesLostInRound := b.bytesLostInRound + bytesLost }
  else b

/-- Whether the gain cycle moves on. A gain above one waits until it has filled the pipe, unless
there were losses; a gain below one ends early once the queue is drained. -/
def shouldAdvanceGainCycling (hasLosses : Bool) : Bool :=
  let target := b.getTargetCongestionWindow scale minRTT
  let advance := decide (b.lastCycleStart + b.getMinRtt minRTT < now)
  let advance := if 1 < b.pacingGain ∧ hasLosses = false ∧ priorInFlight < target b.pacingGain then
    false else advance
  if b.pacingGain < 1 ∧ b.bytesInFlight ≤ target 1 then true else advance

def nextPacingGain (offset : ℕ) : ℚ :=
  let gain := Bbr.pacingGain.getD offset 1
  if b.drainToTarget = true ∧ b.pacingGain < 1 ∧ gain = 1 ∧
      b.getTargetCongestionWindow scale minRTT 1 < b.bytesInFlight then b.pacingGain
  else gain

def updateGainCyclePhase (hasLosses : Bool) : BbrSender :=
  if b.shouldAdvanceGainCycling scale minRTT now priorInFlight hasLosses then
    let offset := (b.cycleCurrentOffset + 1) % gainCycleLength
    { b with
      cycleCurrentOffset := offset
      lastCycleStart := now
      pacingGain := b.nextPacingGain scale minRTT offset }
  else b

def shouldExitStartupDueToLoss : Bool :=
  decide (defaultStartupFullLossCount ≤ b.numLossEventsInRound) && lastPacketSendState.isValid &&
    decide (0 < lastPacketSendState.bytesInFlight) &&
    decide (scale quicBbr2DefaultLossThreshold lastPacketSendState.bytesInFlight < b.bytesLostInRound)

def checkIfFullBandwidthReached : BbrSender :=
  if b.lastSampleIsAppLimited then b
  else
    let target := UInt64.ofInt (scale startupGrowthTarget b.bandwidthAtLastRound.toNat)
    if target ≤ b.bandwidthEstimate then
      { b with
        bandwidthAtLastRound := b.bandwidthEstimate
        roundsWithoutBandwidthGain := 0
        sampler := if b.expireAckAggregationInStartup then
          b.sampler.resetMaxAckHeightTracker 0 b.roundTripCount else b.sampler }
    else
      let rounds := b.roundsWithoutBandwidthGain + 1
      { b with
        roundsWithoutBandwidthGain := rounds
        isAtFullBandwidth := b.isAtFullBandwidth || decide (b.numStartupRtts ≤ rounds) ||
          b.shouldExitStartupDueToLoss scale lastPacketSendState }

def enterProbeBandwidthMode : BbrSender :=
  let offset := draw % (gainCycleLength - 1)
  let offset := if 1 ≤ offset then offset + 1 else offset
  { b with
    mode := .probeBw
    congestionWindowGain := b.congestionWindowGainConstant
    cycleCurrentOffset := offset
    lastCycleStart := now
    pacingGain := Bbr.pacingGain.getD offset 1 }

def enterDrainMode : BbrSender :=
  { b with mode := .drain, pacingGain := b.drainGain, congestionWindowGain := b.highCwndGain }

def maybeExitStartupOrDrain : BbrSender :=
  let b := if b.mode = .startup ∧ b.isAtFullBandwidth = true then b.enterDrainMode else b
  if b.mode = .drain ∧ b.bytesInFlight ≤ b.getTargetCongestionWindow scale minRTT 1 then
    b.enterProbeBandwidthMode now draw
  else b

def enterProbeRttMode : BbrSender :=
  { b with mode := .probeRtt, pacingGain := 1, exitProbeRttAt := 0 }

def scheduleProbeRttExit : BbrSender :=
  if b.bytesInFlight < b.probeRttCongestionWindow + (quic.maxPacketBufferSize : ℤ) then
    { b with exitProbeRttAt := now + probeRttTime, probeRttRoundPassed := false }
  else b

def exitProbeRttMode : BbrSender :=
  let b := { b with minRttTimestamp := now }
  if !b.isAtFullBandwidth then b.enterStartupMode else b.enterProbeBandwidthMode now draw

def passProbeRttRound : BbrSender :=
  { b with probeRttRoundPassed := b.probeRttRoundPassed || isRoundStart }

def tryProbeRttExit : BbrSender :=
  if 0 ≤ Time.sub now b.exitProbeRttAt ∧ b.probeRttRoundPassed = true then
    b.exitProbeRttMode now draw
  else b

def stayInProbeRtt : BbrSender :=
  let b := { b with sampler := b.sampler.onAppLimited }
  if Time.isZero b.exitProbeRttAt then b.scheduleProbeRttExit quic now
  else (b.passProbeRttRound isRoundStart).tryProbeRttExit now draw

def leaveQuiescence : BbrSender := { b with exitingQuiescence := false }

def maybeEnterOrExitProbeRtt : BbrSender :=
  let b := if minRttExpired = true ∧ b.exitingQuiescence = false ∧ b.mode ≠ .probeRtt then
    b.enterProbeRttMode else b
  let b := if b.mode = .probeRtt then b.stayInProbeRtt quic now draw isRoundStart else b
  b.leaveQuiescence

def slowWhenOvershooting (bytesLost : ByteCount) : BbrSender :=
  let lost := b.bytesLostWhileDetectingOvershooting + bytesLost
  if targetRate < b.pacingRate ∧ 0 < lost ∧ (b.hasNoAppLimitedSample = true ∨
      b.initialCongestionWindow < lost * b.bytesLostMultiplierWhileDetectingOvershooting) then
    { b with
      pacingRate := max targetRate (bandwidthFromDelta b.cwndToCalculateMinPacingRate minRTT)
      bytesLostWhileDetectingOvershooting := 0
      detectOvershooting := false }
  else { b with bytesLostWhileDetectingOvershooting := lost }

def raisePacingRate : BbrSender :=
  { b with pacingRate := max b.pacingRate targetRate }

def calculatePacingRate : BbrSender :=
  if b.bandwidthEstimate = 0 then b
  else
    let targetRate := UInt64.ofInt (scale b.pacingGain b.bandwidthEstimate.toNat)
    if b.isAtFullBandwidth then { b with pacingRate := targetRate }
    else if b.pacingRate = 0 ∧ minRTT ≠ 0 then
      { b with pacingRate := bandwidthFromDelta b.initialCongestionWindow minRTT }
    else
      let b := if b.detectOvershooting then b.slowWhenOvershooting minRTT targetRate bytesLost else b
      b.raisePacingRate targetRate

def calculateCongestionWindow : BbrSender :=
  if b.mode = .probeRtt then b
  else
    let targetWindow := b.getTargetCongestionWindow scale minRTT b.congestionWindowGain
    let targetWindow :=
      if b.isAtFullBandwidth then targetWindow + b.sampler.maxAckHeight
      else if b.enableAckAggregationDuringStartup then targetWindow + excessAcked
      else targetWindow
    let congestionWindow :=
      if b.isAtFullBandwidth then min targetWindow (b.congestionWindow + bytesAcked)
      else if b.congestionWindow < targetWindow ∨
          b.sampler.totalBytesAcked < b.initialCongestionWindow then
        b.congestionWindow + bytesAcked
      else b.congestionWindow
    { b with
      congestionWindow := min (max congestionWindow b.minCongestionWindow) b.maxCongestionWindow }

def calculateRecoveryWindow : BbrSender :=
  if b.recoveryState = .notInRecovery then b
  else if b.recoveryWindow = 0 then
    { b with recoveryWindow := max b.minCongestionWindow (b.bytesInFlight + bytesAcked) }
  else
    let recoveryWindow :=
      if bytesLost ≤ b.recoveryWindow then b.recoveryWindow - bytesLost else b.maxDatagramSize
    let recoveryWindow :=
      if b.recoveryState = .growth then recoveryWindow + bytesAcked else recoveryWindow
    { b with
      recoveryWindow :=
        max b.minCongestionWindow (max recoveryWindow (b.bytesInFlight + bytesAcked)) }

/-- What an event brings, and what the sender reads while it handles it. -/
structure CongestionEvent where
  priorInFlight : ByteCount
  eventTime : Time
  ackedPackets : List AckedPacketInfo
  lostPackets : List LostPacketInfo
  minRTT : Duration
  draw : ℕ

namespace CongestionEvent

variable (e : CongestionEvent)

def hasLosses : Bool := !e.lostPackets.isEmpty

def bytesInFlight : ByteCount :=
  e.priorInFlight - (e.ackedPackets.map (·.bytesAcked)).sum - (e.lostPackets.map (·.bytesLost)).sum

def leastUnacked : Option Int64 :=
  match e.ackedPackets.getLast? with
  | some p => some (p.packetNumber - 2)
  | none => e.lostPackets.getLast?.map fun p => p.packetNumber + 1

end CongestionEvent

def setBytesInFlight (bytesInFlight : ByteCount) : BbrSender :=
  { b with bytesInFlight := bytesInFlight }

def setSampler (sampler : BandwidthSampler) : BbrSender :=
  { b with sampler := sampler }

def beginEvent (e : CongestionEvent) : Bool × BbrSender :=
  let b := b.maybeApplimited e.priorInFlight
  (b.setBytesInFlight e.bytesInFlight).updateRound e.ackedPackets e.hasLosses

def updateMode (e : CongestionEvent)
    (isRoundStart minRttExpired : Bool) (lastPacketSendState : SendTimeState) : BbrSender :=
  let b := if b.mode = .probeBw then
    b.updateGainCyclePhase scale e.minRTT e.eventTime e.priorInFlight e.hasLosses else b
  let b := if isRoundStart = true ∧ b.isAtFullBandwidth = false then
    b.checkIfFullBandwidthReached scale lastPacketSendState else b
  let b := b.maybeExitStartupOrDrain scale e.minRTT e.eventTime e.draw
  b.maybeEnterOrExitProbeRtt quic e.eventTime e.draw isRoundStart minRttExpired

def updateWindows : BbrSender :=
  let b := b.calculatePacingRate scale minRTT bytesLost
  let b := b.calculateCongestionWindow scale minRTT bytesAcked excessAcked
  b.calculateRecoveryWindow bytesAcked bytesLost

def endEvent (e : CongestionEvent) (isRoundStart : Bool) (sample : CongestionEventSample)
    (totalBytesAckedBefore totalBytesLostBefore : ByteCount) : BbrSender :=
  let b := b.takeSample sample totalBytesAckedBefore
  let (minRttExpired, b) := b.updateMinRtt e.eventTime sample.sampleRtt
  let bytesLost := b.sampler.totalBytesLost - totalBytesLostBefore
  let b := b.countLosses e.hasLosses bytesLost
  let b := b.updateMode scale quic e isRoundStart minRttExpired sample.lastPacketSendState
  let bytesAcked := b.sampler.totalBytesAcked - totalBytesAckedBefore
  b.updateWindows scale e.minRTT bytesAcked bytesLost sample.extraAcked

def endRound : BbrSender :=
  if isRoundStart then { b with numLossEventsInRound := 0, bytesLostInRound := 0 } else b

def onCongestionEventEx (scale : Scale) (quic : QuicConfig) (b : BbrSender) (e : CongestionEvent) :
    Option BbrSender := do
  let before := b.sampler
  let (isRoundStart, b) := b.beginEvent e
  let (sample, sampler) ← b.sampler.onCongestionEvent scale e.eventTime e.ackedPackets
    e.lostPackets b.maxBandwidth.getBest infBandwidth b.roundTripCount
  let b := (b.setSampler sampler).endEvent scale quic e isRoundStart sample before.totalBytesAcked
    before.totalBytesLost
  let leastUnacked ← e.leastUnacked
  let sampler ← b.sampler.removeObsoletePackets leastUnacked
  some ((b.setSampler sampler).endRound isRoundStart)

end BbrSender

end Outbound.Bbr
