import Outbound.Bbr.Pacer
import Outbound.Bbr3.Model
import Outbound.Bbr3.Probe

/-! The experimental congestion sender. `none` stands for a panic of the source. -/
namespace Outbound.Bbr3
open Bbr

/-- What a sender is built from: the constructor panics unless the parameters are valid and the
hint is in its range. -/
structure Setup where
  quic : QuicConfig
  params : Params
  hint : ℕ
  valid : params.validate = none
  hint_le : hint ≤ 1099511627776

def Setup.gateConfig (c : Setup) : GateConfig := ⟨c.params.enableValidatedHint, c.hint⟩

structure RttStats where
  latest : Duration
  smoothed : Duration
deriving DecidableEq

def RttStats.rttSample (r : RttStats) : Duration := if r.latest ≤ 0 then r.smoothed else r.latest

structure Bbr3Sender where
  model : Model
  pacer : Pacer
  maxCwnd : ByteCount
  mode : Mode
  pacingRate : ℕ
  cwnd : ByteCount
  probeRttExitAt : Time
  probeRttRound : Bool
  gate : HintGate

namespace Bbr3Sender

section recalc

variable (c : Setup) (rtt : Option RttStats) (b : Bbr3Sender) (est : ℕ)

def hintEstimate : ℕ :=
  if !c.gateConfig.active then est
  else if b.mode = .drain ∨ b.mode = .probeBWDown ∨ b.mode = .probeRTT then est
  else max est (b.gate.target c.gateConfig)

def steadyEstimate : ℕ :=
  let est := b.hintEstimate c b.model.estimate
  if 0 < c.hint ∧ c.hint < est then c.hint else est

def exceedsHint : Bool := !c.params.strictHintCap && b.mode == .probeBWUp

def hintCeiling : ℕ :=
  if b.exceedsHint c then (scaled c.params.hintProbeOvershoot c.hint).toNat else c.hint

def probeCeiling : ℕ := min (b.gate.recent * 11 / 10) c.hint

def nextPacingRate : ℕ :=
  let rate := max (scaled (c.params.pacingGain b.mode) est).toNat c.params.minPacingRate
  let rate := if 0 < c.hint then min rate (b.hintCeiling c) else rate
  if c.params.enableValidatedHint ∧ b.gate.state = .probing then min rate (b.probeCeiling c)
  else rate

variable (rate : ℕ)

/-- The window has to hold the rate over the round-trip time that the connection experiences. -/
def supportRate (cwnd : ByteCount) : ByteCount :=
  match rtt with
  | some r => if 0 < rate ∧ 0 < r.smoothed then
      max cwnd (c.params.cwndGain * rate * r.smoothed / 1000000000).floor else cwnd
  | none => cwnd

def pathWindow : ByteCount :=
  let m := b.model
  let cwnd := scaled c.params.cwndGain (bdpFrom est (m.minRttValue c.params))
  let cwnd := supportRate c rtt rate cwnd
  let cwnd := if 0 < m.inflightLo then max cwnd m.inflightLo else cwnd
  if 0 < m.inflightHi then min cwnd m.inflightHi else cwnd

def accessBudget : ByteCount :=
  let factor : ℚ := if b.exceedsHint c then c.params.hintProbeOvershoot else 1
  let capRtt : Duration := b.model.minRttValue c.params
  let capRtt : Duration := match rtt with
    | some r => max capRtt r.smoothed
    | none => capRtt
  max (c.hint * (capRtt / 1000000000) * c.params.cwndGain * factor).floor b.model.minCwnd

def nextCwnd : ByteCount :=
  let m := b.model
  let cwnd := if b.mode = .probeRTT then m.probeRttTarget c.params else b.pathWindow c rtt est rate
  let cwnd := if b.mode = .startup then max cwnd m.initialCwnd else cwnd
  let cwnd := min (max cwnd m.minCwnd) b.maxCwnd
  if 0 < c.hint then min cwnd (b.accessBudget c rtt) else cwnd

def setRates (cwnd : ByteCount) : Bbr3Sender := { b with pacingRate := rate, cwnd := cwnd }

def recalc : Bbr3Sender :=
  let est := b.steadyEstimate c
  let rate := b.nextPacingRate c est
  b.setRates rate (b.nextCwnd c rtt est rate)

end recalc

end Bbr3Sender

def newBbr3SenderWithParams (c : Setup) (maxDatagramSize : ByteCount) : Bbr3Sender :=
  let m := newModel c.quic c.params maxDatagramSize
  let b : Bbr3Sender :=
    { model := m
      pacer := (Pacer.new c.quic).setMaxDatagramSize m.maxDatagramSize
      maxCwnd := c.quic.maxCongestionWindowPackets * m.maxDatagramSize
      mode := .startup
      pacingRate := 0
      cwnd := m.initialCwnd
      probeRttExitAt := 0
      probeRttRound := false
      gate := .new }
  b.recalc c none

namespace Bbr3Sender

variable (c : Setup) (rtt : Option RttStats) (b : Bbr3Sender) (now : Time) (roundStart : Bool)
  (e : AckEvent) (lostBytes bytesInFlight : ByteCount)

def setModel (m : Model) : Bbr3Sender := { b with model := m }

def setGate (g : HintGate) : Bbr3Sender := { b with gate := g }

def setPacer (pacer : Pacer) : Bbr3Sender := { b with pacer := pacer }

def setMode (mode : Mode) : Bbr3Sender := { b with mode := mode }

def setMaxDatagramSize (s : ByteCount) : Bbr3Sender :=
  if s ≤ 0 then b
  else
    let m := b.model.setMaxDatagramSize c.params s
    { b with
      model := m
      maxCwnd := c.quic.maxCongestionWindowPackets * s
      cwnd := max b.cwnd m.minCwnd
      pacer := b.pacer.setMaxDatagramSize s }

def expireHint : Bbr3Sender :=
  if b.gate.expired now then
    (b.setGate (b.gate.revokeHint c.gateConfig now .expiry)).recalc c rtt
  else b

def bandwidthForPacer : ByteCount := wrap64 b.pacingRate

def hasPacingBudget : Bool × Bbr3Sender :=
  let b := b.expireHint c rtt now
  (decide (b.model.maxDatagramSize ≤ b.pacer.budget c.quic b.bandwidthForPacer now), b)

def canSend : Bool := decide (bytesInFlight < b.cwnd)

def onPacketSent (sentTime : Time) (bytesInFlight : ByteCount) (packetNumber : Int64)
    (bytes : ByteCount) (isRetransmittable : Bool) : Option Bbr3Sender :=
  if !isRetransmittable then do
    let ref ← b.model.ref.onPacketSent sentTime packetNumber bytes bytesInFlight false
    some (b.setModel (b.model.setRef ref))
  else do
    let b := b.expireHint c rtt sentTime
    let m ← (b.model.setBytesInFlight bytesInFlight).onPacketSent sentTime packetNumber bytes
      bytesInFlight true
    some ((b.setModel m).setPacer (b.pacer.sentPacket c.quic b.bandwidthForPacer sentTime bytes))

def onCongestionEvent : Bbr3Sender :=
  let reason := if 0 < lostBytes then RevokeReason.loss else .ecnOrTimer
  (b.setGate (b.gate.revokeHint c.gateConfig now reason)).recalc c rtt

def maxBurstPackets : ℕ := 10

def maybeApplimited : Bbr3Sender :=
  if b.cwnd ≤ bytesInFlight then b
  else
    let drainLimited := b.mode == .drain && decide (b.cwnd.tdiv 2 < bytesInFlight)
    if !drainLimited || decide (maxBurstPackets * b.model.maxDatagramSize < b.cwnd - bytesInFlight)
    then b.setModel b.model.onAppLimited
    else b

/-- The event enters the model and the gate. The answers are whether a round started and whether
the minimum round-trip time had expired. -/
def foldEvent (r : RttStats) (e : AckEvent) : Option (Bool × Bool × Bbr3Sender) := do
  let b := b.maybeApplimited e.priorInFlight
  let (roundStart, delivered, m) ← b.model.takeEvent c.params e
  -- against the minimum before it can be refreshed
  let gate := b.gate.observeHint c.gateConfig e.now delivered e.lostBytes r.rttSample
    (m.minRttValue c.params)
  let (minRttExpired, m) := m.settleEvent c.params e r.rttSample
  some (roundStart, minRttExpired, (b.setModel m).setGate gate)

/-- The mode that the event leads to, apart from the measurement of the round-trip time. -/
def updateMode : Bbr3Sender :=
  let m := b.model
  match b.mode with
  | .startup =>
    let m := if roundStart then m.checkFullBwReached c.params else m
    (b.setModel m).setMode (if m.fullBwReached then .drain else .startup)
  | .drain => if m.bytesInFlight ≤ m.bdp c.params then b.setMode .probeBWDown else b
  | .probeBWUp =>
    let (turnedDown, m) := m.probeUpRound c.params roundStart lostBytes b.cwnd
    (b.setModel m).setMode (if turnedDown then .probeBWDown else .probeBWUp)
  | .probeBWDown | .probeBWCruise | .probeBWRefill =>
    if roundStart then
      let mode := b.mode.advance
      (b.setModel (if mode = .probeBWUp then m.resetProbeUp else m)).setMode mode
    else b
  | .probeRTT => b

def probeRttDone : Bool :=
  !Time.isZero b.probeRttExitAt && (b.probeRttRound || roundStart) && decide (b.probeRttExitAt ≤ now)

def passProbeRttRound : Bbr3Sender :=
  { b with probeRttRound := b.probeRttRound || roundStart }

def leaveProbeRtt : Bbr3Sender := { b with probeRttExitAt := 0, mode := .probeBWDown }

def enterProbeRtt : Bbr3Sender :=
  { b with mode := .probeRTT, probeRttExitAt := 0, probeRttRound := false }

def timeProbeRtt : Bbr3Sender :=
  if b.model.bytesInFlight ≤ b.model.probeRttTarget c.params then
    { b with probeRttExitAt := now + c.params.probeRttDuration, probeRttRound := false }
  else b

def maybeProbeRtt (minRttExpired : Bool) : Bbr3Sender :=
  if b.mode = .probeRTT then
    let b := b.setModel b.model.onAppLimited
    if Time.isZero b.probeRttExitAt then b.timeProbeRtt c now
    else if b.probeRttDone now roundStart then (b.passProbeRttRound roundStart).leaveProbeRtt
    else b.passProbeRttRound roundStart
  else if minRttExpired then b.enterProbeRtt
  else b

def closeRound : Bbr3Sender :=
  if roundStart then b.setModel (b.model.updateLossBaseline c.params) else b

def onAckEvent : Option Bbr3Sender :=
  match rtt with
  | none => some b
  | some r => do
    let (roundStart, minRttExpired, b) ← (b.expireHint c rtt e.now).foldEvent c r e
    let b := (b.updateMode c roundStart e.lostBytes).closeRound c roundStart
    some ((b.maybeProbeRtt c e.now roundStart minRttExpired).recalc c rtt)

def onCongestionEventEx : Option Bbr3Sender :=
  if e.acked.isEmpty && e.lost.isEmpty then some b else b.onAckEvent c rtt e

end Bbr3Sender

end Outbound.Bbr3
