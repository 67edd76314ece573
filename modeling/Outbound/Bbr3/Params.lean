import Outbound.Bbr.BandwidthSampler

/-! The parameters of the experimental sender, and its modes. Gains and fractions are exact. -/
namespace Outbound.Bbr3
open Bbr

structure Params where
  initialCwndPackets : ℤ
  minCwndPackets : ℤ
  highGain : ℚ
  drainGain : ℚ
  cwndGain : ℚ
  upGain : ℚ
  downGain : ℚ
  cruiseGain : ℚ
  probeRttGain : ℚ
  fullBwThreshold : ℚ
  fullBwRounds : ℤ
  lossThreshold : ℚ
  minLossPackets : ℤ
  minLossSentPackets : ℤ
  beta : ℚ
  probeUpGrowth : ℚ
  probeUpRounds : ℤ
  enableLossBaseline : Bool
  lossBaselineWeight : ℚ
  lossBaselineFactor : ℚ
  correctSampleForLoss : Bool
  maxLossCorrection : ℚ
  probeRttFraction : ℚ
  probeRttDuration : Duration
  hintProbeOvershoot : ℚ
  enableValidatedHint : Bool
  strictHintCap : Bool
  minRttFilterLen : Duration
  defaultMinRtt : Duration
  minPacingRate : ℕ
  maxBwFilterRounds : UInt64
deriving DecidableEq

def defaultParams : Params :=
  { initialCwndPackets := 10
    minCwndPackets := 4
    highGain := 277 / 100
    drainGain := 100 / 277
    cwndGain := 2
    upGain := 5 / 4
    downGain := 3 / 4
    cruiseGain := 1
    probeRttGain := 1
    fullBwThreshold := 5 / 4
    fullBwRounds := 3
    lossThreshold := 2 / 100
    minLossPackets := 8
    minLossSentPackets := 10
    beta := 7 / 10
    probeUpGrowth := 1 / 4
    probeUpRounds := 1
    enableLossBaseline := true
    lossBaselineWeight := 1 / 4
    lossBaselineFactor := 4
    correctSampleForLoss := false
    maxLossCorrection := 1 / 4
    probeRttFraction := 1 / 2
    probeRttDuration := 200 * millisecond
    hintProbeOvershoot := 5 / 4
    enableValidatedHint := false
    strictHintCap := false
    minRttFilterLen := 10 * second
    defaultMinRtt := 100 * millisecond
    minPacingRate := 65536
    maxBwFilterRounds := 10 }

def conservativeParams : Params := { defaultParams with enableLossBaseline := false }

namespace Params

variable (p : Params)

def gains : List (String × ℚ) :=
  [("HighGain", p.highGain), ("DrainGain", p.drainGain), ("CwndGain", p.cwndGain),
   ("UpGain", p.upGain), ("DownGain", p.downGain), ("CruiseGain", p.cruiseGain),
   ("ProbeRttGain", p.probeRttGain), ("FullBwThreshold", p.fullBwThreshold),
   ("LossThreshold", p.lossThreshold), ("Beta", p.beta), ("ProbeUpGrowth", p.probeUpGrowth),
   ("LossBaselineWeight", p.lossBaselineWeight), ("LossBaselineFactor", p.lossBaselineFactor),
   ("MaxLossCorrection", p.maxLossCorrection), ("ProbeRttFraction", p.probeRttFraction),
   ("HintProbeOvershoot", p.hintProbeOvershoot)]

def badLimits : Bool :=
  decide (p.minCwndPackets < 2) || decide (p.initialCwndPackets < p.minCwndPackets) ||
  decide (10000 < p.initialCwndPackets) || decide (p.fullBwRounds < 1) ||
  decide (10000 < p.fullBwRounds) || decide (p.minLossPackets < 1) ||
  decide (1048576 < p.minLossPackets) || decide (p.minLossSentPackets < 1) ||
  decide (1048576 < p.minLossSentPackets) || decide (p.probeUpRounds < 1) ||
  decide (16 < p.probeUpRounds) || p.maxBwFilterRounds == 0 || decide (10000 < p.maxBwFilterRounds)

def badGains : Bool :=
  decide (p.highGain ≤ 1) || decide (1 ≤ p.drainGain) || decide (p.cwndGain < 1) ||
  decide (p.upGain ≤ 1) || decide (1 ≤ p.downGain) || decide (p.cruiseGain ≤ 0) ||
  decide (p.fullBwThreshold ≤ 1) || decide (1 ≤ p.lossThreshold) || decide (1 ≤ p.beta) ||
  decide (1 < p.lossBaselineWeight) || decide (p.lossBaselineFactor < 1) ||
  decide (1 ≤ p.maxLossCorrection) || decide (1 ≤ p.probeRttFraction) ||
  decide (p.hintProbeOvershoot < 1) || decide (5 / 4 < p.hintProbeOvershoot) ||
  decide (1 < p.probeUpGrowth)

def badTiming : Bool :=
  decide (p.minRttFilterLen ≤ 0) || decide (p.defaultMinRtt ≤ 0) ||
  decide (p.probeRttDuration ≤ 0) || decide (60 * second < p.defaultMinRtt) ||
  decide (3600 * second < p.minRttFilterLen) || decide (60 * second < p.probeRttDuration) ||
  p.minPacingRate == 0 || decide (1099511627776 < p.minPacingRate)

/-- The error that `Validate` returns. It goes over the gains in the order of a map, so of several
bad ones it may name another than here. -/
def validate : Option String :=
  match p.gains.find? (fun g => decide (g.2 ≤ 0) || decide (100 < g.2)) with
  | some (name, _) => some ("bbr3: invalid " ++ name)
  | none =>
    if p.badLimits then some "bbr3: invalid packet or round limits"
    else if p.badGains then some "bbr3: invalid gains or fractions"
    else if p.badTiming then some "bbr3: invalid timing or pacing limits"
    else if p.correctSampleForLoss then
      some "bbr3: loss correction is unsupported: loss location cannot be inferred from ACK events"
    else none

end Params

inductive Mode where
  | startup
  | drain
  | probeBWDown
  | probeBWCruise
  | probeBWRefill
  | probeBWUp
  | probeRTT
deriving DecidableEq, Repr

def Params.pacingGain (p : Params) : Mode → ℚ
  | .startup => p.highGain
  | .drain => p.drainGain
  | .probeBWUp => p.upGain
  | .probeBWDown => p.downGain
  | .probeRTT => p.probeRttGain
  | .probeBWCruise | .probeBWRefill => p.cruiseGain

def Mode.advance : Mode → Mode
  | .probeBWDown => .probeBWCruise
  | .probeBWCruise => .probeBWRefill
  | .probeBWRefill => .probeBWUp
  | _ => .probeBWDown

namespace Params

theorem checks_of_validate {p : Params} (h : p.validate = none) :
    p.badLimits = false ∧ p.badGains = false ∧ p.badTiming = false := by
  unfold validate at h
  split at h
  · cases h
  · split_ifs at h with hlimits hgains htiming
    exact ⟨Bool.eq_false_of_not_eq_true hlimits, Bool.eq_false_of_not_eq_true hgains,
      Bool.eq_false_of_not_eq_true htiming⟩

theorem validate_presets : defaultParams.validate = none ∧ conservativeParams.validate = none := by
  decide +kernel

end Params

end Outbound.Bbr3
