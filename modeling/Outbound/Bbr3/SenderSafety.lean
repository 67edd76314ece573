import Mathlib.Algebra.Order.Ring.Rat
import Outbound.Bbr3.Sender

/-! What holds of the experimental sender in every run: the bounds on window and rate, and when it
leaves the startup ramp. -/
namespace Outbound.Bbr3

open List Option Bool Int
open Bbr

/-- The part of the model that the bounds and the modes rest on. -/
structure ModelCore where
  maxDatagramSize : ByteCount
  minCwnd : ByteCount
  fullBwReached : Bool

namespace Model

variable (p : Params) (m : Model)

def core : ModelCore := ⟨m.maxDatagramSize, m.minCwnd, m.fullBwReached⟩

@[simp] theorem core_setBytesInFlight (n : ByteCount) : (m.setBytesInFlight n).core = m.core := rfl

theorem updateRound_fst (pn : Int64) : (m.updateRound pn).1 = m.startsRound pn := by
  unfold updateRound
  split_ifs with h
  · exact h.symm
  · exact (eq_false_of_not_eq_true h).symm

@[simp] theorem core_updateRound (pn : Int64) : (m.updateRound pn).2.core = m.core := by
  unfold updateRound
  split_ifs <;> rfl

@[simp] theorem core_accountEvent (acked lost : ByteCount) (n : ℕ) (pn : Int64) :
    (m.accountEvent p acked lost n pn).2.core = m.core := by
  rw [← core_updateRound m pn]
  unfold accountEvent
  dsimp only
  split_ifs <;> rfl

@[simp] theorem core_updateMinRtt (now : Time) (sample : Duration) :
    (m.updateMinRtt p now sample).2.core = m.core := by
  unfold updateMinRtt
  dsimp only
  split_ifs <;> rfl

@[simp] theorem core_adaptLowerBounds : (m.adaptLowerBounds p).core = m.core := by
  unfold adaptLowerBounds
  dsimp only
  split_ifs <;> rfl

@[simp] theorem core_updateLossBaseline : (m.updateLossBaseline p).core = m.core := by
  unfold updateLossBaseline
  split_ifs <;> rfl

theorem core_capInflightHi : (m.capInflightHi p).core = m.core := by
  unfold capInflightHi
  dsimp only
  split_ifs <;> rfl

@[simp] theorem core_probeUpRound (roundStart : Bool) (lost cwnd : ByteCount) :
    (m.probeUpRound p roundStart lost cwnd).2.core = m.core := by
  unfold probeUpRound
  dsimp only
  split_ifs
  · exact core_capInflightHi p m
  · rfl
  · rfl
  · rfl

theorem core_checkFullBwReached : ∃ flag, (m.fullBwReached = true → flag = true) ∧
    (m.checkFullBwReached p).core = { m.core with fullBwReached := flag } := by
  unfold checkFullBwReached
  dsimp only
  split_ifs
  · exact ⟨_, id, rfl⟩
  · exact ⟨_, id, rfl⟩
  · exact ⟨_, id, rfl⟩
  · exact ⟨_, fun h => or_eq_true_iff.mpr (.inl h), rfl⟩

theorem takeEvent_spec {m m' : Model} {e : AckEvent} {roundStart : Bool} {delivered : ByteCount}
    (h : m.takeEvent p e = some (roundStart, delivered, m')) :
    m'.core = m.core ∧ roundStart = m.startsRound e.maxPn := by
  unfold takeEvent at h
  have hcore := core_accountEvent p (m.setBytesInFlight e.bytesInFlight) e.ackedBytes e.lostBytes
    e.lost.length e.maxPn
  have hstart : _ = m.startsRound e.maxPn := (m.setBytesInFlight e.bytesInFlight).updateRound_fst _
  change ((m.setBytesInFlight e.bytesInFlight).accountEvent p e.ackedBytes e.lostBytes
    e.lost.length e.maxPn).1 = _ at hstart
  generalize Model.accountEvent _ _ _ _ _ _ = account at h hcore hstart
  obtain ⟨⟨sample, ref⟩, -, hsome⟩ := bind_eq_some_iff.mp h
  obtain ⟨rfl, -, rfl⟩ := hsome
  exact ⟨hcore, hstart⟩

@[simp] theorem core_settleEvent (e : AckEvent) (sample : Duration) :
    (m.settleEvent p e sample).2.core = m.core := by
  unfold settleEvent
  split_ifs <;> simp

theorem core_onPacketSent {m m' : Model} {sentTime : Time} {pn : Int64}
    {bytes bytesInFlight : ByteCount} {isRetransmittable : Bool}
    (h : m.onPacketSent sentTime pn bytes bytesInFlight isRetransmittable = some m') :
    m'.core = m.core := by
  obtain ⟨ref, -, hm⟩ := bind_eq_some_iff.mp h
  cases hm
  rfl

end Model

/-- The part of the sender that the bounds and the modes rest on, apart from its gate. -/
structure SenderCore where
  model : ModelCore
  maxCwnd : ByteCount
  mode : Mode
  probeRttExitAt : Time
  probeRttRound : Bool

namespace Bbr3Sender

variable (c : Setup) (rtt : Option RttStats) (b : Bbr3Sender) (now : Time)

def core : SenderCore := ⟨b.model.core, b.maxCwnd, b.mode, b.probeRttExitAt, b.probeRttRound⟩

@[simp] theorem core_recalc : (b.recalc c rtt).core = b.core := rfl

@[simp] theorem gate_recalc : (b.recalc c rtt).gate = b.gate := rfl

@[simp] theorem core_setGate (g : HintGate) : (b.setGate g).core = b.core := rfl

@[simp] theorem core_setPacer (pacer : Pacer) : (b.setPacer pacer).core = b.core := rfl

theorem core_setModel {m : Model} (h : m.core = b.model.core) : (b.setModel m).core = b.core := by
  simp only [core, setModel, h]

@[simp] theorem core_expireHint : (b.expireHint c rtt now).core = b.core := by
  unfold expireHint
  split_ifs
  · simp
  · rfl

theorem gate_expireHint : (b.expireHint c rtt now).gate = b.gate.expireHint c.gateConfig now := by
  unfold expireHint HintGate.expireHint
  split_ifs
  · rfl
  · rfl

theorem model_expireHint : (b.expireHint c rtt now).model = b.model := by
  unfold expireHint
  split_ifs <;> rfl

@[simp] theorem core_maybeApplimited (n : ByteCount) : (b.maybeApplimited n).core = b.core := by
  unfold maybeApplimited
  dsimp only
  split_ifs <;> rfl

@[simp] theorem gate_maybeApplimited (n : ByteCount) : (b.maybeApplimited n).gate = b.gate := by
  unfold maybeApplimited
  dsimp only
  split_ifs <;> rfl

theorem foldEvent_spec {b b' : Bbr3Sender} {r : RttStats} {e : AckEvent}
    {roundStart minRttExpired : Bool}
    (h : b.foldEvent c r e = some (roundStart, minRttExpired, b')) :
    b'.core = b.core ∧ roundStart = b.model.startsRound e.maxPn ∧
      ∃ delivered base, b'.gate = b.gate.observeHint c.gateConfig e.now delivered e.lostBytes
        r.rttSample base := by
  obtain ⟨⟨start, delivered, m⟩, htake, hsome⟩ := bind_eq_some_iff.mp h
  obtain ⟨hcore, hstart⟩ := Model.takeEvent_spec c.params htake
  simp only [some.injEq, Prod.mk.injEq] at hsome
  obtain ⟨rfl, -, rfl⟩ := hsome
  refine ⟨?_, ?_, delivered, m.minRttValue c.params, ?_⟩
  · rw [core_setGate, core_setModel, core_maybeApplimited]
    rw [Model.core_settleEvent, hcore]
  · rw [hstart]
    unfold maybeApplimited
    dsimp only
    split_ifs <;> rfl
  · rw [← gate_maybeApplimited b e.priorInFlight]
    rfl

end Bbr3Sender

def Mode.ramped : Mode → Bool
  | .startup | .probeRTT => false
  | .drain | .probeBWDown | .probeBWCruise | .probeBWRefill | .probeBWUp => true

namespace SenderCore

variable (s : SenderCore)

/-- The ramp was left only after the full-bandwidth test had succeeded. -/
def Ramped : Prop := s.mode.ramped = true → s.model.fullBwReached = true

/-- The measurement of the round-trip time is over although the full-bandwidth test has not
succeeded. -/
def ExitsEarly (now : Time) (roundStart : Bool) : Prop :=
  s.mode = .probeRTT ∧
    (!Time.isZero s.probeRttExitAt && (s.probeRttRound || roundStart) &&
      decide (s.probeRttExitAt ≤ now)) = true ∧
    s.model.fullBwReached = false

def sizes : ByteCount × ByteCount × ByteCount :=
  (s.model.maxDatagramSize, s.model.minCwnd, s.maxCwnd)

/-- A change of mode other than into or out of the measurement of the round-trip time. -/
structure ModeStep (t : SenderCore) : Prop where
  sizes : t.sizes = s.sizes
  probeRtt : s.mode = .probeRTT → t = s
  other : s.mode ≠ .probeRTT → t.mode ≠ .probeRTT
  ramped : s.Ramped → t.Ramped

end SenderCore

namespace Bbr3Sender

variable (c : Setup) (rtt : Option RttStats) (b : Bbr3Sender) (now : Time)

theorem core_setMode_setModel (mode : Mode) (m : Model) :
    ((b.setModel m).setMode mode).core = { b.core with mode := mode, model := m.core } := rfl

variable (roundStart : Bool) (minRttExpired : Bool) (lost : ByteCount)

@[simp] theorem gate_updateMode : (b.updateMode c roundStart lost).gate = b.gate := by
  unfold updateMode
  cases b.mode <;> dsimp only <;> (try split_ifs) <;> rfl

theorem core_updateMode_startup (hmode : b.mode = .startup) :
    b.core.ModeStep (b.updateMode c roundStart lost).core := by
  have hnot : b.core.mode ≠ .probeRTT := fun h => absurd (hmode.symm.trans h) (by decide)
  unfold updateMode
  rw [hmode]
  dsimp only
  generalize hm : (if roundStart then b.model.checkFullBwReached c.params else b.model) = m
  have hcore : ∃ flag, m.core = { b.model.core with fullBwReached := flag } := by
    rw [← hm]
    split_ifs
    · obtain ⟨flag, -, h⟩ := b.model.core_checkFullBwReached c.params
      exact ⟨flag, h⟩
    · exact ⟨_, rfl⟩
  obtain ⟨flag, hflag⟩ := hcore
  have hreached : m.fullBwReached = flag := congrArg ModelCore.fullBwReached hflag
  rw [core_setMode_setModel, hflag, hreached]
  refine ⟨rfl, fun h => absurd h hnot, fun _ => ?_, fun _ => ?_⟩
  · cases flag <;> exact Mode.noConfusion
  · cases flag
    · exact fun h => absurd h false_ne_true
    · exact fun _ => rfl

theorem core_updateMode_ramped
    (hmode : b.mode.ramped = true) :
    ∃ mode, mode ≠ .probeRTT ∧
      (b.updateMode c roundStart lost).core = { b.core with mode := mode } := by
  have hstay : b.mode ≠ .probeRTT ∧ b.core = { b.core with mode := b.mode } :=
    ⟨fun h => by simp [h, Mode.ramped] at hmode, rfl⟩
  unfold updateMode
  cases h : b.mode <;> simp only [h] at hmode ⊢
  case startup => cases hmode
  case probeRTT => cases hmode
  case drain =>
    split_ifs
    · exact ⟨.probeBWDown, Mode.noConfusion, rfl⟩
    · exact ⟨_, hstay⟩
  case probeBWUp =>
    rw [core_setMode_setModel, Model.core_probeUpRound]
    refine ⟨_, ?_, rfl⟩
    split_ifs <;> exact Mode.noConfusion
  all_goals
    cases roundStart
    · exact ⟨_, hstay⟩
    · exact ⟨_, Mode.noConfusion, rfl⟩

/-- The event's mode keeps the sizes, does not touch the measurement of the round-trip time, and
leaves the startup ramp by the full-bandwidth test alone. -/
theorem core_updateMode : b.core.ModeStep (b.updateMode c roundStart lost).core := by
  cases hramped : b.mode.ramped with
  | true =>
    have hnot : b.core.mode ≠ .probeRTT := by
      intro h
      rw [show b.mode = .probeRTT from h] at hramped
      cases hramped
    obtain ⟨mode, hother, hcore⟩ := b.core_updateMode_ramped c roundStart lost hramped
    rw [hcore]
    exact ⟨rfl, fun h => absurd h hnot, fun _ => hother, fun h _ => h hramped⟩
  | false =>
    cases hmode : b.mode with
    | startup => exact b.core_updateMode_startup c roundStart lost hmode
    | probeRTT =>
      have hsame : b.updateMode c roundStart lost = b := by
        unfold updateMode
        rw [hmode]
      rw [hsame]
      exact ⟨rfl, fun _ => rfl, id, id⟩
    | _ => simp [hmode, Mode.ramped] at hramped

@[simp] theorem core_closeRound : (b.closeRound c roundStart).core = b.core := by
  unfold closeRound
  split_ifs
  · exact b.core_setModel (b.model.core_updateLossBaseline c.params)
  · rfl

@[simp] theorem gate_closeRound : (b.closeRound c roundStart).gate = b.gate := by
  unfold closeRound
  split_ifs <;> rfl

@[simp] theorem gate_maybeProbeRtt :
    (b.maybeProbeRtt c now roundStart minRttExpired).gate = b.gate := by
  unfold maybeProbeRtt timeProbeRtt
  dsimp only
  split_ifs <;> rfl

/-- The measurement of the round-trip time is left for the first phase of the gain cycle, whether
or not the full-bandwidth test has succeeded. -/
theorem ramped_maybeProbeRtt (h : b.core.Ramped) :
    (b.maybeProbeRtt c now roundStart minRttExpired).core.Ramped ↔
      ¬ b.core.ExitsEarly now roundStart := by
  change _ ↔ ¬ (b.mode = .probeRTT ∧ b.probeRttDone now roundStart = true ∧
    b.model.fullBwReached = false)
  unfold maybeProbeRtt
  dsimp only
  by_cases hmode : b.mode = .probeRTT
  · rw [if_pos hmode]
    have hstays : ∀ {b' : Bbr3Sender}, b'.mode = b.mode → b'.core.Ramped := by
      intro b' hb' hr
      rw [show b'.core.mode = b.mode from hb', hmode] at hr
      cases hr
    split_ifs with hzero hdone
    · refine iff_of_true (hstays ?_) (fun hbad => ?_)
      · unfold timeProbeRtt
        split_ifs <;> rfl
      · have hdone := hbad.2.1
        rw [probeRttDone, show Time.isZero b.probeRttExitAt = true from hzero] at hdone
        cases hdone
    · have hiff : ((b.setModel b.model.onAppLimited).passProbeRttRound
          roundStart).leaveProbeRtt.core.Ramped ↔ b.model.fullBwReached = true :=
        ⟨fun hr => hr rfl, fun hfull _ => hfull⟩
      rw [hiff]
      constructor
      · intro hfull hbad
        cases hfull.symm.trans hbad.2.2
      · intro hnot
        by_contra hfull
        exact hnot ⟨hmode, hdone, eq_false_of_not_eq_true hfull⟩
    · exact iff_of_true (hstays rfl) (fun hbad => hdone hbad.2.1)
  · rw [if_neg hmode]
    refine iff_of_true ?_ (fun hbad => hmode hbad.1)
    split_ifs
    · exact fun hr => absurd hr false_ne_true
    · exact h

/-- One event: the gate expires and observes, the sizes stay, and the sender leaves the ramp too
early exactly if it ends an early measurement of the round-trip time. -/
theorem onAckEvent_spec {b b' : Bbr3Sender} {r : RttStats} {e : AckEvent}
    (h : b.onAckEvent c (some r) e = some b') :
    ∃ b₀ : Bbr3Sender, b' = b₀.recalc c (some r) ∧ b₀.core.sizes = b.core.sizes ∧
      (∃ delivered base, b₀.gate = (b.gate.expireHint c.gateConfig e.now).observeHint c.gateConfig
        e.now delivered e.lostBytes r.rttSample base) ∧
      (b.core.Ramped → (b₀.core.Ramped ↔ ¬ b.core.ExitsEarly e.now (b.model.startsRound e.maxPn))) := by
  obtain ⟨⟨roundStart, minRttExpired, b₁⟩, hfold, hsome⟩ := bind_eq_some_iff.mp h
  obtain ⟨hcore, hstart, delivered, base, hgate⟩ := foldEvent_spec c hfold
  rw [core_expireHint] at hcore
  rw [gate_expireHint] at hgate
  rw [model_expireHint] at hstart
  have hstep := b₁.core_updateMode c roundStart e.lostBytes
  rw [← core_closeRound c (b₁.updateMode c roundStart e.lostBytes) roundStart] at hstep
  have hgate₂ : ((b₁.updateMode c roundStart e.lostBytes).closeRound c roundStart).gate = b₁.gate := by
    simp
  simp only [some.injEq] at hsome
  generalize (b₁.updateMode c roundStart e.lostBytes).closeRound c roundStart = b₂ at hstep hgate₂ hsome
  rw [hcore] at hstep
  refine ⟨_, hsome.symm, ?_, ⟨delivered, base, ?_⟩, fun hramped => ?_⟩
  · rw [← hstep.sizes]
    unfold maybeProbeRtt timeProbeRtt
    dsimp only
    split_ifs <;> rfl
  · rw [gate_maybeProbeRtt, hgate₂, hgate]
  · rw [ramped_maybeProbeRtt _ _ _ _ _ (hstep.ramped hramped)]
    by_cases hmode : b.mode = .probeRTT
    · rw [hstep.probeRtt hmode, hstart]
    · apply not_congr
      have hother : b₂.mode ≠ .probeRTT := hstep.other hmode
      exact iff_of_false (fun hbad => hother hbad.1) (fun hbad => hmode hbad.1)

end Bbr3Sender

theorem le_scaled {g : ℚ} (h : 1 ≤ g) (n : ℕ) : n ≤ (scaled g n).toNat := by
  have hle : (n : ℤ) ≤ scaled g n := by
    apply Rat.le_floor_iff.mpr
    exact le_mul_of_one_le_left (Rat.intCast_nonneg.mpr (natCast_nonneg n)) h
  omega

theorem scaled_le {g : ℚ} (h : 0 ≤ g) (n : ℕ) : ((scaled g n).toNat : ℚ) ≤ g * n := by
  have hnonneg : 0 ≤ scaled g n := by
    apply Rat.le_floor_iff.mpr
    exact mul_nonneg h (Rat.intCast_nonneg.mpr (natCast_nonneg n))
  have hcast : ((scaled g n).toNat : ℚ) = (scaled g n : ℤ) := by
    rw [← cast_natCast, toNat_of_nonneg hnonneg]
  rw [hcast]
  exact Rat.le_floor_iff.mp (le_refl (scaled g n))

variable (c : Setup)

/-- A size of datagrams with the bounds on the window that belong to it. -/
def Setup.Sized (sizes : ByteCount × ByteCount × ByteCount) : Prop :=
  0 < sizes.1 ∧ sizes.2.1 = c.params.minCwndPackets * sizes.1 ∧
    sizes.2.2 = c.quic.maxCongestionWindowPackets * sizes.1

theorem Setup.limits : 2 ≤ c.params.minCwndPackets ∧ c.params.minCwndPackets ≤ 10000 := by
  have h := (Params.checks_of_validate c.valid).1
  simp only [Params.badLimits, or_eq_false_iff, decide_eq_false_iff_not] at h
  omega

theorem Setup.minPacingRate_pos : 0 < c.params.minPacingRate := by
  have h := (Params.checks_of_validate c.valid).2.2
  simp only [Params.badTiming, or_eq_false_iff, beq_eq_false_iff_ne] at h
  omega

theorem Setup.one_le_overshoot : 1 ≤ c.params.hintProbeOvershoot := by
  have h := (Params.checks_of_validate c.valid).2.1
  simp only [Params.badGains, or_eq_false_iff, decide_eq_false_iff_not] at h
  exact Rat.not_lt.mp h.1.1.2

theorem Setup.Sized.le {c : Setup} {sizes : ByteCount × ByteCount × ByteCount}
    (h : c.Sized sizes) (hquic : 10000 ≤ c.quic.maxCongestionWindowPackets) :
    sizes.2.1 ≤ sizes.2.2 := by
  rw [h.2.1, h.2.2]
  apply Int.mul_le_mul_of_nonneg_right _ (Int.le_of_lt h.1)
  have := c.limits
  omega

namespace Bbr3Sender

variable {c} {b : Bbr3Sender} (hquic : 10000 ≤ c.quic.maxCongestionWindowPackets)

theorem hintCeiling_pos (h : 0 < c.hint) : 0 < b.hintCeiling c := by
  unfold hintCeiling
  split_ifs
  · exact Nat.lt_of_lt_of_le h (le_scaled c.one_le_overshoot c.hint)
  · exact h

theorem probeCeiling_pos {l : GateLog} (hgate : Logged c.gateConfig b.gate l)
    (hprobing : b.gate.state = .probing) : 0 < b.probeCeiling c := by
  obtain ⟨hactive, -, hrecent⟩ := hgate.probing hprobing
  have hhint : c.hint ≠ 0 := by
    simp only [GateConfig.active, and_eq_true, bne_iff_ne] at hactive
    exact hactive.2
  have hle : 3 * c.hint ≤ 4 * b.gate.recent := hrecent
  unfold probeCeiling
  omega

theorem nextPacingRate_bounds {l : GateLog} (hgate : Logged c.gateConfig b.gate l) (est : ℕ) :
    0 < b.nextPacingRate c est ∧ (0 < c.hint → b.nextPacingRate c est ≤ b.hintCeiling c) ∧
      (b.gate.state = .probing → b.nextPacingRate c est ≤ b.probeCeiling c) := by
  unfold nextPacingRate
  dsimp only
  generalize hrate : max (scaled (c.params.pacingGain b.mode) est).toNat c.params.minPacingRate = rate
  have hpos : 0 < rate := by
    rw [← hrate]
    exact Nat.lt_of_lt_of_le c.minPacingRate_pos (Nat.le_max_right _ _)
  have hcapped : 0 < (if 0 < c.hint then min rate (b.hintCeiling c) else rate) ∧
      (0 < c.hint → (if 0 < c.hint then min rate (b.hintCeiling c) else rate) ≤ b.hintCeiling c) := by
    split_ifs with hhint
    · exact ⟨Nat.lt_min.mpr ⟨hpos, hintCeiling_pos hhint⟩, fun _ => Nat.min_le_right _ _⟩
    · exact ⟨hpos, fun h => absurd h hhint⟩
  generalize (if 0 < c.hint then min rate (b.hintCeiling c) else rate) = capped at hcapped ⊢
  by_cases hprobing : b.gate.state = .probing
  · have henabled : c.params.enableValidatedHint = true := by
      have := (hgate.probing hprobing).1
      simp only [GateConfig.active, and_eq_true] at this
      exact this.1
    rw [if_pos ⟨henabled, hprobing⟩]
    exact ⟨Nat.lt_min.mpr ⟨hcapped.1, probeCeiling_pos hgate hprobing⟩,
      fun h => Nat.le_trans (Nat.min_le_left _ _) (hcapped.2 h), fun _ => Nat.min_le_right _ _⟩
  · rw [if_neg (fun h => hprobing h.2)]
    exact ⟨hcapped.1, hcapped.2, fun h => absurd h hprobing⟩

theorem nextCwnd_bounds (h : b.model.minCwnd ≤ b.maxCwnd) (rtt : Option RttStats) (est rate : ℕ) :
    b.model.minCwnd ≤ b.nextCwnd c rtt est rate ∧ b.nextCwnd c rtt est rate ≤ b.maxCwnd := by
  unfold nextCwnd
  dsimp only
  generalize (if b.mode = .startup then _ else _ : ByteCount) = cwnd
  have hclamped : b.model.minCwnd ≤ min (max cwnd b.model.minCwnd) b.maxCwnd :=
    Int.le_min.mpr ⟨Int.le_max_right _ _, h⟩
  have hbudget : b.model.minCwnd ≤ b.accessBudget c rtt := le_max_right _ _
  split_ifs
  · exact ⟨Int.le_min.mpr ⟨hclamped, hbudget⟩, le_trans (min_le_left _ _) (min_le_right _ _)⟩
  · exact ⟨hclamped, min_le_right _ _⟩

/-- The window is between its bounds, and the rate is positive and within the hint: a probe that is
not strictly capped exceeds it by the overshoot at most, and one of the gate's own stays within a
tenth above the last observed rate. -/
structure Bounded (c : Setup) (b : Bbr3Sender) : Prop where
  window : b.model.minCwnd ≤ b.cwnd ∧ b.cwnd ≤ b.maxCwnd
  rate_pos : 0 < b.pacingRate
  hint : 0 < c.hint → ¬ (b.mode = .probeBWUp ∧ c.params.strictHintCap = false) →
    b.pacingRate ≤ c.hint
  overshoot : 0 < c.hint → (b.pacingRate : ℚ) ≤ c.params.hintProbeOvershoot * c.hint
  probing : b.gate.state = .probing →
    b.pacingRate ≤ c.hint ∧ 10 * b.pacingRate ≤ 11 * b.gate.recent

structure Sound (c : Setup) (b : Bbr3Sender) : Prop where
  sized : c.Sized b.core.sizes
  gate : ∃ l, Logged c.gateConfig b.gate l
  bounded : b.Bounded c

theorem hintCeiling_eq (h : ¬ (b.mode = .probeBWUp ∧ c.params.strictHintCap = false)) :
    b.hintCeiling c = c.hint := by
  unfold hintCeiling exceedsHint
  apply if_neg
  simp only [and_eq_true, not_eq_true', beq_iff_eq]
  exact fun hboth => h ⟨hboth.2, hboth.1⟩

theorem hintCeiling_le : (b.hintCeiling c : ℚ) ≤ c.params.hintProbeOvershoot * c.hint := by
  have hone := c.one_le_overshoot
  unfold hintCeiling
  split_ifs
  · exact scaled_le (le_trans zero_le_one hone) c.hint
  · exact le_mul_of_one_le_left (Rat.natCast_nonneg) hone

include hquic in
theorem recalc_sound (hsized : c.Sized b.core.sizes) (hgate : ∃ l, Logged c.gateConfig b.gate l)
    (rtt : Option RttStats) : Sound c (b.recalc c rtt) := by
  obtain ⟨l, hl⟩ := hgate
  obtain ⟨hpos, hhint, hprobing⟩ := nextPacingRate_bounds hl (b.steadyEstimate c)
  refine ⟨hsized, ⟨l, hl⟩, ?_, hpos, fun h hnot => ?_, fun h => ?_, fun h => ?_⟩
  · exact nextCwnd_bounds (hsized.le hquic) rtt _ _
  · rw [← hintCeiling_eq hnot]
    exact hhint h
  · exact le_trans (Rat.natCast_le_natCast.mpr (hhint h)) hintCeiling_le
  · have hle := hprobing h
    change b.nextPacingRate c _ ≤ c.hint ∧ 10 * b.nextPacingRate c _ ≤ 11 * b.gate.recent
    unfold probeCeiling at hle
    omega

variable {b' : Bbr3Sender}

theorem Sound.congr (h : Sound c b) (hcore : b'.core = b.core)
    (hgate : b'.gate = b.gate) (hrates : b'.pacingRate = b.pacingRate ∧ b'.cwnd = b.cwnd) :
    Sound c b' := by
  have hmode : b'.mode = b.mode := congrArg SenderCore.mode hcore
  have hmin : b'.model.minCwnd = b.model.minCwnd := congrArg (·.model.minCwnd) hcore
  have hmax : b'.maxCwnd = b.maxCwnd := congrArg SenderCore.maxCwnd hcore
  obtain ⟨hsized, hlogged, hwindow, hpos, hhint, hover, hprobing⟩ := h
  refine ⟨by rwa [hcore], by rwa [hgate], ?_⟩
  exact ⟨by rwa [hmin, hmax, hrates.2], by rwa [hrates.1], by rwa [hmode, hrates.1],
    by rwa [hrates.1], by rwa [hgate, hrates.1]⟩

include hquic

theorem act_sound (h : Sound c b) (rtt : Option RttStats) (a : GateAction) :
    Sound c ((b.setGate (b.gate.act c.gateConfig a)).recalc c rtt) := by
  obtain ⟨l, hl⟩ := h.gate
  apply recalc_sound hquic
  · simpa using h.sized
  · exact ⟨_, hl.act a⟩

theorem expireHint_sound (h : Sound c b) (rtt : Option RttStats) (now : ℕ) : Sound c (b.expireHint c rtt now) := by
  unfold expireHint
  split_ifs
  · exact act_sound hquic h rtt (.revoke now .expiry)
  · exact h

variable {rtt : Option RttStats} {bytesInFlight : ByteCount} {isRetransmittable : Bool} {bytes : ByteCount} {pn : Int64}

omit hquic in
theorem onPacketSent_spec {sentTime : Time}
    (hsent : b.onPacketSent c rtt sentTime bytesInFlight pn bytes isRetransmittable = some b') :
    ∃ b₁, (b₁ = b ∨ b₁ = b.expireHint c rtt sentTime) ∧ b'.core = b₁.core ∧ b'.gate = b₁.gate ∧
      b'.pacingRate = b₁.pacingRate ∧ b'.cwnd = b₁.cwnd := by
  unfold onPacketSent at hsent
  split_ifs at hsent
  · obtain ⟨ref, -, hsome⟩ := bind_eq_some_iff.mp hsent
    cases hsome
    exact ⟨b, .inl rfl, rfl, rfl, rfl, rfl⟩
  · obtain ⟨m, hm, hsome⟩ := bind_eq_some_iff.mp hsent
    cases hsome
    have hcore : m.core = (b.expireHint c rtt sentTime).model.core :=
      (Model.core_onPacketSent hm).trans (Model.core_setBytesInFlight _ _)
    refine ⟨_, .inr rfl, ?_, rfl, rfl, rfl⟩
    rw [core_setPacer, core_setModel _ hcore]

omit hquic in
theorem core_onPacketSent {sentTime : Time}
    (hsent : b.onPacketSent c rtt sentTime bytesInFlight pn bytes isRetransmittable = some b') :
    b'.core = b.core := by
  obtain ⟨b₁, hb₁, hcore, -⟩ := onPacketSent_spec hsent
  rw [hcore]
  rcases hb₁ with rfl | rfl
  · rfl
  · exact core_expireHint c rtt b sentTime

theorem onCongestionEventEx_sound (h : Sound c b) {now : ℕ} {e : AckEvent} (hnow : e.now = now)
    (hevent : b.onCongestionEventEx c rtt e = some b') :
    Sound c b' ∧ b'.core.sizes = b.core.sizes := by
  unfold onCongestionEventEx at hevent
  split_ifs at hevent
  · cases hevent
    exact ⟨h, rfl⟩
  · cases rtt with
    | none =>
      cases hevent
      exact ⟨h, rfl⟩
    | some r =>
      obtain ⟨b₀, rfl, hsizes, ⟨delivered, base, hgate⟩, -⟩ := onAckEvent_spec c hevent
      refine ⟨recalc_sound hquic ?_ ?_ _, ?_⟩
      · rw [hsizes]
        exact h.sized
      · rw [hgate, hnow]
        exact exists_logged_handle h.gate (.ack now delivered e.lostBytes r.rttSample base)
      · rw [core_recalc, hsizes]

theorem setMaxDatagramSize_sound (h : Sound c b) {s : ByteCount} (hs : 0 < s)
    (hgrow : b.model.maxDatagramSize ≤ s) :
    Sound c (b.setMaxDatagramSize c s) ∧ (b.setMaxDatagramSize c s).model.maxDatagramSize = s := by
  have hnot : ¬ s ≤ 0 := not_le.mpr hs
  have hmodel : b.model.setMaxDatagramSize c.params s =
      { b.model with
        maxDatagramSize := s
        minCwnd := c.params.minCwndPackets * s
        initialCwnd := c.params.initialCwndPackets * s } := if_neg hnot
  have hsized : c.Sized (s, c.params.minCwndPackets * s, c.quic.maxCongestionWindowPackets * s) :=
    ⟨hs, rfl, rfl⟩
  have hwindow : b.cwnd ≤ c.quic.maxCongestionWindowPackets * s := by
    apply le_trans h.bounded.window.2
    rw [show b.maxCwnd = c.quic.maxCongestionWindowPackets * b.model.maxDatagramSize from
      h.sized.2.2]
    exact Int.mul_le_mul_of_nonneg_left hgrow (Int.natCast_nonneg _)
  unfold setMaxDatagramSize
  rw [if_neg hnot, hmodel]
  refine ⟨⟨hsized, h.gate, ?_, h.bounded.rate_pos, h.bounded.hint, h.bounded.overshoot,
    h.bounded.probing⟩, rfl⟩
  exact ⟨Int.le_max_right _ _, Int.max_le.mpr ⟨hwindow, hsized.le hquic⟩⟩

theorem new_sound (hinit : 0 < c.quic.initialPacketSize) (size : ByteCount) :
    Sound c (newBbr3SenderWithParams c size) := by
  apply recalc_sound hquic
  · refine ⟨?_, rfl, rfl⟩
    change (0 : ℤ) < if size ≤ 0 then (c.quic.initialPacketSize : ℤ) else size
    split_ifs with hsize
    · exact natCast_pos.mpr hinit
    · exact not_le.mp hsize
  · exact ⟨_, logged_new _⟩

/-- The calls that a sender gets. Each but the first reads the provider of round-trip times, if
there is one. -/
inductive Event where
  | setMaxDatagramSize (s : ByteCount)
  | packetSent (rtt : Option RttStats) (sentTime : ℕ) (bytesInFlight : ByteCount)
      (packetNumber : Int64) (bytes : ByteCount) (isRetransmittable : Bool)
  | pacingBudget (rtt : Option RttStats) (now : ℕ)
  | congestion (rtt : Option RttStats) (now : ℕ) (lostBytes : ByteCount)
  | congestionEx (rtt : Option RttStats) (priorInFlight : ByteCount) (now : ℕ)
      (acked : List AckedPacketInfo) (lost : List LostPacketInfo)

def step (c : Setup) (b : Bbr3Sender) : Event → Option Bbr3Sender
  | .setMaxDatagramSize s => some (b.setMaxDatagramSize c s)
  | .packetSent rtt sentTime bytesInFlight packetNumber bytes isRetransmittable =>
    b.onPacketSent c rtt sentTime bytesInFlight packetNumber bytes isRetransmittable
  | .pacingBudget rtt now => some (b.hasPacingBudget c rtt now).2
  | .congestion rtt now lostBytes => some (b.onCongestionEvent c rtt now lostBytes)
  | .congestionEx rtt priorInFlight now acked lost =>
    b.onCongestionEventEx c rtt ⟨priorInFlight, now, acked, lost⟩

def run (c : Setup) (maxDatagramSize : ByteCount) (events : List Event) : Option Bbr3Sender :=
  events.foldlM (step c) (newBbr3SenderWithParams c maxDatagramSize)

def Event.resize (size : ByteCount) : Event → ByteCount
  | .setMaxDatagramSize s => if s ≤ 0 then size else s
  | _ => size

def SizesGrow : ByteCount → List Event → Prop
  | _, [] => True
  | size, e :: events => size ≤ e.resize size ∧ SizesGrow (e.resize size) events

theorem step_sound (h : Sound c b) {e : Event}
    (hgrow : b.model.maxDatagramSize ≤ e.resize b.model.maxDatagramSize)
    (hstep : b.step c e = some b') :
    Sound c b' ∧ b'.model.maxDatagramSize = e.resize b.model.maxDatagramSize := by
  cases e with
  | setMaxDatagramSize s =>
    cases hstep
    by_cases hs : s ≤ 0
    · rw [Event.resize, if_pos hs, setMaxDatagramSize, if_pos hs]
      exact ⟨h, rfl⟩
    · rw [Event.resize, if_neg hs] at hgrow ⊢
      exact setMaxDatagramSize_sound hquic h (not_le.mp hs) hgrow
  | packetSent rtt sentTime bytesInFlight pn bytes isRetransmittable =>
    obtain ⟨b₁, hb₁, hcore, hgate, hrates⟩ := onPacketSent_spec hstep
    have hsound : Sound c b₁ := by
      rcases hb₁ with rfl | rfl
      · exact h
      · exact expireHint_sound hquic h rtt _
    exact ⟨hsound.congr hcore hgate hrates,
      congrArg (·.model.maxDatagramSize) (core_onPacketSent hstep)⟩
  | pacingBudget rtt now =>
    cases hstep
    exact ⟨expireHint_sound hquic h rtt now,
      congrArg Model.maxDatagramSize (model_expireHint c rtt b now)⟩
  | congestion rtt now lostBytes =>
    cases hstep
    exact ⟨act_sound hquic h rtt (.revoke now _), rfl⟩
  | congestionEx rtt priorInFlight now acked lost =>
    obtain ⟨hsound, hsizes⟩ := onCongestionEventEx_sound hquic h rfl hstep
    exact ⟨hsound, congrArg Prod.fst hsizes⟩

theorem run_sound (events : List Event) (h : Sound c b) (hgrow : SizesGrow b.model.maxDatagramSize events)
    (hrun : events.foldlM (step c) b = some b') : Sound c b' := by
  induction events generalizing b with
  | nil =>
    cases hrun
    exact h
  | cons e events ih =>
    obtain ⟨b₁, hstep, hrest⟩ := bind_eq_some_iff.mp hrun
    obtain ⟨hsound, hsize⟩ := step_sound hquic h hgrow.1 hstep
    apply ih hsound _ hrest
    rw [hsize]
    exact hgrow.2

omit hquic

/-- In every run in which the sizes of datagrams do not shrink, the window stays between its bounds
and the rate within the hint. -/
theorem window_and_rate_bounded (c : Setup) (hinit : 0 < c.quic.initialPacketSize)
    (hquic : 10000 ≤ c.quic.maxCongestionWindowPackets) (size : ByteCount) (events : List Event)
    (hgrow : SizesGrow (newBbr3SenderWithParams c size).model.maxDatagramSize events)
    {b : Bbr3Sender} (hrun : run c size events = some b) : b.Bounded c :=
  (run_sound hquic events (new_sound hquic hinit size) hgrow hrun).bounded

def sampleSetup : Setup where
  quic := ⟨1280, 1200, 1452, 20000, 4, 1000000⟩
  params := { defaultParams with enableValidatedHint := true }
  hint := 1000000
  valid := by decide +kernel
  hint_le := by decide

def sampleEvents : List Event :=
  let rtt : Option RttStats := some ⟨100000000, 100000000⟩
  [.packetSent rtt 1000000000 1200 1 1200 true,
   .congestionEx rtt 1200 1100000000 [⟨1, 1200⟩] [],
   .setMaxDatagramSize 1400,
   .packetSent rtt 12000000000 1200 2 1200 true,
   .congestionEx rtt 1200 12100000000 [⟨2, 1200⟩] [],
   .packetSent rtt 12200000000 1200 3 1200 true,
   .congestionEx rtt 1200 12300000000 [⟨3, 1200⟩] [],
   .packetSent rtt 12600000000 1200 4 1200 true,
   .congestionEx rtt 1200 12700000000 [⟨4, 1200⟩] []]

theorem window_and_rate_bounded_sample :
    ∃ b, run sampleSetup 1200 sampleEvents = some b ∧ b.Bounded sampleSetup := by
  have hsome : (run sampleSetup 1200 sampleEvents).isSome = true := by decide +kernel
  obtain ⟨b, hrun⟩ := isSome_iff_exists.mp hsome
  have hgrow : SizesGrow 1200 sampleEvents := by simp [sampleEvents, SizesGrow, Event.resize]
  exact ⟨b, hrun, window_and_rate_bounded sampleSetup (by decide) (by decide) 1200 sampleEvents
    hgrow hrun⟩

/-- The event ends a measurement of the round-trip time before the full-bandwidth test has
succeeded. -/
def Event.CutsRamp (b : Bbr3Sender) : Event → Prop
  | .congestionEx (some _) priorInFlight now acked lost => (acked ≠ [] ∨ lost ≠ []) ∧
    b.core.ExitsEarly now (b.model.startsRound (AckEvent.maxPn ⟨priorInFlight, now, acked, lost⟩))
  | _ => False

/-- A call cuts the ramp exactly if it ends an early measurement of the round-trip time. -/
theorem step_ramped (h : b.core.Ramped) {e : Event}
    (hstep : b.step c e = some b') : b'.core.Ramped ↔ ¬ e.CutsRamp b := by
  cases e with
  | setMaxDatagramSize s =>
    cases hstep
    refine iff_of_true ?_ not_false
    unfold setMaxDatagramSize Model.setMaxDatagramSize
    split_ifs <;> exact h
  | packetSent rtt sentTime bytesInFlight pn bytes isRetransmittable =>
    rw [core_onPacketSent hstep]
    exact iff_of_true h not_false
  | pacingBudget rtt now =>
    cases hstep
    change (b.expireHint c rtt now).core.Ramped ↔ _
    rw [core_expireHint]
    exact iff_of_true h not_false
  | congestion rtt now lostBytes =>
    cases hstep
    exact iff_of_true h not_false
  | congestionEx rtt priorInFlight now acked lost =>
    dsimp only [step, onCongestionEventEx] at hstep
    split_ifs at hstep with hempty
    · cases hstep
      simp only [and_eq_true, List.isEmpty_iff] at hempty
      refine iff_of_true h (fun hcuts => ?_)
      cases rtt with
      | none => exact hcuts
      | some r => exact hcuts.1.elim (fun hne => hne hempty.1) (fun hne => hne hempty.2)
    · simp only [and_eq_true, List.isEmpty_iff, not_and_or] at hempty
      cases rtt with
      | none =>
        cases hstep
        exact iff_of_true h not_false
      | some r =>
        obtain ⟨b₀, rfl, -, -, hiff⟩ := onAckEvent_spec c hstep
        rw [core_recalc, hiff h]
        exact not_congr ⟨fun hexits => ⟨hempty, hexits⟩, fun hcuts => hcuts.2⟩

theorem run_append (size : ByteCount) (events : List Event) (e : Event) :
    run c size (events ++ [e]) = (run c size events).bind (step c · e) := by
  simp [run, foldlM_append]

/-- The sender is past the startup ramp only after the full-bandwidth test has succeeded, in all
states of a run, exactly if no event of the run ends a measurement of the round-trip time before
that. -/
theorem ramp_kept_iff (c : Setup) (size : ByteCount) (events : List Event) :
    (∀ before after b, events = before ++ after → run c size before = some b → b.core.Ramped) ↔
      ∀ before e after b b', events = before ++ e :: after → run c size before = some b →
        b.step c e = some b' → ¬ e.CutsRamp b := by
  constructor
  · intro hramped before e after b b' hevents hrun hstep
    rw [← step_ramped (hramped before (e :: after) b hevents hrun) hstep]
    apply hramped (before ++ [e]) after b'
    · simp [hevents]
    · rwa [run_append, hrun]
  · intro hkept before
    induction before using reverseRecOn with
    | nil =>
      intro after b _ hrun
      cases hrun
      exact fun h => absurd h false_ne_true
    | append_singleton before e ih =>
      intro after b' hevents hrun
      rw [run_append] at hrun
      obtain ⟨b, hbefore, hstep⟩ := bind_eq_some_iff.mp hrun
      rw [append_assoc, singleton_append] at hevents
      exact (step_ramped (ih (e :: after) b hevents hbefore) hstep).mpr
        (hkept before e after b b' hevents hbefore hstep)

/-- The measurement that follows ten seconds of a ramp ends it. -/
theorem ramp_cut_by_probe_rtt :
    ∃ b, run sampleSetup 1200 sampleEvents = some b ∧ b.mode = .probeBWDown ∧
      b.model.fullBwReached = false := by
  have hmap : (run sampleSetup 1200 sampleEvents).map (fun b => (b.mode, b.model.fullBwReached)) =
      some (.probeBWDown, false) := by decide +kernel
  obtain ⟨b, hrun, hb⟩ := map_eq_some_iff.mp hmap
  exact ⟨b, hrun, congrArg Prod.fst hb, congrArg Prod.snd hb⟩

end Bbr3Sender

end Outbound.Bbr3
