import Outbound.Bbr.Accounting
import Outbound.Bbr.Sender

/-! What the BBR sender keeps over whole runs: its window stays between the minimum and the
maximum, and its modes follow the full-bandwidth flag. -/
namespace Outbound.Bbr

open BbrSender Option

structure Core where
  congestionWindow : ByteCount
  minCongestionWindow : ByteCount
  maxCongestionWindow : ByteCount
  recoveryState : BbrRecoveryState
  recoveryWindow : ByteCount
  mode : BbrMode
  isAtFullBandwidth : Bool
  exitProbeRttAt : Time
  probeRttRoundPassed : Bool
deriving DecidableEq

namespace Core

variable (c : Core) (now : Time)

/-- DRAIN and PROBE_BW come after the full bandwidth was reached, STARTUP before. -/
structure Phased : Prop where
  later : c.mode = .drain ∨ c.mode = .probeBw → c.isAtFullBandwidth = true
  startup : c.mode = .startup → c.isAtFullBandwidth = false

/-- The window is within its bounds, and so is from below the one of the recovery. -/
structure Bounded : Prop where
  lower : c.minCongestionWindow ≤ c.congestionWindow
  upper : c.congestionWindow ≤ c.maxCongestionWindow
  recovery : c.recoveryState ≠ .notInRecovery → c.minCongestionWindow ≤ c.recoveryWindow

def ExitDue (isRoundStart : Bool) : Prop :=
  c.mode = .probeRtt ∧ Time.isZero c.exitProbeRttAt = false ∧ 0 ≤ Time.sub now c.exitProbeRttAt ∧
    (c.probeRttRoundPassed || isRoundStart) = true

instance (isRoundStart : Bool) : Decidable (c.ExitDue now isRoundStart) :=
  inferInstanceAs (Decidable (_ ∧ _))

def resumed : BbrMode := if c.isAtFullBandwidth then .probeBw else .startup

/-- What an event at time `now` does to the core of a sender. -/
structure Moves (c' : Core) (now : Time) (isRoundStart : Bool) : Prop where
  minCongestionWindow : c'.minCongestionWindow = c.minCongestionWindow
  maxCongestionWindow : c'.maxCongestionWindow = c.maxCongestionWindow
  congestionWindow : c'.congestionWindow = c.congestionWindow ∨ ∃ w,
    c'.congestionWindow = min (max w c.minCongestionWindow) c.maxCongestionWindow
  recoveryWindow : c'.recoveryState ≠ .notInRecovery → c.minCongestionWindow ≤ c'.recoveryWindow
  recoveryState : c'.recoveryState ≠ .notInRecovery →
    c.recoveryState ≠ .notInRecovery ∨ c.isAtFullBandwidth = true
  flag : c.isAtFullBandwidth = true → c'.isAtFullBandwidth = true
  phased : c.Phased → c'.Phased
  exit : c.Phased → c.ExitDue now isRoundStart → c'.mode = c'.resumed

theorem Bounded.moves {c c' : Core} {now : Time} {isRoundStart : Bool} (h : c.Bounded)
    (hmoves : Moves c c' now isRoundStart) : c'.Bounded := by
  have hlower := h.lower
  have hupper := h.upper
  refine ⟨?_, ?_, ?_⟩
  · rw [hmoves.minCongestionWindow]
    rcases hmoves.congestionWindow with hw | ⟨w, hw⟩
    · rwa [hw]
    · rw [hw]
      exact le_min (le_max_right _ _) (hlower.trans hupper)
  · rw [hmoves.maxCongestionWindow]
    rcases hmoves.congestionWindow with hw | ⟨w, hw⟩
    · rwa [hw]
    · rw [hw]
      exact min_le_right _ _
  · rw [hmoves.minCongestionWindow]
    exact hmoves.recoveryWindow

end Core

namespace BbrSender

def core (b : BbrSender) : Core :=
  { congestionWindow := b.congestionWindow
    minCongestionWindow := b.minCongestionWindow
    maxCongestionWindow := b.maxCongestionWindow
    recoveryState := b.recoveryState
    recoveryWindow := b.recoveryWindow
    mode := b.mode
    isAtFullBandwidth := b.isAtFullBandwidth
    exitProbeRttAt := b.exitProbeRttAt
    probeRttRoundPassed := b.probeRttRoundPassed }

section Stages

variable (scale : Scale) (quic : QuicConfig) (b : BbrSender) (minRTT : Duration)
  (bytesAcked : ByteCount) (now : Time) (n : ByteCount) (draw : ℕ) (e : CongestionEvent)
  (bytesLost excessAcked : ByteCount)

@[simp] theorem core_maybeApplimited : (b.maybeApplimited n).core = b.core := by
  unfold maybeApplimited
  dsimp only
  split_ifs <;> rfl

@[simp] theorem core_takeSample (sample : CongestionEventSample) (n : ByteCount) :
    (b.takeSample sample n).core = b.core := by
  unfold takeSample
  dsimp only
  split_ifs <;> rfl

@[simp] theorem core_updateMinRtt (rtt : Duration) : (b.updateMinRtt now rtt).2.core = b.core := by
  unfold updateMinRtt maybeUpdateMinRtt
  dsimp only
  split_ifs <;> rfl

@[simp] theorem core_countLosses (hasLosses : Bool) (n : ByteCount) :
    (b.countLosses hasLosses n).core = b.core := by
  unfold countLosses
  split_ifs <;> rfl

@[simp] theorem core_updateGainCyclePhase
    (hasLosses : Bool) : (b.updateGainCyclePhase scale minRTT now n hasLosses).core = b.core := by
  unfold updateGainCyclePhase
  split_ifs <;> rfl

theorem core_raisePacingRate (targetRate : Bandwidth) :
    (b.raisePacingRate targetRate).core = b.core := rfl

@[simp] theorem core_calculatePacingRate :
    (b.calculatePacingRate scale minRTT n).core = b.core := by
  unfold calculatePacingRate
  split_ifs
  · rfl
  · simp only [core]
  · simp only [core]
  · unfold slowWhenOvershooting
    dsimp only
    split_ifs <;> rfl
  · exact core_raisePacingRate _ _

@[simp] theorem core_setSampler (sampler : BandwidthSampler) :
    (b.setSampler sampler).core = b.core := rfl

@[simp] theorem core_endRound (isRoundStart : Bool) : (b.endRound isRoundStart).core = b.core := by
  unfold endRound
  split_ifs <;> rfl

theorem core_updateRecoveryState (pn : Int64) (hasLosses isRoundStart : Bool) :
    ∃ state window, (b.updateRecoveryState pn hasLosses isRoundStart).core =
        { b.core with recoveryState := state, recoveryWindow := window } ∧
      (state ≠ .notInRecovery →
        b.core.recoveryState ≠ .notInRecovery ∨ b.core.isAtFullBandwidth = true) := by
  unfold updateRecoveryState
  cases hflag : b.isAtFullBandwidth with
  | false => exact ⟨b.recoveryState, b.recoveryWindow, rfl, fun h => .inl h⟩
  | true =>
    cases hasLosses <;> cases hstate : b.recoveryState <;> dsimp only <;> split_ifs <;>
      exact ⟨_, _, by simp only [core, hstate, hflag]; rfl, fun _ => .inr hflag⟩

def isRoundStart : Bool :=
  match e.ackedPackets.getLast? with
  | none => false
  | some p => b.startsRound p.packetNumber

theorem core_updateRound (acked : List AckedPacketInfo) (hasLosses : Bool) :
    ∃ state window, (b.updateRound acked hasLosses).2.core =
        { b.core with recoveryState := state, recoveryWindow := window } ∧
      (state ≠ .notInRecovery →
        b.core.recoveryState ≠ .notInRecovery ∨ b.core.isAtFullBandwidth = true) := by
  unfold updateRound updateRoundTripCounter
  cases acked.getLast? with
  | none => exact ⟨b.recoveryState, b.recoveryWindow, rfl, fun h => .inl h⟩
  | some p =>
    dsimp only
    split_ifs
    · exact core_updateRecoveryState
        { b with roundTripCount := b.roundTripCount + 1, currentRoundTripEnd := b.lastSentPacket } _ _ _
    · exact b.core_updateRecoveryState _ _ _

theorem core_beginEvent :
    ∃ state window, (b.beginEvent e).2.core =
        { b.core with recoveryState := state, recoveryWindow := window } ∧
      (state ≠ .notInRecovery →
        b.core.recoveryState ≠ .notInRecovery ∨ b.core.isAtFullBandwidth = true) := by
  have hcore : ((b.maybeApplimited e.priorInFlight).setBytesInFlight e.bytesInFlight).core =
      b.core := b.core_maybeApplimited e.priorInFlight
  obtain ⟨state, window, heq, hrecovery⟩ := core_updateRound
    ((b.maybeApplimited e.priorInFlight).setBytesInFlight e.bytesInFlight) e.ackedPackets
    e.hasLosses
  rw [hcore] at heq hrecovery
  exact ⟨state, window, heq, hrecovery⟩

theorem core_checkIfFullBandwidthReached (state : SendTimeState) :
    ∃ flag, (b.checkIfFullBandwidthReached scale state).core =
        { b.core with isAtFullBandwidth := flag } ∧
      (b.core.isAtFullBandwidth = true → flag = true) := by
  unfold checkIfFullBandwidthReached
  dsimp only
  split_ifs
  · exact ⟨b.isAtFullBandwidth, rfl, id⟩
  · exact ⟨b.isAtFullBandwidth, by simp only [core], id⟩
  · exact ⟨b.isAtFullBandwidth, by simp only [core], id⟩
  · refine ⟨_, by simp only [core]; rfl, ?_⟩
    intro hflag
    change b.isAtFullBandwidth = true at hflag
    simp [hflag]

theorem core_enterProbeBandwidthMode :
    (b.enterProbeBandwidthMode now draw).core = { b.core with mode := .probeBw } := by
  simp only [enterProbeBandwidthMode, core]

theorem core_maybeExitStartupOrDrain
    (hlater : b.core.mode = .drain ∨ b.core.mode = .probeBw → b.core.isAtFullBandwidth = true) :
    ∃ mode, (b.maybeExitStartupOrDrain scale minRTT now draw).core = { b.core with mode := mode } ∧
      (mode = .probeRtt ↔ b.core.mode = .probeRtt) ∧
      Core.Phased { b.core with mode := mode } := by
  unfold maybeExitStartupOrDrain
  dsimp only
  by_cases hs : b.mode = .startup ∧ b.isAtFullBandwidth = true
  · have hdrain : b.enterDrainMode.core = { b.core with mode := .drain } := rfl
    have hflag : b.core.isAtFullBandwidth = true := hs.2
    have hmode : b.core.mode = .startup := hs.1
    split_ifs
    · refine ⟨.probeBw, ?_, by simp [hmode], fun _ => hflag, by simp⟩
      rw [core_enterProbeBandwidthMode, hdrain]
    · exact ⟨.drain, hdrain, by simp [hmode], fun _ => hflag, by simp⟩
  · split_ifs with hd
    · have hmode : b.core.mode = .drain := hd.1
      refine ⟨.probeBw, core_enterProbeBandwidthMode b now draw, by simp [hmode], ?_, by simp⟩
      exact fun _ => hlater (.inl hmode)
    · refine ⟨b.mode, rfl, Iff.rfl, hlater, ?_⟩
      intro hmode
      rw [← Bool.not_eq_true]
      exact fun hflag => hs ⟨hmode, hflag⟩

theorem core_exitProbeRttMode :
    (b.exitProbeRttMode now draw).core = { b.core with mode := b.core.resumed } := by
  unfold exitProbeRttMode
  dsimp only
  split_ifs with hflag
  · have hresumed : b.core.resumed = .startup := by
      have : b.core.isAtFullBandwidth = false := by
        change b.isAtFullBandwidth = false
        simpa using hflag
      rw [Core.resumed, this, if_neg Bool.false_ne_true]
    rw [hresumed]
    rfl
  · have hresumed : b.core.resumed = .probeBw := by
      have : b.core.isAtFullBandwidth = true := by
        change b.isAtFullBandwidth = true
        simpa using hflag
      rw [Core.resumed, this, if_pos rfl]
    rw [hresumed, core_enterProbeBandwidthMode]
    rfl

theorem core_stayInProbeRtt (isRoundStart : Bool) (hmode : b.core.mode = .probeRtt) :
    ∃ mode exitAt passed, (b.stayInProbeRtt quic now draw isRoundStart).core =
        { b.core with mode := mode, exitProbeRttAt := exitAt, probeRttRoundPassed := passed } ∧
      (mode = .probeRtt ∨ mode = b.core.resumed) ∧
      (b.core.ExitDue now isRoundStart → mode = b.core.resumed) := by
  unfold stayInProbeRtt
  dsimp only
  split_ifs with hz
  · unfold scheduleProbeRttExit
    have hnot : ¬ b.core.ExitDue now isRoundStart := fun h => by
      have := h.2.1
      rw [show b.core.exitProbeRttAt = b.exitProbeRttAt from rfl, hz] at this
      cases this
    split_ifs
    · exact ⟨b.mode, _, _, by simp only [core]; rfl, .inl hmode, fun h => absurd h hnot⟩
    · exact ⟨b.mode, b.exitProbeRttAt, b.probeRttRoundPassed, by simp only [core], .inl hmode,
        fun h => absurd h hnot⟩
  · unfold tryProbeRttExit
    split_ifs with hexit
    · refine ⟨b.core.resumed, b.exitProbeRttAt, b.probeRttRoundPassed || isRoundStart, ?_, .inr rfl,
        fun _ => rfl⟩
      rw [core_exitProbeRttMode]
      rfl
    · refine ⟨b.mode, b.exitProbeRttAt, b.probeRttRoundPassed || isRoundStart, ?_, .inl hmode, ?_⟩
      · simp only [core, passProbeRttRound]
      · exact fun h => absurd ⟨h.2.2.1, h.2.2.2⟩ hexit

theorem core_maybeEnterOrExitProbeRtt (isRoundStart minRttExpired : Bool)
    (hphased : b.core.Phased) :
    ∃ mode exitAt passed,
      (b.maybeEnterOrExitProbeRtt quic now draw isRoundStart minRttExpired).core =
        { b.core with mode := mode, exitProbeRttAt := exitAt, probeRttRoundPassed := passed } ∧
      Core.Phased { b.core with mode := mode } ∧
      (b.core.ExitDue now isRoundStart → mode = b.core.resumed) := by
  have hresumed : ∀ mode, mode = .probeRtt ∨ mode = b.core.resumed →
      Core.Phased { b.core with mode := mode } := by
    rintro mode (rfl | rfl)
    · exact ⟨by simp, by simp⟩
    · unfold Core.resumed
      cases hflag : b.core.isAtFullBandwidth with
      | false => exact ⟨by simp, fun _ => hflag⟩
      | true => exact ⟨fun _ => hflag, by simp⟩
  unfold maybeEnterOrExitProbeRtt
  dsimp only
  split_ifs with henter hmode
  · obtain ⟨mode, exitAt, passed, hcore, hm, -⟩ :=
      core_stayInProbeRtt quic b.enterProbeRttMode now draw isRoundStart rfl
    refine ⟨mode, exitAt, passed, hcore, hresumed mode hm, fun h => absurd h.1 henter.2.2⟩
  · exact absurd rfl hmode
  · rename_i hmode
    obtain ⟨mode, exitAt, passed, hcore, hm, hexit⟩ :=
      core_stayInProbeRtt quic b now draw isRoundStart hmode
    exact ⟨mode, exitAt, passed, hcore, hresumed mode hm, hexit⟩
  · rename_i hmode
    exact ⟨b.mode, b.exitProbeRttAt, b.probeRttRoundPassed, rfl, hphased, fun h => absurd h.1 hmode⟩

theorem core_updateMode (isRoundStart minRttExpired : Bool)
    (state : SendTimeState) (hphased : b.core.Phased) :
    ∃ mode flag exitAt passed,
      (b.updateMode scale quic e isRoundStart minRttExpired state).core =
        { b.core with
          mode := mode
          isAtFullBandwidth := flag
          exitProbeRttAt := exitAt
          probeRttRoundPassed := passed } ∧
      (b.core.isAtFullBandwidth = true → flag = true) ∧
      Core.Phased { b.core with mode := mode, isAtFullBandwidth := flag } ∧
      (b.core.ExitDue e.eventTime isRoundStart →
        mode = Core.resumed { b.core with isAtFullBandwidth := flag }) := by
  unfold updateMode
  dsimp only
  generalize hb₁ : (if b.mode = .probeBw then
    b.updateGainCyclePhase scale e.minRTT e.eventTime e.priorInFlight e.hasLosses else b) = b₁
  have h₁ : b₁.core = b.core := by
    rw [← hb₁]
    split_ifs
    · exact b.core_updateGainCyclePhase scale _ _ _ _
    · rfl
  generalize hb₂ : (if isRoundStart = true ∧ b₁.isAtFullBandwidth = false then
    b₁.checkIfFullBandwidthReached scale state else b₁) = b₂
  have h₂ : ∃ flag, b₂.core = { b.core with isAtFullBandwidth := flag } ∧
      (b.core.isAtFullBandwidth = true → flag = true) := by
    rw [← hb₂, ← h₁]
    split_ifs
    · exact b₁.core_checkIfFullBandwidthReached scale state
    · exact ⟨b₁.isAtFullBandwidth, rfl, id⟩
  obtain ⟨flag, hcore₂, hflag⟩ := h₂
  obtain ⟨mode₃, hcore₃, hprobe, hphased₃⟩ := b₂.core_maybeExitStartupOrDrain scale e.minRTT
    e.eventTime e.draw (by rw [hcore₂]; exact fun h => hflag (hphased.later h))
  rw [hcore₂] at hcore₃ hprobe hphased₃
  obtain ⟨mode, exitAt, passed, hcore₄, hphased₄, hexit⟩ := core_maybeEnterOrExitProbeRtt quic
    (b₂.maybeExitStartupOrDrain scale e.minRTT e.eventTime e.draw) e.eventTime e.draw isRoundStart
    minRttExpired (by rw [hcore₃]; exact hphased₃)
  rw [hcore₃] at hcore₄ hphased₄ hexit
  refine ⟨mode, flag, exitAt, passed, hcore₄, hflag, hphased₄, ?_⟩
  exact fun hdue => hexit ⟨hprobe.mpr hdue.1, hdue.2⟩

theorem core_calculateCongestionWindow :
    ∃ window, (b.calculateCongestionWindow scale minRTT bytesAcked excessAcked).core =
        { b.core with congestionWindow := window } ∧
      (window = b.core.congestionWindow ∨ ∃ w,
        window = min (max w b.core.minCongestionWindow) b.core.maxCongestionWindow) := by
  unfold calculateCongestionWindow
  split_ifs
  · exact ⟨b.congestionWindow, rfl, .inl rfl⟩
  all_goals exact ⟨_, by simp only [core]; rfl, .inr ⟨_, rfl⟩⟩

theorem core_calculateRecoveryWindow :
    ∃ window, (b.calculateRecoveryWindow bytesAcked bytesLost).core =
        { b.core with recoveryWindow := window } ∧
      (b.core.recoveryState ≠ .notInRecovery → b.core.minCongestionWindow ≤ window) := by
  unfold calculateRecoveryWindow
  split_ifs with hstate
  · exact ⟨b.recoveryWindow, rfl, fun h => absurd hstate h⟩
  all_goals exact ⟨_, by simp only [core]; rfl, fun _ => le_max_left _ _⟩

theorem beginEvent_fst : (b.beginEvent e).1 = b.isRoundStart e := by
  have hround : ∀ pn, ((b.maybeApplimited e.priorInFlight).setBytesInFlight
      e.bytesInFlight).startsRound pn = b.startsRound pn := by
    intro pn
    have : (b.maybeApplimited e.priorInFlight).currentRoundTripEnd = b.currentRoundTripEnd := by
      unfold maybeApplimited
      dsimp only
      split_ifs <;> rfl
    unfold startsRound
    rw [← this]
    rfl
  unfold beginEvent updateRound isRoundStart updateRoundTripCounter
  cases e.ackedPackets.getLast? with
  | none => rfl
  | some p =>
    dsimp only
    rw [hround]
    split_ifs with hs
    · exact hs.symm
    · exact (Bool.not_eq_true _ ▸ hs).symm

theorem core_updateWindows :
    ∃ window recoveryWindow,
      (b.updateWindows scale minRTT bytesAcked bytesLost excessAcked).core =
        { b.core with congestionWindow := window, recoveryWindow := recoveryWindow } ∧
      (window = b.core.congestionWindow ∨ ∃ w,
        window = min (max w b.core.minCongestionWindow) b.core.maxCongestionWindow) ∧
      (b.core.recoveryState ≠ .notInRecovery → b.core.minCongestionWindow ≤ recoveryWindow) := by
  obtain ⟨window, hcore, hwindow⟩ := core_calculateCongestionWindow scale
    (b.calculatePacingRate scale minRTT bytesLost) minRTT bytesAcked excessAcked
  obtain ⟨recoveryWindow, hcore', hrecovery⟩ := core_calculateRecoveryWindow
    ((b.calculatePacingRate scale minRTT bytesLost).calculateCongestionWindow scale minRTT bytesAcked
      excessAcked) bytesAcked bytesLost
  rw [core_calculatePacingRate] at hcore hwindow
  rw [hcore] at hcore' hrecovery
  exact ⟨window, recoveryWindow, hcore', hwindow, hrecovery⟩

theorem moves_endEvent (isRoundStart : Bool) (sample : CongestionEventSample)
    (acked lost : ByteCount) (hphased : b.core.Phased) :
    b.core.Moves (b.endEvent scale quic e isRoundStart sample acked lost).core e.eventTime
      isRoundStart := by
  unfold endEvent
  dsimp only
  generalize hb₁ : ((b.takeSample sample acked).updateMinRtt e.eventTime sample.sampleRtt).2 = b₁
  have h₁ : b₁.core = b.core := by
    rw [← hb₁, core_updateMinRtt, core_takeSample]
  generalize hb₂ : b₁.countLosses e.hasLosses (b₁.sampler.totalBytesLost - lost) = b₂
  have h₂ : b₂.core = b.core := by
    rw [← hb₂, core_countLosses, h₁]
  obtain ⟨mode, flag, exitAt, passed, hcore₃, hflag, hphased₃, hexit⟩ :=
    b₂.core_updateMode scale quic e isRoundStart
      ((b.takeSample sample acked).updateMinRtt e.eventTime sample.sampleRtt).1
      sample.lastPacketSendState (h₂ ▸ hphased)
  generalize b₂.updateMode scale quic e isRoundStart _ _ = b₃ at hcore₃ ⊢
  obtain ⟨window, recoveryWindow, hcore₄, hwindow, hrecovery⟩ := b₃.core_updateWindows scale
    e.minRTT (b₃.sampler.totalBytesAcked - acked) (b₁.sampler.totalBytesLost - lost)
    sample.extraAcked
  rw [h₂] at hcore₃ hflag hphased₃ hexit
  rw [hcore₃] at hcore₄ hwindow hrecovery
  rw [hcore₄]
  exact
    { minCongestionWindow := rfl
      maxCongestionWindow := rfl
      congestionWindow := hwindow
      recoveryWindow := hrecovery
      recoveryState := .inl
      flag := hflag
      phased := fun _ => ⟨hphased₃.later, hphased₃.startup⟩
      exit := fun _ => hexit }

variable {b' : BbrSender}

theorem moves_onCongestionEventEx (e : CongestionEvent) (hphased : b.core.Phased)
    (hrun : b.onCongestionEventEx scale quic e = some b') :
    b.core.Moves b'.core e.eventTime (b.isRoundStart e) := by
  obtain ⟨state, window, hbegin, hrecovery⟩ := b.core_beginEvent e
  unfold onCongestionEventEx at hrun
  simp only [bind_eq_bind, bind_eq_some_iff] at hrun
  obtain ⟨⟨sample, sampler⟩, -, leastUnacked, -, sampler', -, hb'⟩ := hrun
  rw [beginEvent_fst] at hb'
  generalize hb₁ : (b.beginEvent e).2.setSampler sampler = b₁ at hb'
  have h₁ : b₁.core = { b.core with recoveryState := state, recoveryWindow := window } := by
    rw [← hb₁, core_setSampler, hbegin]
  have hphased₁ : b₁.core.Phased := by
    rw [h₁]
    exact ⟨hphased.later, hphased.startup⟩
  have hmoves := b₁.moves_endEvent scale quic e (b.isRoundStart e) sample b.sampler.totalBytesAcked
    b.sampler.totalBytesLost hphased₁
  have hcore : b'.core = (b₁.endEvent scale quic e (b.isRoundStart e) sample
      b.sampler.totalBytesAcked b.sampler.totalBytesLost).core := by
    rw [← some.inj hb', core_endRound, core_setSampler]
  rw [← hcore, h₁] at hmoves
  exact
    { minCongestionWindow := hmoves.minCongestionWindow
      __ := hmoves
      recoveryState := fun h => (hmoves.recoveryState h).elim hrecovery .inr
      phased := fun _ => hmoves.phased ⟨hphased.later, hphased.startup⟩
      exit := fun _ hdue => hmoves.exit ⟨hphased.later, hphased.startup⟩ hdue }

theorem core_onPacketSent {sentTime : Time} {bytesInFlight : ByteCount} {packetNumber : Int64}
    {bytes : ByteCount} {isRetransmittable : Bool}
    (hrun : b.onPacketSent scale quic sentTime bytesInFlight packetNumber bytes isRetransmittable =
      some b') : b'.core = b.core := by
  unfold onPacketSent at hrun
  simp only [bind_eq_bind, bind_eq_some_iff] at hrun
  obtain ⟨sampler, -, hb'⟩ := hrun
  rw [← some.inj hb']
  simp only [core]

theorem core_setMaxDatagramSize {s : ByteCount}
    (hrun : b.setMaxDatagramSize s = some b') : b'.core = b.core := by
  unfold setMaxDatagramSize at hrun
  split_ifs at hrun with hs hmin
  · rw [← some.inj hrun]
    simp only [core, hmin]
  · rw [← some.inj hrun]
    simp only [core]

end Stages

inductive Event where
  | sent (sentTime : Time) (bytesInFlight : ByteCount) (packetNumber : Int64) (bytes : ByteCount)
      (isRetransmittable : Bool)
  | congestion (e : CongestionEvent)
  | setMaxDatagramSize (s : ByteCount)

variable (scale : Scale) (quic : QuicConfig)

def step (b : BbrSender) : Event → Option BbrSender
  | .sent sentTime bytesInFlight packetNumber bytes isRetransmittable =>
    b.onPacketSent scale quic sentTime bytesInFlight packetNumber bytes isRetransmittable
  | .congestion e => b.onCongestionEventEx scale quic e
  | .setMaxDatagramSize s => b.setMaxDatagramSize s

def run (b : BbrSender) (events : List Event) : Option BbrSender :=
  events.foldlM (step scale quic) b

theorem core_step {b b' : BbrSender} (event : Event)
    (hphased : b.core.Phased) (hstep : b.step scale quic event = some b') :
    b'.core = b.core ∨ ∃ e, event = .congestion e ∧
      b.core.Moves b'.core e.eventTime (b.isRoundStart e) := by
  cases event with
  | sent sentTime bytesInFlight packetNumber bytes isRetransmittable =>
    exact .inl (b.core_onPacketSent scale quic hstep)
  | congestion e => exact .inr ⟨e, rfl, b.moves_onCongestionEventEx scale quic e hphased hstep⟩
  | setMaxDatagramSize s => exact .inl (b.core_setMaxDatagramSize hstep)

theorem run_phased {b b' : BbrSender} (events : List Event)
    (hphased : b.core.Phased) (hrun : b.run scale quic events = some b') : b'.core.Phased := by
  refine Run.foldlM_invariant (step scale quic) (fun b => b.core.Phased) ?_ events hphased hrun
  intro b event b' hphased hstep
  rcases core_step scale quic event hphased hstep with hcore | ⟨e, -, hmoves⟩
  · rwa [hcore]
  · exact hmoves.phased hphased

theorem run_bounded {b b' : BbrSender} (events : List Event)
    (hphased : b.core.Phased) (hbounded : b.core.Bounded)
    (hrun : b.run scale quic events = some b') :
    b'.core.Bounded ∧ b'.core.minCongestionWindow = b.core.minCongestionWindow ∧
      b'.core.maxCongestionWindow = b.core.maxCongestionWindow := by
  have hinv := Run.foldlM_invariant (step scale quic)
    (fun c => c.core.Phased ∧ c.core.Bounded ∧
      c.core.minCongestionWindow = b.core.minCongestionWindow ∧
      c.core.maxCongestionWindow = b.core.maxCongestionWindow) ?_ events
    ⟨hphased, hbounded, rfl, rfl⟩ hrun
  · exact hinv.2
  · rintro c event c' ⟨hphased, hbounded, hmin, hmax⟩ hstep
    rcases core_step scale quic event hphased hstep with hcore | ⟨e, -, hmoves⟩
    · rw [hcore]
      exact ⟨hphased, hbounded, hmin, hmax⟩
    · exact ⟨hmoves.phased hphased, hbounded.moves hmoves, hmoves.minCongestionWindow.trans hmin,
        hmoves.maxCongestionWindow.trans hmax⟩

theorem getCongestionWindow_bounded {b : BbrSender} (h : b.core.Bounded) :
    b.minCongestionWindow ≤ b.getCongestionWindow ∧
      b.getCongestionWindow ≤ b.maxCongestionWindow := by
  have hlower : b.minCongestionWindow ≤ b.congestionWindow := h.lower
  have hupper : b.congestionWindow ≤ b.maxCongestionWindow := h.upper
  unfold getCongestionWindow
  split_ifs with hmode hrec
  · exact ⟨le_rfl, hlower.trans hupper⟩
  · have hrecovery : b.minCongestionWindow ≤ b.recoveryWindow := by
      apply h.recovery
      change b.recoveryState ≠ .notInRecovery
      simpa [inRecovery] using hrec
    exact ⟨le_min hlower hrecovery, (min_le_left _ _).trans hupper⟩
  · exact ⟨hlower, hupper⟩

end BbrSender

/-- What the constants of the stack satisfy: the initial packet size is a multiple of at most eight
of the smallest one, and the largest window has room for the initial one. -/
structure QuicConfig.Valid (quic : QuicConfig) : Prop where
  initialPacketSize_pos : 0 < quic.initialPacketSize
  initialPacketSize_le : quic.initialPacketSize ≤ 8 * quic.minInitialPacketSize
  minInitialPacketSize_le : quic.minInitialPacketSize ≤ quic.initialPacketSize
  maxCongestionWindowPackets_le : initialCongestionWindowPackets ≤ quic.maxCongestionWindowPackets

theorem phased_newBbrSender (quic : QuicConfig) (size : ByteCount) :
    (newBbrSender quic size).core.Phased :=
  ⟨by simp [newBbrSender, new, core, enterStartupMode,
    setHighCwndGain], fun _ => rfl⟩

theorem bounded_newBbrSender {quic : QuicConfig} (h : quic.Valid) {size : ByteCount}
    (hsize : (quic.minInitialPacketSize : ℤ) ≤ size) : (newBbrSender quic size).core.Bounded := by
  have hle := h.initialPacketSize_le
  have hmax := h.maxCongestionWindowPackets_le
  refine ⟨?_, ?_, fun hrec => absurd rfl hrec⟩
  · change 4 * (quic.initialPacketSize : ℤ) ≤ ((32 : ℕ) : ℤ) * size
    omega
  · exact Int.mul_le_mul_of_nonneg_right (Int.ofNat_le.mpr hmax) (by omega)

/-- Safety of the window. In every state that a sender reaches the window it allows is between the
minimum and the maximum, so that with nothing in flight it can always send, for any rounding of the
gain multiplications. -/
theorem window_between_bounds (scale : Scale) {quic : QuicConfig} (h : quic.Valid)
    {size : ByteCount} (hsize : (quic.minInitialPacketSize : ℤ) ≤ size)
    (events : List BbrSender.Event) {b : BbrSender}
    (hrun : (newBbrSender quic size).run scale quic events = some b) :
    defaultMinimumCongestionWindow quic ≤ b.getCongestionWindow ∧
      b.getCongestionWindow ≤ quic.maxCongestionWindowPackets * size ∧ b.canSend 0 = true := by
  obtain ⟨hbounded, hmin, hmax⟩ := run_bounded scale quic events
    (phased_newBbrSender quic size) (bounded_newBbrSender h hsize) hrun
  obtain ⟨hlower, hupper⟩ := getCongestionWindow_bounded hbounded
  have hpos := h.initialPacketSize_pos
  have hmin' : b.minCongestionWindow = defaultMinimumCongestionWindow quic := hmin
  have hmax' : b.maxCongestionWindow = quic.maxCongestionWindowPackets * size := hmax
  rw [hmin'] at hlower
  rw [hmax'] at hupper
  refine ⟨hlower, hupper, decide_eq_true ?_⟩
  have hmin₀ : 0 < defaultMinimumCongestionWindow quic := by
    change 0 < 4 * (quic.initialPacketSize : ℤ)
    omega
  exact hmin₀.trans_le hlower

def sampleSending : List BbrSender.Event :=
  [.sent 1000000 1200 1 1200 true, .sent 2000000 2400 2 1200 true,
    .congestion ⟨2400, 41000000, [⟨1, 1200⟩], [], 40000000, 3⟩,
    .congestion ⟨1200, 95000000, [], [⟨2, 1200⟩], 40000000, 3⟩, .setMaxDatagramSize 1400]

theorem window_between_bounds_sample :
    ∃ b, (newBbrSender sampleQuic 1200).run exactScale sampleQuic sampleSending = some b ∧
      defaultMinimumCongestionWindow sampleQuic ≤ b.getCongestionWindow ∧
      b.getCongestionWindow ≤ sampleQuic.maxCongestionWindowPackets * 1200 ∧
      b.canSend 0 = true := by
  have hsome : ((newBbrSender sampleQuic 1200).run exactScale sampleQuic sampleSending).isSome := by
    decide +kernel
  obtain ⟨b, hrun⟩ := isSome_iff_exists.mp hsome
  have hvalid : sampleQuic.Valid := by
    constructor <;> decide
  exact ⟨b, hrun, window_between_bounds exactScale hvalid (by decide) sampleSending hrun⟩

/-- The mode machine. In every state that a sender reaches, DRAIN and PROBE_BW mean that the full
bandwidth was reached and STARTUP that it was not. No step takes the flag back, recovery starts only
when it is set, and PROBE_RTT gives way to PROBE_BW or STARTUP according to it. -/
theorem modes_follow_flag (scale : Scale) (quic : QuicConfig) (size : ByteCount)
    (events : List BbrSender.Event) {b : BbrSender}
    (hrun : (newBbrSender quic size).run scale quic events = some b) :
    ((b.mode = .drain ∨ b.mode = .probeBw) → b.isAtFullBandwidth = true) ∧
      (b.mode = .startup → b.isAtFullBandwidth = false) ∧
      (∀ event b', b.step scale quic event = some b' →
        (b.isAtFullBandwidth = true → b'.isAtFullBandwidth = true) ∧
        (b.inRecovery = false → b'.inRecovery = true → b.isAtFullBandwidth = true)) ∧
      (∀ e b', b.onCongestionEventEx scale quic e = some b' →
        b.core.ExitDue e.eventTime (b.isRoundStart e) →
        b'.mode = if b'.isAtFullBandwidth then .probeBw else .startup) := by
  have hphased := run_phased scale quic events (phased_newBbrSender quic size) hrun
  refine ⟨hphased.later, hphased.startup, ?_, ?_⟩
  · intro event b' hstep
    rcases core_step scale quic event hphased hstep with hcore | ⟨e, -, hmoves⟩
    · have hflag : b'.isAtFullBandwidth = b.isAtFullBandwidth :=
        congrArg Core.isAtFullBandwidth hcore
      have hstate : b'.recoveryState = b.recoveryState := congrArg Core.recoveryState hcore
      refine ⟨fun h => hflag.trans h, fun h h' => ?_⟩
      rw [inRecovery, hstate] at h'
      rw [inRecovery, h'] at h
      cases h
    · refine ⟨hmoves.flag, fun h h' => ?_⟩
      have hnew : b'.core.recoveryState ≠ .notInRecovery := by
        change b'.recoveryState ≠ .notInRecovery
        simpa [inRecovery] using h'
      rcases hmoves.recoveryState hnew with hold | hflag
      · change b.recoveryState ≠ .notInRecovery at hold
        simp [inRecovery, hold] at h
      · exact hflag
  · intro e b' hstep hdue
    exact (b.moves_onCongestionEventEx scale quic e hphased hstep).exit hphased hdue

def sampleProbing : List BbrSender.Event :=
  [.sent 1000000 1200 1 1200 true, .congestion ⟨1200, 41000000, [⟨1, 1200⟩], [], 40000000, 3⟩,
    .sent 50000000 1200 2 1200 true, .congestion ⟨1200, 90000000, [⟨2, 1200⟩], [], 40000000, 3⟩,
    .sent 20000000000 1200 3 1200 true,
    .congestion ⟨1200, 20040000000, [⟨3, 1200⟩], [], 40000000, 3⟩,
    .sent 20500000000 1200 4 1200 true]

def sampleProbeEnd : BbrSender.CongestionEvent :=
  ⟨1200, 20600000000, [⟨4, 1200⟩], [], 40000000, 3⟩

theorem modes_follow_flag_sample :
    ∃ b b', (newBbrSender sampleQuic 1200).run exactScale sampleQuic sampleProbing = some b ∧
      b.onCongestionEventEx exactScale sampleQuic sampleProbeEnd = some b' ∧
      b.core.ExitDue sampleProbeEnd.eventTime (b.isRoundStart sampleProbeEnd) ∧
      b'.mode = if b'.isAtFullBandwidth then .probeBw else .startup := by
  have hdue : ((newBbrSender sampleQuic 1200).run exactScale sampleQuic sampleProbing).bind
      (fun b => (b.onCongestionEventEx exactScale sampleQuic sampleProbeEnd).map fun _ =>
        decide (b.core.ExitDue sampleProbeEnd.eventTime (b.isRoundStart sampleProbeEnd))) =
      some true := by
    decide +kernel
  obtain ⟨b, hrun, hmap⟩ := bind_eq_some_iff.mp hdue
  obtain ⟨b', hstep, hexit⟩ := map_eq_some_iff.mp hmap
  have hexit := of_decide_eq_true hexit
  exact ⟨b, b', hrun, hstep, hexit,
    (modes_follow_flag exactScale sampleQuic 1200 sampleProbing hrun).2.2.2 _ b' hstep hexit⟩

end Outbound.Bbr
