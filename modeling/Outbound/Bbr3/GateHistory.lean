import Mathlib.Algebra.Order.Group.Int
import Mathlib.Data.List.Chain
import Outbound.Bbr3.HintGate

/-! What the history of a hint gate was, read off its state: the windows that led to a validation,
the withdrawals, and the time since the last one. -/
namespace Outbound.Bbr3

open List HintGate Int
open Bbr

inductive GateAction where
  | revoke (now : ℕ) (reason : RevokeReason)
  | expire (now : ℕ)
  | observe (now : ℕ) (delivered lost : ByteCount) (rtt base : Duration)

def GateAction.time : GateAction → ℕ
  | .revoke now _ => now
  | .expire now => now
  | .observe now _ _ _ _ => now

def GateAction.delivered : GateAction → ByteCount
  | .observe _ delivered _ _ _ => delivered
  | _ => 0

def GateAction.bad : GateAction → Bool
  | .observe _ _ lost rtt base => (badEvent lost rtt base).isSome
  | _ => false

structure Window where
  start : Time
  finish : Time
  bytes : ByteCount
  base : Duration
deriving DecidableEq

namespace Window

variable (cfg : GateConfig) (w : Window)

def elapsed : Duration := Time.sub w.finish w.start

def rate : ℕ := bandwidthFromDelta w.bytes w.elapsed

/-- The window delivered at least nine tenths of the hint within twice its length. -/
def Clean : Prop :=
  windowLength w.base ≤ w.elapsed ∧ w.elapsed ≤ 2 * windowLength w.base ∧
    9 * cfg.hint ≤ 10 * w.rate

instance : Decidable (w.Clean cfg) :=
  inferInstanceAs (Decidable (_ ∧ _))

/-- Clean windows, the newest first, that follow each other from one time on up to another. -/
def Consecutive (cfg : GateConfig) (earliest : Time) : List Window → Time → Prop
  | [], _ => True
  | w :: ws, t => w.Clean cfg ∧ w.finish = t ∧ earliest ≤ w.start ∧
    Consecutive cfg earliest ws w.start

end Window

variable (counters : RevokeReason → ℕ) (base : Duration)

namespace HintGate

def act (cfg : GateConfig) (g : HintGate) : GateAction → HintGate
  | .revoke now reason => g.revokeHint cfg now reason
  | .expire now => g.expireHint cfg now
  | .observe now delivered lost rtt base => g.observeHint cfg now delivered lost rtt base

def total : ℕ := revokeReasons.foldl (fun n r => n + counters r) 0

def rejected (g : HintGate) : ℕ := total g.rejections

def withdrawn (g : HintGate) : ℕ := total g.withdrawals

variable (cfg : GateConfig) (g : HintGate)

/-- Whether the bytes of an action count towards the current window. -/
def counts : GateAction → Bool
  | .observe now _ lost rtt base => cfg.active && (badEvent lost rtt base).isNone &&
    decide (g.cooldown ≤ now) && !Time.isZero g.since && decide (g.since ≤ now)
  | _ => false

def counted (a : GateAction) : ByteCount :=
  if g.counts cfg a then a.delivered else 0

def completes : GateAction → Option Window
  | .observe now delivered lost rtt base =>
    if g.counts cfg (.observe now delivered lost rtt base) = true ∧
        windowLength base ≤ Time.sub now g.since then
      some ⟨g.since, now, g.bytes + delivered, base⟩
    else none
  | _ => none

end HintGate

/-- The clean windows completed one after the other since the last withdrawal or unclean window,
the times of all withdrawals, both with the newest first, and the bytes counted since the last
withdrawal or completed window. -/
structure GateLog where
  streak : List Window
  withdrawals : List Time
  tally : ByteCount

namespace GateLog

def new : GateLog := ⟨[], [], 0⟩

def last (l : GateLog) : Time := l.withdrawals.headD 0

def step (cfg : GateConfig) (g : HintGate) (l : GateLog) (a : GateAction) : GateLog :=
  if g.rejected < (g.act cfg a).rejected then ⟨[], a.time :: l.withdrawals, 0⟩
  else
    match g.completes cfg a with
    | some w => { l with streak := if w.Clean cfg then w :: l.streak else [], tally := 0 }
    | none => { l with tally := l.tally + g.counted cfg a }

end GateLog

def logged (cfg : GateConfig) (s : HintGate × GateLog) (a : GateAction) : HintGate × GateLog :=
  (s.1.act cfg a, s.2.step cfg s.1 a)

def gateRun (cfg : GateConfig) (actions : List GateAction) : HintGate × GateLog :=
  actions.foldl (logged cfg) (.new, .new)

theorem total_count (reason : RevokeReason) :
    total (count counters reason) = total counters + 1 := by
  cases reason <;> simp [HintGate.total, revokeReasons, HintGate.count] <;> omega

theorem windowLength_bounds :
    (250000000 : ℤ) ≤ windowLength base ∧ windowLength base ≤ (1000000000 : ℤ) := by
  exact ⟨Int.le_min.mpr ⟨Int.le_max_right _ _, by decide⟩, Int.min_le_right _ _⟩

namespace HintGate

variable (cfg : GateConfig) (g : HintGate) (now : Time) (reason : RevokeReason) (recent : ℕ)

def withdraw : HintGate :=
  { g with
    rejections := count g.rejections reason
    revocations := if g.authorized then g.revocations + 1 else g.revocations
    withdrawals := if g.authorized then count g.withdrawals reason else g.withdrawals
    state := .revoked
    clean := 0
    since := now
    bytes := 0
    recent := recent
    untilTime := 0
    cooldown := now + second }

theorem revokeHint_eq (hactive : cfg.active = true) (now : Time) (reason : RevokeReason) :
    g.revokeHint cfg now reason = g.withdraw now reason g.recent := by
  rw [revokeHint, hactive]
  rfl

/-- What one action can do to a gate in use, with the window it completes. -/
inductive Outcome (a : GateAction) : Option Window → HintGate → Prop
  | quiet (since : Time) (bytes : ByteCount)
    (hsince : since = g.since ∨ (Time.isZero g.since = true ∧ since = a.time))
    (hbytes : bytes = g.bytes + g.counted cfg a) :
    Outcome a none { g with since := since, bytes := bytes }
  | withdrawn (w : Option Window) (reason : RevokeReason) (recent : ℕ) :
    Outcome a w (g.withdraw a.time reason recent)
  | counted (w : Window) (hw : w.start = g.since ∧ w.finish = a.time) (hclean : w.Clean cfg)
    (hstate : g.authorized = false) (h : g.clean + 1 < 3) :
    Outcome a (some w)
      { g with bytes := 0, since := a.time, recent := w.rate, clean := g.clean + 1 }
  | validated (w : Window) (validations : ℕ) (hw : w.start = g.since ∧ w.finish = a.time)
    (hclean : w.Clean cfg) (h : 3 ≤ g.clean + 1) :
    Outcome a (some w)
      { g with
        bytes := 0
        since := a.time
        recent := w.rate
        clean := g.clean + 1
        validations := validations
        state := .validated
        untilTime := a.time + 2 * windowLength w.base }
  | probing (w : Window) (hw : w.start = g.since ∧ w.finish = a.time) (hclean : ¬ w.Clean cfg)
    (hlen : windowLength w.base ≤ w.elapsed) (hstate : g.authorized = false)
    (hrate : 3 * cfg.hint ≤ 4 * w.rate) :
    Outcome a (some w)
      { g with
        bytes := 0
        since := a.time
        recent := w.rate
        clean := 0
        state := .probing
        probes := g.probes + 1
        untilTime := a.time + windowLength w.base }
  | low (w : Window) (hw : w.start = g.since ∧ w.finish = a.time) (hclean : ¬ w.Clean cfg)
    (hlen : windowLength w.base ≤ w.elapsed) (hstate : g.authorized = false) :
    Outcome a (some w)
      { g with bytes := 0, since := a.time, recent := w.rate, clean := 0, state := .unvalidated }

variable {cfg g}

theorem outcome_settleWindow (hactive : cfg.active = true) {a : GateAction} {w : Window}
    (hw : w.start = g.since ∧ w.finish = a.time) (hlen : windowLength w.base ≤ w.elapsed)
    (clean : ℕ)
    (hclean : (w.Clean cfg ∧ clean = g.clean + 1 ∧ clean < 3) ∨ (¬ w.Clean cfg ∧ clean = 0)) :
    Outcome cfg g a (some w)
      ({ g.closeWindow a.time w.rate with clean := clean }.settleWindow cfg a.time
        (windowLength w.base) w.rate) := by
  unfold settleWindow closeWindow
  split_ifs with hvalid hprobe hpos hrate
  · rw [revokeHint_eq _ _ hactive]
    exact .withdrawn (some w) .delivery w.rate
  · rw [revokeHint_eq _ _ hactive]
    exact .withdrawn (some w) .probeFail w.rate
  all_goals
    have hstate : g.authorized = false := by simp [authorized, hvalid, hprobe]
  · rcases hclean with ⟨hc, rfl, hlt⟩ | ⟨-, rfl⟩
    · exact .counted w hw hc hstate hlt
    · exact absurd hpos (Nat.lt_irrefl 0)
  · rcases hclean with ⟨-, rfl, -⟩ | ⟨hc, rfl⟩
    · exact absurd (Nat.succ_pos _) hpos
    · exact .probing w hw hc hlen hstate hrate
  · rcases hclean with ⟨-, rfl, -⟩ | ⟨hc, rfl⟩
    · exact absurd (Nat.succ_pos _) hpos
    · exact .low w hw hc hlen hstate

theorem outcome_evaluate (hactive : cfg.active = true) {a : GateAction} {bytes : ByteCount}
    {base : Duration} (helapsed : windowLength base ≤ Time.sub a.time g.since) :
    Outcome cfg g a (some ⟨g.since, a.time, bytes, base⟩)
      ({ g with bytes := bytes }.evaluate cfg a.time (windowLength base)
        (Time.sub a.time g.since)) := by
  generalize hw : (⟨g.since, a.time, bytes, base⟩ : Window) = w
  have hrate : bandwidthFromDelta bytes (Time.sub a.time g.since) = w.rate := by rw [← hw]; rfl
  have hiff : isClean cfg w.rate (Time.sub a.time g.since) (windowLength base) = true ↔
      w.Clean cfg := by
    rw [isClean, Bool.and_eq_true, decide_eq_true_eq, decide_eq_true_eq, and_comm]
    subst hw
    exact ⟨fun h => ⟨helapsed, h⟩, fun h => h.2⟩
  have hends : w.start = g.since ∧ w.finish = a.time := by
    subst hw
    exact ⟨rfl, rfl⟩
  have hbase : windowLength base = windowLength w.base := by rw [← hw]
  have hlen : windowLength w.base ≤ w.elapsed := by
    subst hw
    exact helapsed
  unfold evaluate
  dsimp only
  rw [hrate]
  split_ifs with hclean hthree
  · rw [hbase]
    exact .validated w _ hends (hiff.mp hclean) hthree
  · exact outcome_settleWindow hactive hends hlen _
      (.inl ⟨hiff.mp hclean, rfl, Nat.lt_of_not_le hthree⟩)
  · rw [hbase]
    exact outcome_settleWindow hactive hends hlen 0 (.inr ⟨fun h => hclean (hiff.mpr h), rfl⟩)

theorem counted_of_not (a : GateAction) (h : ¬ g.counts cfg a = true) :
    g.bytes = g.bytes + g.counted cfg a := by
  rw [counted, if_neg h]
  exact (add_zero _).symm

theorem outcome_collect (hactive : cfg.active = true) {now : ℕ} {delivered lost : ByteCount}
    {rtt base : Duration} (hgood : badEvent lost rtt base = none) :
    Outcome cfg g (.observe now delivered lost rtt base)
      (g.completes cfg (.observe now delivered lost rtt base))
      (g.collect cfg now delivered base) := by
  have hcounts : g.counts cfg (.observe now delivered lost rtt base) = true ↔
      g.cooldown ≤ now ∧ Time.isZero g.since = false ∧ g.since ≤ now := by
    simp [counts, hactive, hgood, and_assoc]
  simp only [collect, completes, hcounts]
  by_cases hcool : (now : Time) < g.cooldown
  · have hnot : ¬ (g.cooldown ≤ now ∧ Time.isZero g.since = false ∧ g.since ≤ now) :=
      fun h => absurd h.1 (not_le.mpr hcool)
    rw [if_pos hcool, if_neg (fun h => hnot h.1)]
    exact .quiet g.since g.bytes (.inl rfl) (counted_of_not _ (mt hcounts.mp hnot))
  rw [if_neg hcool]
  by_cases hzero : Time.isZero g.since = true
  · have hnot : ¬ (g.cooldown ≤ now ∧ Time.isZero g.since = false ∧ g.since ≤ now) :=
      fun h => absurd (h.2.1.symm.trans hzero) (by decide)
    rw [if_pos hzero, if_neg (fun h => hnot h.1)]
    exact .quiet now g.bytes (.inr ⟨hzero, rfl⟩) (counted_of_not _ (mt hcounts.mp hnot))
  rw [if_neg hzero]
  by_cases hback : (now : Time) < g.since
  · rw [if_pos hback, if_neg (fun h => absurd h.1.2.2 (not_le.mpr hback)),
      revokeHint_eq _ _ hactive]
    exact .withdrawn none .backwards g.recent
  rw [if_neg hback]
  have hcount : g.cooldown ≤ now ∧ Time.isZero g.since = false ∧ g.since ≤ now :=
    ⟨not_lt.mp hcool, by simpa using hzero, not_lt.mp hback⟩
  by_cases hlen : Time.sub now g.since < windowLength base
  · rw [if_neg (fun h => absurd h.2 (not_le.mpr hlen)), if_pos hlen]
    refine .quiet g.since _ (.inl rfl) ?_
    rw [counted, if_pos (hcounts.mpr hcount)]
    rfl
  · have hwindow : windowLength base ≤ Time.sub now g.since := not_lt.mp hlen
    rw [if_pos ⟨hcount, hwindow⟩, if_neg hlen]
    exact outcome_evaluate (a := .observe now delivered lost rtt base) hactive hwindow

theorem outcome_act (hactive : cfg.active = true) (a : GateAction) :
    Outcome cfg g a (g.completes cfg a) (g.act cfg a) := by
  cases a with
  | revoke now reason =>
    rw [act, revokeHint_eq _ _ hactive]
    exact .withdrawn none reason g.recent
  | expire now =>
    rw [act, expireHint]
    split_ifs
    · rw [revokeHint_eq _ _ hactive]
      exact .withdrawn none .expiry g.recent
    · exact .quiet g.since g.bytes (.inl rfl) (counted_of_not _ Bool.false_ne_true)
  | observe now delivered lost rtt base =>
    rw [act, observeHint, hactive]
    cases hbad : badEvent lost rtt base with
    | none => exact outcome_collect hactive hbad
    | some reason =>
      have hnone : g.completes cfg (.observe now delivered lost rtt base) = none := by
        simp [completes, counts, hbad]
      rw [hnone]
      change Outcome cfg g _ none (g.revokeHint cfg now reason)
      rw [revokeHint_eq _ _ hactive]
      exact .withdrawn none reason g.recent

theorem rejected_withdraw : (g.withdraw now reason recent).rejected = g.rejected + 1 :=
  total_count g.rejections reason

theorem withdrawn_withdraw :
    (g.withdraw now reason recent).withdrawn =
      if g.authorized then g.withdrawn + 1 else g.withdrawn := by
  unfold withdrawn withdraw
  split_ifs
  · exact total_count g.withdrawals reason
  · rfl

end HintGate

theorem Window.lt {w : Window} (h : windowLength w.base ≤ w.elapsed) : w.start < w.finish := by
  have hlen : (250000000 : ℤ) ≤ max minDuration (min maxDuration (w.finish - w.start)) :=
    le_trans (windowLength_bounds w.base).1 h
  have hsub : (250000000 : ℤ) ≤ w.finish - w.start := by
    unfold minDuration maxDuration at *
    omega
  exact Int.lt_of_sub_pos (Int.lt_of_lt_of_le (by decide) hsub)

/-- What the state of a gate says of its history. -/
structure Logged (cfg : GateConfig) (g : HintGate) (l : GateLog) : Prop where
  expiry : Time.isZero g.untilTime = false ↔ g.authorized = true
  revocations : g.revocations = g.withdrawn
  bytes : g.bytes = l.tally
  clean : g.clean = l.streak.length
  short : g.state ≠ .validated → g.clean < 3
  probing : g.state = .probing → cfg.active = true ∧ g.clean = 0 ∧ 3 * cfg.hint ≤ 4 * g.recent
  streak : Window.Consecutive cfg l.last l.streak g.since
  earliest : 0 ≤ l.last ∧ l.last ≤ g.since
  cooldown : l.withdrawals ≠ [] → g.cooldown = l.last + second

theorem logged_new (cfg : GateConfig) : Logged cfg .new .new where
  expiry := by decide
  revocations := by decide
  bytes := rfl
  clean := rfl
  short := fun _ => Nat.succ_pos _
  probing := fun h => absurd h (by decide)
  streak := trivial
  earliest := ⟨le_refl 0, le_refl 0⟩
  cooldown := fun h => absurd rfl h

namespace Logged

variable {cfg : GateConfig} {g : HintGate} {l : GateLog}

section

variable (h : Logged cfg g l)

include h

theorem streak_nil (hzero : Time.isZero g.since = true) : l.streak = [] := by
  have hsince : g.since = 0 := eq_of_beq hzero
  have hstreak := h.streak
  rw [hsince] at hstreak
  cases hs : l.streak with
  | nil => rfl
  | cons w ws =>
    rw [hs] at hstreak
    obtain ⟨hclean, hfinish, hstart, -⟩ := hstreak
    have hlt := Window.lt hclean.1
    rw [hfinish] at hlt
    exact absurd (le_trans h.earliest.1 hstart) (not_le.mpr hlt)

theorem withdraw (now : ℕ) (reason : RevokeReason) (recent : ℕ) :
    Logged cfg (g.withdraw now reason recent) ⟨[], now :: l.withdrawals, 0⟩ where
  expiry := by simp [HintGate.withdraw, HintGate.authorized, Time.isZero]
  revocations := by
    rw [withdrawn_withdraw, ← h.revocations]
    rfl
  bytes := rfl
  clean := rfl
  short := fun _ => Nat.succ_pos _
  probing := fun h => absurd h HintState.noConfusion
  streak := trivial
  earliest := ⟨natCast_nonneg now, le_refl _⟩
  cooldown := fun _ => rfl

theorem quiet (a : GateAction) {since : Time} {bytes : ByteCount}
    (hsince : since = g.since ∨ (Time.isZero g.since = true ∧ since = a.time))
    (hbytes : bytes = g.bytes + g.counted cfg a) :
    Logged cfg { g with since := since, bytes := bytes }
      { l with tally := l.tally + g.counted cfg a } := by
  have hmoved : Window.Consecutive cfg l.last l.streak since ∧ l.last ≤ since := by
    rcases hsince with rfl | ⟨hzero, rfl⟩
    · exact ⟨h.streak, h.earliest.2⟩
    · constructor
      · rw [h.streak_nil hzero]
        trivial
      · apply le_trans h.earliest.2
        rw [eq_of_beq hzero]
        exact natCast_nonneg _
  exact
    { expiry := h.expiry
      __ := h
      bytes := by rw [hbytes, h.bytes]
      streak := hmoved.1
      earliest := ⟨h.earliest.1, hmoved.2⟩
      cooldown := h.cooldown }

theorem close {a : GateAction} {w : Window} {g' : HintGate}
    (hw : w.start = g.since ∧ w.finish = a.time) (hlen : windowLength w.base ≤ w.elapsed)
    (hexpiry : Time.isZero g'.untilTime = false ↔ g'.authorized = true)
    (hcounters : g'.revocations = g.revocations ∧ g'.withdrawals = g.withdrawals)
    (hopen : g'.bytes = 0 ∧ g'.since = a.time)
    (hclean : g'.clean = if w.Clean cfg then g.clean + 1 else 0)
    (hshort : g'.state ≠ .validated → g'.clean < 3)
    (hprobing : g'.state = .probing → cfg.active = true ∧ g'.clean = 0 ∧ 3 * cfg.hint ≤ 4 * g'.recent)
    (hcool : g'.cooldown = g.cooldown) :
    Logged cfg g' { l with streak := if w.Clean cfg then w :: l.streak else [], tally := 0 } where
  expiry := hexpiry
  revocations := by
    rw [hcounters.1, h.revocations]
    unfold withdrawn
    rw [hcounters.2]
  bytes := hopen.1
  clean := by
    rw [hclean, h.clean]
    split_ifs <;> rfl
  short := hshort
  probing := hprobing
  streak := by
    split_ifs with hc
    · rw [hopen.2, ← hw.2]
      refine ⟨hc, rfl, ?_, ?_⟩
      · rw [hw.1]
        exact h.earliest.2
      · rw [hw.1]
        exact h.streak
    · trivial
  earliest := by
    constructor
    · exact h.earliest.1
    · rw [hopen.2, ← hw.2]
      apply le_trans h.earliest.2
      rw [← hw.1]
      exact le_of_lt (Window.lt hlen)
  cooldown := by
    rw [hcool]
    exact h.cooldown

end

end Logged

theorem isZero_add (now : ℕ) {d : Duration} (h : 0 < d) : Time.isZero ((now : Time) + d) = false :=
  beq_eq_false_iff_ne.mpr (ne_of_gt (add_pos_of_nonneg_of_pos (natCast_nonneg now) h))

theorem windowLength_pos : 0 < windowLength base :=
  lt_of_lt_of_le (by decide) (windowLength_bounds base).1

namespace Logged

variable {cfg : GateConfig} {g : HintGate} {l : GateLog}

theorem act_of_inactive (hinactive : cfg.active = false) (a : GateAction) :
    g.act cfg a = g ∧ g.completes cfg a = none := by
  cases a <;>
    simp [act, revokeHint, expireHint, observeHint, completes, counts, hinactive]

theorem act (h : Logged cfg g l) (a : GateAction) : Logged cfg (g.act cfg a) (l.step cfg g a) := by
  unfold GateLog.step
  cases hactive : cfg.active with
  | false =>
    obtain ⟨hact, hcompletes⟩ := act_of_inactive (g := g) hactive a
    simpa [hact, hcompletes] using h.quiet a (.inl rfl) (counted_of_not a (by cases a <;> simp [hactive, counts]))
  | true =>
    have hout := outcome_act (g := g) hactive a
    generalize g.completes cfg a = w at hout ⊢
    generalize g.act cfg a = g' at hout ⊢
    cases hout with
    | quiet since bytes hsince hbytes =>
      rw [if_neg (by exact Nat.lt_irrefl g.rejected)]
      exact h.quiet a hsince hbytes
    | withdrawn _ reason recent =>
      simpa [rejected_withdraw] using h.withdraw a.time reason recent
    | counted w hw hclean hstate hlt =>
      rw [if_neg (by exact Nat.lt_irrefl g.rejected)]
      have hstill : g.state ≠ .probing := fun h => by simp [authorized, h] at hstate
      exact h.close hw hclean.1 h.expiry ⟨rfl, rfl⟩ ⟨rfl, rfl⟩ (if_pos hclean).symm (fun _ => hlt)
        (fun hp => absurd hp hstill) rfl
    | validated w _ hw hclean hge =>
      rw [if_neg (by exact Nat.lt_irrefl g.rejected)]
      refine h.close hw hclean.1 ?_ ⟨rfl, rfl⟩ ⟨rfl, rfl⟩ (if_pos hclean).symm
        (fun hne => absurd rfl hne) HintState.noConfusion rfl
      have hpos : (0 : ℤ) < 2 * windowLength w.base :=
        Int.mul_pos (by decide) (windowLength_pos w.base)
      exact iff_of_true (isZero_add _ hpos) rfl
    | probing w hw hclean hlen hstate hrate =>
      rw [if_neg (by exact Nat.lt_irrefl g.rejected)]
      refine h.close hw hlen ?_ ⟨rfl, rfl⟩ ⟨rfl, rfl⟩ (if_neg hclean).symm
        (fun _ => Nat.succ_pos _) (fun _ => ⟨hactive, rfl, hrate⟩) rfl
      exact iff_of_true (isZero_add _ (windowLength_pos w.base)) rfl
    | low w hw hclean hlen hstate =>
      rw [if_neg (by exact Nat.lt_irrefl g.rejected)]
      refine h.close hw hlen ?_ ⟨rfl, rfl⟩ ⟨rfl, rfl⟩ (if_neg hclean).symm
        (fun _ => Nat.succ_pos _) HintState.noConfusion rfl
      rw [h.expiry, hstate]
      exact iff_of_false Bool.false_ne_true Bool.false_ne_true

end Logged

variable (cfg : GateConfig) (actions : List GateAction)

@[simp] theorem gateRun_append (a : GateAction) :
    gateRun cfg (actions ++ [a]) = logged cfg (gateRun cfg actions) a := by
  simp [gateRun]

theorem gateRun_logged : Logged cfg (gateRun cfg actions).1 (gateRun cfg actions).2 := by
  induction actions using reverseRecOn with
  | nil => exact logged_new cfg
  | append_singleton actions a ih =>
    rw [gateRun_append]
    exact ih.act a

theorem withdrawals_sublist :
    (gateRun cfg actions).2.withdrawals.Sublist
      (actions.map fun a => (a.time : Time)).reverse := by
  induction actions using reverseRecOn with
  | nil => exact .slnil
  | append_singleton actions a ih =>
    rw [gateRun_append, map_append, reverse_append]
    change (GateLog.step _ _ _ _).withdrawals.Sublist (_ :: _)
    unfold GateLog.step
    split_ifs with h
    · exact ih.cons_cons _
    · cases (gateRun cfg actions).1.completes cfg a <;> exact ih.cons _

variable {cfg} {g : HintGate}

theorem Logged.validates {l : GateLog} (h : Logged cfg g l)
    (a : GateAction) (hbefore : g.state ≠ .validated) (hafter : (g.act cfg a).state = .validated) :
    ∃ w₁ w₂ w₃, (l.step cfg g a).streak = [w₃, w₂, w₁] ∧
      Window.Consecutive cfg l.last [w₃, w₂, w₁] a.time := by
  have hactive : cfg.active = true := by
    by_contra hne
    rw [(Logged.act_of_inactive (Bool.eq_false_of_not_eq_true hne) a).1] at hafter
    exact hbefore hafter
  have hout := outcome_act (g := g) hactive a
  unfold GateLog.step
  generalize g.completes cfg a = w at hout ⊢
  generalize g.act cfg a = g' at hout hafter ⊢
  cases hout with
  | withdrawn => exact absurd hafter (by simp [HintGate.withdraw])
  | probing => cases hafter
  | low => cases hafter
  | validated w _ hw hclean hge =>
    have htwo : l.streak.length = 2 := by
      have hlt := h.short hbefore
      rw [h.clean] at hlt hge
      omega
    obtain ⟨w₂, w₁, hstreak⟩ := length_eq_two.mp htwo
    refine ⟨w₁, w₂, w, ?_, hclean, hw.2, ?_, ?_⟩
    · rw [if_neg (by exact Nat.lt_irrefl g.rejected)]
      simp [hclean, hstreak]
    · rw [hw.1]
      exact h.earliest.2
    · rw [hw.1, ← hstreak]
      exact h.streak
  | _ => exact absurd hafter hbefore

theorem step_of_bad {l : GateLog} (hactive : cfg.active = true)
    {a : GateAction} (hbad : a.bad = true) : l.step cfg g a = ⟨[], a.time :: l.withdrawals, 0⟩ := by
  cases a with
  | observe now delivered lost rtt base =>
    obtain ⟨reason, hreason⟩ := Option.isSome_iff_exists.mp hbad
    apply if_pos
    rw [act, observeHint, hactive, hreason]
    change g.rejected < (g.revokeHint cfg now reason).rejected
    rw [revokeHint_eq _ _ hactive, rejected_withdraw]
    exact Nat.lt_succ_self _
  | _ => cases hbad

theorem counts_cooldown {a : GateAction} (h : g.counts cfg a = true) : g.cooldown ≤ a.time := by
  cases a with
  | observe now delivered lost rtt base =>
    simp only [counts, Bool.and_eq_true, decide_eq_true_eq] at h
    exact h.1.1.2
  | _ => cases h

/-- The gate's history: it has an expiry time exactly while it is probing or validated; it becomes
validated at the end of the third clean window in a row, all after the last withdrawal; a revocation
withdraws an authorization in force; and bytes count from a second after the last withdrawal on, and
so after every one if the clock does not go back. -/
theorem gate_history (cfg : GateConfig) (actions : List GateAction) (a : GateAction) :
    let g := (gateRun cfg actions).1
    let l := (gateRun cfg actions).2
    (Time.isZero g.untilTime = false ↔ g.state = .probing ∨ g.state = .validated) ∧
    (g.bytes = l.tally ∧
      (g.state ≠ .validated → (g.act cfg a).state = .validated →
        ∃ w₁ w₂ w₃, (l.step cfg g a).streak = [w₃, w₂, w₁] ∧
          Window.Consecutive cfg l.last [w₃, w₂, w₁] a.time) ∧
      (cfg.active = true → a.bad = true → (l.step cfg g a).streak = [])) ∧
    g.revocations = g.withdrawn ∧
    (g.counts cfg a = true → l.withdrawals ≠ [] → l.last + second ≤ a.time) ∧
    (actions.Pairwise (fun b c => b.time ≤ c.time) → g.counts cfg a = true →
      ∀ t ∈ l.withdrawals, t + second ≤ a.time) := by
  intro g l
  have h : Logged cfg g l := gateRun_logged cfg actions
  have hlast : g.counts cfg a = true → l.withdrawals ≠ [] → l.last + second ≤ a.time := by
    intro hcounts hne
    rw [← h.cooldown hne]
    exact counts_cooldown hcounts
  refine ⟨?_, ⟨h.bytes, h.validates a, fun hactive hbad => ?_⟩, h.revocations, hlast, ?_⟩
  · rw [h.expiry]
    simp [authorized]
  · rw [step_of_bad hactive hbad]
  · intro hsorted hcounts t ht
    have hle : t ≤ l.last := by
      have hpair : l.withdrawals.Pairwise (fun t u => u ≤ t) := by
        apply List.Pairwise.sublist (withdrawals_sublist cfg actions)
        rw [pairwise_reverse, pairwise_map]
        exact hsorted.imp (fun hbc => ofNat_le.mpr hbc)
      unfold GateLog.last
      cases hw : l.withdrawals with
      | nil => simp [hw] at ht
      | cons u us =>
        rw [hw] at ht hpair
        rcases mem_cons.mp ht with rfl | hmem
        · exact le_refl _
        · exact (pairwise_cons.mp hpair).1 t hmem
    exact Int.le_trans (Int.add_le_add_right hle _) (hlast hcounts (ne_nil_of_mem ht))

/-- A withdrawal at an earlier reading of the clock shortens the cooldown of a later one. -/
theorem byte_counts_before_cooldown :
    let cfg : GateConfig := ⟨true, 1000⟩
    let s := gateRun cfg
      [.observe 1000000000 0 0 100000000 100000000,
       .observe 1300000000 240 0 100000000 100000000,
       .revoke 100000000000 .ecnOrTimer, .observe 50000000000 0 1 100000000 100000000]
    s.1.revocations = 1 ∧ 100000000000 ∈ s.2.withdrawals ∧
      s.1.counts cfg (.observe 51000000000 500 0 100000000 100000000) = true ∧
      (51000000000 : ℤ) < 100000000000 + second := by
  decide +kernel

end Outbound.Bbr3
