import Outbound.Bbr3.GateHistory

/-! What becomes of a probe whose evaluation window completes cleanly. -/
namespace Outbound.Bbr3
open Bbr HintGate

/-- What the sender makes of the calls it gets: an acknowledgement event, a congestion signal
without one, and a send or a question for pacing budget. -/
inductive GateEvent where
  | ack (now : ℕ) (delivered lost : ByteCount) (rtt base : Duration)
  | congestion (now : ℕ) (lost : ByteCount)
  | tick (now : ℕ)

/-- The actions of a call on the gate, in the order the sender takes them. -/
def GateEvent.actions : GateEvent → List GateAction
  | .ack now delivered lost rtt base => [.expire now, .observe now delivered lost rtt base]
  | .congestion now lost => [.revoke now (if 0 < lost then .loss else .ecnOrTimer)]
  | .tick now => [.expire now]

namespace HintGate

variable (cfg : GateConfig) (g : HintGate)

def handle (e : GateEvent) : HintGate :=
  e.actions.foldl (act cfg) g

def after (events : List GateEvent) : HintGate :=
  events.foldl (handle cfg) .new

/-- The acknowledgement completes the window of a probe, and completes it cleanly. -/
def CompletesProbe : GateEvent → Prop
  | .ack now delivered lost rtt base => g.state = .probing ∧
    ∃ w ∈ g.completes cfg (.observe now delivered lost rtt base), w.Clean cfg
  | _ => False

/-- The event leaves the gate probing or further, with the first clean window of a streak. -/
def KeepsProbe (e : GateEvent) : Prop :=
  (g.handle cfg e).authorized = true ∧ (g.handle cfg e).clean = 1

end HintGate

variable {cfg : GateConfig}

theorem exists_logged_handle {g : HintGate} (h : ∃ l, Logged cfg g l) (e : GateEvent) :
    ∃ l, Logged cfg (g.handle cfg e) l := by
  unfold handle
  generalize e.actions = actions
  induction actions generalizing g with
  | nil => exact h
  | cons a actions ih =>
    obtain ⟨l, hl⟩ := h
    exact ih ⟨_, hl.act a⟩

theorem exists_logged_after (cfg : GateConfig) (events : List GateEvent) :
    ∃ l, Logged cfg (.after cfg events) l := by
  suffices ∀ g, (∃ l, Logged cfg g l) → ∃ l, Logged cfg (events.foldl (handle cfg) g) l from
    this _ ⟨_, logged_new cfg⟩
  intro g hg
  induction events generalizing g with
  | nil => exact hg
  | cons e events ih => exact ih _ (exists_logged_handle hg e)

namespace HintGate

variable {g : HintGate}

theorem observe_probing (hactive : cfg.active = true) {a : GateAction} {w : Window}
    (hstate : g.state = .probing) (hclean : g.clean = 0) (hw : g.completes cfg a = some w)
    (hc : w.Clean cfg) : (g.act cfg a).authorized = false := by
  have hout := outcome_act (g := g) hactive a
  have hauth : g.authorized = true := by simp [authorized, hstate]
  rw [hw] at hout
  generalize g.act cfg a = g' at hout ⊢
  generalize hv : some w = v at hout
  cases hout with
  | quiet => cases hv
  | withdrawn => rfl
  | counted w _ _ hstate => cases hauth.symm.trans hstate
  | validated w _ _ _ hge => omega
  | probing v _ hnot =>
    cases hv
    exact absurd hc hnot
  | low v _ hnot =>
    cases hv
    exact absurd hc hnot

@[simp] theorem authorized_withdraw (now : Time) (reason : RevokeReason) (recent : ℕ) :
    (g.withdraw now reason recent).authorized = false := rfl

/-- A withdrawal that has just happened is not undone by what the same event delivers. -/
theorem observe_withdraw (now : ℕ) (reason : RevokeReason) (recent : ℕ)
    (delivered lost : ByteCount) (rtt base : Duration) (hactive : cfg.active = true) :
    ((g.withdraw now reason recent).observeHint cfg now delivered lost rtt base).authorized =
      false := by
  have hcool : (now : ℤ) < (g.withdraw now reason recent).cooldown := by
    change (now : ℤ) < (now : ℤ) + second
    unfold second
    omega
  generalize hg : g.withdraw now reason recent = g' at hcool ⊢
  have hauth : g'.authorized = false := by simp [← hg]
  unfold observeHint
  rw [hactive, if_neg (by decide)]
  cases badEvent lost rtt base with
  | some reason' =>
    dsimp only
    rw [revokeHint_eq _ _ hactive, authorized_withdraw]
  | none =>
    rw [collect, if_pos hcool, hauth]

end HintGate

/-- A probe is kept at the end of its window exactly if that window is not clean: a clean one is
withdrawn, as expired or as failed. -/
theorem clean_probe_kept_iff (cfg : GateConfig) (events : List GateEvent) (e : GateEvent) :
    (HintGate.CompletesProbe cfg (.after cfg events) e →
        HintGate.KeepsProbe cfg (.after cfg events) e) ↔
      ¬ HintGate.CompletesProbe cfg (.after cfg events) e := by
  obtain ⟨l, hl⟩ := exists_logged_after cfg events
  generalize after cfg events = g at hl ⊢
  constructor
  · intro hkeeps hcompletes
    have hauth := (hkeeps hcompletes).1
    cases e with
    | ack now delivered lost rtt base =>
      obtain ⟨hstate, w, hw, hc⟩ := hcompletes
      obtain ⟨hactive, hzero, -⟩ := hl.probing hstate
      change ((g.expireHint cfg now).observeHint cfg now delivered lost rtt base).authorized =
        true at hauth
      rw [expireHint] at hauth
      split_ifs at hauth
      · rw [revokeHint_eq _ _ hactive, observe_withdraw _ _ _ _ _ _ _ hactive] at hauth
        exact Bool.false_ne_true hauth
      · have hlost := observe_probing hactive hstate hzero hw hc
        exact Bool.false_ne_true (hlost.symm.trans hauth)
    | _ => exact hcompletes
  · intro hnot hcompletes
    exact absurd hcompletes hnot

/-- Two probes at the hinted rate: the first is withdrawn as expired, the second, whose window
shrank with the minimum round-trip time, as failed. -/
theorem clean_probe_withdrawn :
    let cfg : GateConfig := ⟨true, 1000⟩
    let g := after cfg
      [.ack 1000000000 0 0 100000000 100000000, .ack 1300000000 240 0 100000000 100000000]
    let e := GateEvent.ack 1600000000 300 0 100000000 100000000
    let f := GateEvent.ack 1550000000 250 0 80000000 80000000
    (HintGate.CompletesProbe cfg g e ∧ (g.handle cfg e).withdrawals .expiry = 1) ∧
      HintGate.CompletesProbe cfg g f ∧ (g.handle cfg f).withdrawals .probeFail = 1 := by
  exact ⟨⟨⟨by decide, _, rfl, by decide⟩, by decide⟩, ⟨by decide, _, rfl, by decide⟩, by decide⟩

end Outbound.Bbr3
