import Outbound.Bbr.Bandwidth

/-! The gate that decides how far the access hint is trusted. Rates are bytes per second, and the
comparisons with fractions of the hint are exact. -/
namespace Outbound.Bbr3
open Bbr

inductive HintState where
  | unvalidated
  | probing
  | validated
  | revoked
deriving DecidableEq, Repr

inductive RevokeReason where
  | loss
  | ecnOrTimer
  | rtt
  | zeroRtt
  | backwards
  | expiry
  | delivery
  | probeFail
deriving DecidableEq, Repr

def revokeReasons : List RevokeReason :=
  [.loss, .ecnOrTimer, .rtt, .zeroRtt, .backwards, .expiry, .delivery, .probeFail]

structure HintGate where
  state : HintState
  since : Time
  bytes : ByteCount
  clean : ℕ
  recent : ℕ
  untilTime : Time
  cooldown : Time
  probes : ℕ
  validations : ℕ
  revocations : ℕ
  rejections : RevokeReason → ℕ
  withdrawals : RevokeReason → ℕ

/-- What a gate does not change: whether it is in use, and the hint. -/
structure GateConfig where
  enableValidatedHint : Bool
  hint : ℕ
deriving DecidableEq

def GateConfig.active (cfg : GateConfig) : Bool := cfg.enableValidatedHint && cfg.hint != 0

def bandwidthFromDelta (bytes : ByteCount) (delta : Duration) : ℕ :=
  if bytes ≤ 0 ∨ delta ≤ 0 then 0 else bytes.toNat * 1000000000 / delta.toNat

def rttAllowance (base : Duration) : Duration := max (base.tdiv 8) (2 * millisecond)

def windowLength (base : Duration) : Duration := min (max (3 * base) (250 * millisecond)) second

namespace HintGate

def new : HintGate :=
  { state := .unvalidated
    since := 0
    bytes := 0
    clean := 0
    recent := 0
    untilTime := 0
    cooldown := 0
    probes := 0
    validations := 0
    revocations := 0
    rejections := fun _ => 0
    withdrawals := fun _ => 0 }

def authorized (g : HintGate) : Bool := g.state == .probing || g.state == .validated

def count (counters : RevokeReason → ℕ) (reason : RevokeReason) : RevokeReason → ℕ :=
  fun r => if r = reason then counters r + 1 else counters r

variable (cfg : GateConfig) (g : HintGate) (now : Time) (window : Duration) (rate : ℕ)
  (elapsed : Duration) (delivered lost : ByteCount) (rtt base : Duration)

def revokeHint (reason : RevokeReason) : HintGate :=
  if !cfg.active then g
  else
    { g with
      rejections := count g.rejections reason
      revocations := if g.authorized then g.revocations + 1 else g.revocations
      withdrawals := if g.authorized then count g.withdrawals reason else g.withdrawals
      state := .revoked
      clean := 0
      since := now
      bytes := 0
      untilTime := 0
      cooldown := now + second }

def expired : Bool :=
  !Time.isZero g.untilTime && decide (g.untilTime ≤ now)

def expireHint : HintGate :=
  if g.expired now then g.revokeHint cfg now .expiry else g

def badEvent : Option RevokeReason :=
  if 0 < lost then some .loss
  else if rtt ≤ 0 then some .zeroRtt
  else if base + rttAllowance base < rtt then some .rtt
  else none

def closeWindow : HintGate :=
  { g with bytes := 0, since := now, recent := rate }

/-- The rate was close to the hint and the window not too long. -/
def isClean (window : Duration) : Bool :=
  decide (9 * cfg.hint ≤ 10 * rate) && decide (elapsed ≤ 2 * window)

def validate : HintGate :=
  { g with
    validations := if g.state = .validated then g.validations else g.validations + 1
    state := .validated
    untilTime := now + 2 * window }

def settleWindow : HintGate :=
  if g.state = .validated then g.revokeHint cfg now .delivery
  else if g.state = .probing then g.revokeHint cfg now .probeFail
  else if 0 < g.clean then g
  else if 3 * cfg.hint ≤ 4 * rate then
    { g with state := .probing, probes := g.probes + 1, untilTime := now + window }
  else { g with state := .unvalidated }

def evaluate : HintGate :=
  let rate := bandwidthFromDelta g.bytes elapsed
  let g := g.closeWindow now rate
  if isClean cfg rate elapsed window then
    let g := { g with clean := g.clean + 1 }
    if 3 ≤ g.clean then g.validate now window else g.settleWindow cfg now window rate
  else { g with clean := 0 }.settleWindow cfg now window rate

/-- An event that gives no reason to withdraw: its bytes count, once the cooldown is over, towards
the current window. -/
def collect : HintGate :=
  if now < g.cooldown then g
  else if Time.isZero g.since then { g with since := now }
  else if now < g.since then g.revokeHint cfg now .backwards
  else
    let g := { g with bytes := g.bytes + delivered }
    let elapsed := Time.sub now g.since
    if elapsed < windowLength base then g
    else g.evaluate cfg now (windowLength base) elapsed

def observeHint : HintGate :=
  if !cfg.active then g
  else
    match badEvent lost rtt base with
    | some reason => g.revokeHint cfg now reason
    | none => g.collect cfg now delivered base

def target : ℕ :=
  match g.state with
  | .validated => cfg.hint
  | .probing => min (g.recent * 11 / 10) cfg.hint
  | _ => 0

end HintGate

end Outbound.Bbr3
