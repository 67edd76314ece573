import Mathlib.Data.Rat.Defs

/-! The quantities that the congestion controllers compute with. Counts of bytes and durations are
whole numbers; where a product of the source can leave the range of a 64-bit word it is wrapped. -/
namespace Outbound.Bbr

abbrev ByteCount := ℤ

abbrev Duration := ℤ

/-- `time.Time`, in nanoseconds after the zero time. -/
abbrev Time := ℤ

def Time.isZero (t : Time) : Bool := t == 0

def maxDuration : Duration := 9223372036854775807

def minDuration : Duration := -9223372036854775808

def Time.sub (t u : Time) : Duration := max minDuration (min maxDuration (t - u))

theorem Time.sub_of_le {t u : Time} (h : u ≤ t) : 0 ≤ t.sub u ∧ t.sub u ≤ t - u := by
  have hclamp : ∀ d : ℤ, 0 ≤ d →
      0 ≤ max (-9223372036854775808 : ℤ) (min 9223372036854775807 d) ∧
        max (-9223372036854775808 : ℤ) (min 9223372036854775807 d) ≤ d := by omega
  exact hclamp (t - u) (Int.sub_nonneg_of_le h)

theorem Time.sub_mono {t t' : Time} (h : t ≤ t') (u : Time) : t.sub u ≤ t'.sub u := by
  unfold Time.sub
  lia

def millisecond : Duration := 1000000

def second : Duration := 1000000000

/-- What is left of a number in a signed 64-bit word. -/
def wrap64 (x : ℤ) : ℤ := x.bmod 18446744073709551616

theorem wrap64_of_le {x : ℤ} (hx : 0 ≤ x) (hle : x ≤ maxDuration) : wrap64 x = x := by
  have hmax : x ≤ (9223372036854775807 : ℤ) := hle
  exact Int.bmod_eq_of_le (by omega) (by omega)

abbrev Bandwidth := UInt64

def infBandwidth : Bandwidth := 18446744073709551615

def infRTT : Duration := maxDuration

def bytesPerSecond : Bandwidth := 8

def bandwidthFromDelta (bytes : ByteCount) (delta : Duration) : Bandwidth :=
  UInt64.ofInt bytes * 1000000000 / UInt64.ofInt delta * bytesPerSecond

def Bandwidth.toBytes (b : Bandwidth) : ByteCount := b.toInt64.toInt

def bytesFromBandwidthAndTimeDelta (bandwidth : Bandwidth) (delta : Duration) : ByteCount :=
  (wrap64 (bandwidth.toBytes * delta)).tdiv (second * 8)

def bdpFromRttAndBandwidth (rtt : Duration) (bandwidth : Bandwidth) : ByteCount :=
  ((wrap64 (rtt * bandwidth.toBytes)).tdiv bytesPerSecond.toBytes).tdiv second

/-- How the processor multiplies a gain with a whole number and converts the product back. -/
abbrev Scale := ℚ → ℤ → ℤ

def exactScale : Scale := fun g x => (g * x).floor

end Outbound.Bbr
