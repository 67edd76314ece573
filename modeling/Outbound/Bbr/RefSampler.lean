import Outbound.Bbr.BandwidthSampler

/-! The delivery-rate estimator that the experimental sender shares with the reference one. -/
namespace Outbound.Bbr

structure RefSampler where
  sampler : BandwidthSampler
  maxBandwidth : WindowedFilter Bandwidth UInt64

structure RefSample where
  bandwidth : Bandwidth
  rtt : Duration
  appLimited : Bool
  extraAcked : ByteCount
  sample : Bandwidth

def newRefSampler (quic : QuicConfig) (windowRounds : UInt64) : RefSampler :=
  ⟨newBandwidthSampler quic windowRounds, .new windowRounds maxFilter⟩

namespace RefSampler

def onPacketSent (r : RefSampler) (sentTime : Time) (packetNumber : Int64)
    (bytes bytesInFlight : ByteCount) (isRetransmittable : Bool) : Option RefSampler := do
  let sampler ← r.sampler.onPacketSent sentTime packetNumber bytes bytesInFlight isRetransmittable
  some { r with sampler := sampler }

/-- The filter takes a sample of an event that acknowledged something, unless the sample is limited
by the application and no new maximum. -/
def takeSample (r : RefSampler) (event : CongestionEventSample) (totalAckedBefore : ByteCount)
    (round : UInt64) : RefSampler :=
  if r.sampler.totalBytesAcked ≠ totalAckedBefore ∧
      (!event.sampleIsAppLimited ∨ r.maxBandwidth.getBest < event.sampleMaxBandwidth) then
    { r with maxBandwidth := r.maxBandwidth.update event.sampleMaxBandwidth round }
  else r

def onCongestionEvent (r : RefSampler) (ackTime : Time) (ackedPackets : List AckedPacketInfo)
    (lostPackets : List LostPacketInfo) (round : UInt64) : Option (RefSample × RefSampler) := do
  let totalAckedBefore := r.sampler.totalBytesAcked
  let (event, sampler) ← r.sampler.onCongestionEvent exactScale ackTime ackedPackets lostPackets
    r.maxBandwidth.getBest infBandwidth round
  let r := { r with sampler := sampler }.takeSample event totalAckedBefore round
  some (⟨r.maxBandwidth.getBest, event.sampleRtt, event.sampleIsAppLimited, event.extraAcked,
    event.sampleMaxBandwidth⟩, r)

def maxBandwidthBytesPerSecond (r : RefSampler) : UInt64 := r.maxBandwidth.getBest / bytesPerSecond

def totalBytesAcked (r : RefSampler) : ByteCount := r.sampler.totalBytesAcked

def onAppLimited (r : RefSampler) : RefSampler := { r with sampler := r.sampler.onAppLimited }

end RefSampler

end Outbound.Bbr
