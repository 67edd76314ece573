import Outbound.Bbr.Accounting
import Outbound.Bbr.Sender

/-! The stack reports the bytes in flight with the packet being sent already counted. The sampler
and the sender take the report for the bytes in flight before that packet. -/
namespace Outbound.Bbr

def BandwidthSampler.inFlight (b : BandwidthSampler) : ByteCount :=
  b.totalBytesSent - b.totalBytesAcked - b.totalBytesLost

/-- What a retransmittable packet `pn` sent at `sentTime` should leave behind: its record holds the
bytes in flight with the packet, and if it is alone in flight the sampler measures from it on and
the sender knows that it was quiescent. -/
structure SendNoticed (s s' : BbrSender) (sentTime : Time) (pn : Int64) : Prop where
  record : ∃ e, s'.sampler.connectionStateMap.getEntry pn = some (some e) ∧
    e.sendTimeState.bytesInFlight = s'.sampler.inFlight
  anchor : s.sampler.inFlight = 0 →
    s'.sampler.totalBytesSentAtLastAckedPacket = s'.sampler.totalBytesSent ∧
      s'.sampler.lastAckedPacketSentTime = sentTime ∧ s'.sampler.lastAckedPacketAckTime = sentTime
  quiescence : s.sampler.inFlight = 0 → s'.exitingQuiescence = true

theorem inFlight_opened (b : BandwidthSampler) (sentTime : Time) (pn : Int64)
    (bytes bytesInFlight : ByteCount) :
    (b.opened sentTime pn bytes bytesInFlight).inFlight = b.inFlight + bytes := by
  have htotals : (b.opened sentTime pn bytes bytesInFlight).inFlight =
      b.totalBytesSent + bytes - b.totalBytesAcked - b.totalBytesLost := by
    unfold BandwidthSampler.opened BandwidthSampler.anchor BandwidthSampler.inFlight
    split_ifs <;> rfl
  rw [htotals, add_sub_right_comm, add_sub_right_comm]
  rfl

/-- After any run of a sampler, a retransmittable packet reported by the convention of the stack
leaves behind what it should just when it is empty. -/
theorem send_noticed_iff (scale : Scale) (quic : QuicConfig) (windowLength : UInt64)
    (events : List SamplerEvent) (hallows : Ledger.AllowsRun (sendRecordBudget quic) .new events) :
    ∃ b, (newBandwidthSampler quic windowLength).run scale events = some b ∧
      ∀ (s : BbrSender) (sentTime : Time) (pn : Int64) (bytes : ByteCount), s.sampler = b →
        (Ledger.new.run events).Allows (sendRecordBudget quic)
          (.sent sentTime pn bytes (b.inFlight + bytes) true) →
        ∃ s', s.onPacketSent scale quic sentTime (b.inFlight + bytes) pn bytes true = some s' ∧
          (SendNoticed s s' sentTime pn ↔ bytes = 0) := by
  obtain ⟨htracks, hsettled⟩ := Tracks.new quic windowLength
  have hmax := maxSlots_newBandwidthSampler quic windowLength
  rw [← hmax] at hallows
  obtain ⟨b, hrun, hslots, hb, hs⟩ := Tracks.run scale events htracks hsettled hallows
  refine ⟨b, hrun, ?_⟩
  rintro s sentTime pn bytes rfl ⟨hlt, hspan⟩
  rw [← hmax, ← hslots] at hspan
  obtain ⟨q, hsent, -, hrecords, -, hlook⟩ := hb.onPacketSent_record hs sentTime pn bytes
    (s.sampler.inFlight + bytes) hlt (hspan rfl)
  rw [BbrSender.onPacketSent, hsent]
  refine ⟨_, rfl, ?_⟩
  constructor
  · rintro ⟨⟨e, he, hvalue⟩, -, -⟩
    rw [hrecords.good.getEntry_eq, hlook, Option.some.injEq, Option.some.injEq] at he
    subst he
    change s.sampler.inFlight + bytes + bytes =
      (s.sampler.opened sentTime pn bytes (s.sampler.inFlight + bytes)).inFlight at hvalue
    rw [inFlight_opened] at hvalue
    exact add_eq_left.mp hvalue
  · rintro rfl
    refine ⟨⟨_, by rw [hrecords.good.getEntry_eq, hlook], ?_⟩, ?_, ?_⟩
    · change s.sampler.inFlight + 0 + 0 =
        (s.sampler.opened sentTime pn 0 (s.sampler.inFlight + 0)).inFlight
      simp [inFlight_opened]
    · intro hzero
      rw [hzero]
      exact ⟨rfl, rfl, rfl⟩
    · intro hzero
      simp [hzero]

theorem send_noticed_iff_sample :
    ∃ b, (newBandwidthSampler sampleQuic 10).run exactScale sampleReports = some b ∧
      ∃ s', ((newBbrSender sampleQuic 1200).setSampler b).onPacketSent exactScale sampleQuic 7
          (b.inFlight + 1100) 6 1100 true = some s' ∧
        ¬ SendNoticed ((newBbrSender sampleQuic 1200).setSampler b) s' 7 6 := by
  obtain ⟨b, hrun, hsends⟩ := send_noticed_iff exactScale sampleQuic 10 sampleReports (by decide)
  obtain ⟨s', hsent, hiff⟩ := hsends ((newBbrSender sampleQuic 1200).setSampler b) 7 6 1100 rfl
    ⟨by decide, fun _ => by decide⟩
  exact ⟨b, hrun, s', hsent, fun h => absurd (hiff.mp h) (by decide)⟩

theorem first_packet_unnoticed :
    ∃ s', (newBbrSender sampleQuic 1200).onPacketSent exactScale sampleQuic 7 1200 1 1200 true =
        some s' ∧
      s'.sampler.inFlight = 1200 ∧
      ((s'.sampler.connectionStateMap.getEntry 1).bind id).map
        (fun e => e.sendTimeState.bytesInFlight) = some 2400 ∧
      s'.sampler.lastAckedPacketSentTime = 0 ∧ s'.sampler.totalBytesSentAtLastAckedPacket = 0 ∧
      s'.exitingQuiescence = false := by
  have hrun : ((newBbrSender sampleQuic 1200).onPacketSent exactScale sampleQuic 7 1200 1 1200
      true).map (fun s' => (s'.sampler.inFlight,
        ((s'.sampler.connectionStateMap.getEntry 1).bind id).map
          (fun e => e.sendTimeState.bytesInFlight),
        s'.sampler.lastAckedPacketSentTime, s'.sampler.totalBytesSentAtLastAckedPacket,
        s'.exitingQuiescence)) = some (1200, some 2400, 0, 0, false) := by
    decide +kernel
  obtain ⟨s', hs', hvalues⟩ := Option.map_eq_some_iff.mp hrun
  simp only [Prod.mk.injEq] at hvalues
  exact ⟨s', hs', hvalues⟩

end Outbound.Bbr
