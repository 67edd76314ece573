import Mathlib.Data.List.TakeDrop
import Outbound.Ciphers.StreamCipher
import Outbound.Socks5.UdpReceive

/-! The UDP connections of Shadowsocks with a stream cipher: a vector, then the encrypted address and
payload, or in transport mode whatever the layer above sends. -/
namespace Outbound.ShadowsocksStream

open Lib Ciphers Socks5 List Option

variable {info : CipherInfo}

def packetTooShort : Error := .errorf "packet too short"

def noAddr : Error := .errorf "no addr present"

def badAddr (err : Error) : Error := .wrap "bad addr" err

variable (info)

def decryptUdp (key data : Bytes) : Except Error Bytes :=
  if data.length < info.ivLen then .error packetTooShort
  else
    match info.newStream key (.ofBytes info.ivLen data) .decrypt with
    | .error err => .error err
    | .ok dec => .ok (info.xorKeyStream dec (data.drop info.ivLen)).1

/-- `decryptAndSplitUdp`; `parseAddrPort` is `netip.ParseAddrPort`. -/
def decryptAndSplitUdp (parseAddrPort : Bytes → UInt16 → Except Error AddrPort)
    (key data : Bytes) : Except Error (Bytes × AddrPort) :=
  match decryptUdp info key data with
  | .error err => .error err
  | .ok body => splitPayload parseAddrPort noAddr badAddr body

def mapReceivedPacket (parseAddrPort : Bytes → UInt16 → Except Error AddrPort)
    (key : Bytes) : ReceivedPacket → ReceivedPacket :=
  mapReceived (decryptAndSplitUdp info parseAddrPort key)

/-- `ReadFrom` of the datagram `w` into a buffer of `l` bytes. -/
def readFrom (parseAddrPort : Bytes → UInt16 → Except Error AddrPort)
    (key w : Bytes) (l : ℕ) : ReadResult :=
  match decryptAndSplitUdp info parseAddrPort key (w.take l) with
  | .error err => .fail err
  | .ok (payload, src) => .ok (payload.take l) src

variable {info}

def sealed (e : info.Stream) (iv : Octets info.ivLen) (body : Bytes) : Bytes :=
  iv.1 ++ (info.xorKeyStream e body).1

section Wire

variable {key : Bytes} {iv : Octets info.ivLen} {e : info.Stream}

theorem length_sealed (e : info.Stream) (iv : Octets info.ivLen) (body : Bytes) :
    (sealed e iv body).length = info.ivLen + body.length := by
  unfold sealed
  simp [iv.2, info.length_xorKeyStream]

theorem decryptUdp_take (he : info.newStream key iv .encrypt = .ok e) (body : Bytes) (l : ℕ) :
    decryptUdp info key ((sealed e iv body).take l) =
      if info.ivLen ≤ l then .ok (body.take (l - info.ivLen)) else .error packetTooShort := by
  obtain ⟨d, hd, hinv⟩ := info.inverts key iv e he
  have hshort : ((sealed e iv body).take l).length < info.ivLen ↔ ¬ info.ivLen ≤ l := by
    rw [length_take, length_sealed]
    omega
  unfold decryptUdp
  by_cases hl : info.ivLen ≤ l
  · have htake : (sealed e iv body).take l =
        iv.1 ++ ((info.xorKeyStream e body).1).take (l - info.ivLen) := by
      unfold sealed
      rw [take_append, take_of_length_le (by rw [iv.2]; exact hl), iv.2]
    have hfront : (info.xorKeyStream d ((info.xorKeyStream e body).1.take (l - info.ivLen))).1 <+:
        body := by
      have h : (through info.xorKeyStream d
          [(info.xorKeyStream e body).1.take (l - info.ivLen)]).1 <+: [body].flatten := by
        apply hinv.through_front
        simpa [through_cons, through_nil] using List.take_prefix _ _
      rwa [through_cons, through_nil, append_nil, flatten_singleton] at h
    rw [if_neg (fun h => hshort.mp h hl), if_pos hl, htake, Octets.ofBytes_append, hd]
    dsimp only
    rw [drop_left' iv.2, prefix_iff_eq_take.mp hfront, info.length_xorKeyStream,
      length_take, info.length_xorKeyStream, ← take_eq_take_min]
  · simp [hl]

end Wire

/-- What is split off is part of the body, and the errors are not those of a dropped datagram. -/
theorem splitPayload_spec (parse : Bytes → UInt16 → Except Error AddrPort) (body : Bytes) :
    match splitPayload parse noAddr badAddr body with
    | .ok (payload, _) => payload.length ≤ body.length
    | .error err => ∀ cause, err ≠ .datagramDropped cause := by
  have hle (addr : Bytes) : (body.drop addr.length).length ≤ body.length := by
    simp
  unfold splitPayload
  cases splitAddr body with
  | none => exact fun _ => Error.noConfusion
  | some addr =>
    dsimp only
    cases addrPort addr with
    | some src => exact hle addr
    | none =>
      cases parse (host addr) (port addr) with
      | ok src => exact hle addr
      | error err => exact fun _ => Error.noConfusion

/-- The result of a read whose errors are untyped is what polling owes only if the payload was found
whole in the buffer. -/
theorem delivers_iff_found {payload : Bytes} {l : ℕ} {src : Except Error AddrPort}
    {push : Option ReceivedPacket} {r : ReadResult} {found : Except Error (Bytes × AddrPort)}
    (hr : match found with
      | .ok (p, s) => r = .ok (p.take l) s ∧ p.length ≤ l
      | .error err => r.err = some err ∧ ∀ cause, err ≠ .datagramDropped cause)
    (hpush : ∀ s, src = .ok s → ∀ p ∈ push, p = ⟨payload, s, none⟩) :
    Delivers payload l src push r ↔ ∃ s, src = .ok s ∧ found = .ok (payload, s) := by
  cases found with
  | error err =>
    obtain ⟨herr, hne⟩ := hr
    constructor
    · rintro ⟨hwhole, hdropped⟩
      by_cases hle : payload.length ≤ l
      · obtain ⟨s, -, hok, -⟩ := hwhole hle
        rw [hok] at herr
        cases herr.symm
      · obtain ⟨cause, hcause⟩ := hdropped (by omega)
        exact absurd (some.inj (herr.symm.trans hcause)) (hne cause)
    · rintro ⟨s, -, hs⟩
      cases hs
  | ok found =>
    obtain ⟨hr, hroom⟩ := hr
    rw [take_of_length_le hroom] at hr
    constructor
    · rintro ⟨hwhole, hdropped⟩
      by_cases hle : payload.length ≤ l
      · obtain ⟨s, hs, hok, -⟩ := hwhole hle
        have heq := hr.symm.trans hok
        exact ⟨s, hs, congrArg Except.ok
          (Prod.ext (congrArg ReadResult.data heq) (congrArg ReadResult.addr heq))⟩
      · obtain ⟨cause, hcause⟩ := hdropped (by omega)
        rw [hr] at hcause
        cases hcause.symm
    · rintro ⟨s, hs, hfound⟩
      cases hfound
      exact ⟨fun _ => ⟨s, hs, hr, hpush s hs⟩, fun hlt => absurd hroom (Nat.not_le.mpr hlt)⟩

theorem splitPayload_take_eq_ok {parse : Bytes → UInt16 → Except Error AddrPort} {a : SocksAddr}
    {payload : Bytes} {k : ℕ} {s : AddrPort} :
    splitPayload parse noAddr badAddr ((a.encode ++ payload).take k) = .ok (payload, s) ↔
      source parse a = .ok s ∧ (a.encode ++ payload).length ≤ k := by
  rw [splitPayload_take, length_append]
  split_ifs with hk
  · cases source parse a with
    | error err => simp
    | ok s' =>
      have htake : payload.take (k - a.encode.length) = payload ↔
          a.encode.length + payload.length ≤ k := by
        rw [take_eq_self_iff]
        omega
      simp only [Except.ok.injEq, Prod.mk.injEq, htake]
      exact and_comm
  · constructor
    · intro h
      cases h
    · rintro ⟨-, hle⟩
      omega

end Outbound.ShadowsocksStream
