import Outbound.Shadowsocksr.AuthChain
import Outbound.ShadowsocksStream.UdpConn

/-! The UDP connection of ShadowsocksR over a stream cipher, which has no push path, and what polling
owes on the three kinds of relays. -/
namespace Outbound.Shadowsocksr

open Lib Ciphers Socks5 ShadowsocksStream List

def Shift128plus.initFromBin (bin : Octets 16) : Shift128plus :=
  ⟨UInt64.ofNat (leNat (bin.1.take 8)), UInt64.ofNat (leNat (bin.1.drop 8))⟩

def authChainAPktGetRandLen (lastHash : Octets 16) : ℕ :=
  ((Shift128plus.initFromBin lastHash).next.1 % 127).toNat

inductive PktProtocol where
  | origin
  | authSHA1v4
  | authAES128 (hmac : Bytes → Bytes → Bytes) (key : Bytes)
  | authChain (env : Env)

def PktProtocol.decodePkt : PktProtocol → Bytes → Except Error Bytes
  | .origin, b => .ok b
  | .authSHA1v4, b => .ok b
  | .authAES128 hmac key, b =>
    if b.length < 4 then .error (.errorf "auth_aes128_* post decrypt length mismatch")
    else if (hmac key (b.take (b.length - 4))).take 4 ≠ b.drop (b.length - 4) then
      .error (.errorf "auth_aes128_* post decrypt incorrect checksum")
    else .ok (b.take (b.length - 4))
  | .authChain env, b =>
    if b.length < 9 then .error (.errorf "auth_chain_* post decrypt length mismatch")
    else if (env.hmac env.userKey (b.take (b.length - 1))).1.take 1 ≠ b.drop (b.length - 1) then
      .error (.errorf "auth_chain_* post decrypt incorrect hmac")
    else
      let md5Data := env.hmac env.key ((b.drop (b.length - 8)).take 7)
      let randDataLength := authChainAPktGetRandLen md5Data
      if b.length < 8 + randDataLength then
        .error (.errorf "auth_chain_* post decrypt length mismatch")
      else
        .ok (Keystream.xorFrom (env.rc4 (env.base64 env.userKey ++ env.base64 md5Data.1)) 0
          (b.take (b.length - 8 - randDataLength)))

/-- `ReadFrom` of the datagram `w` into a buffer of `l` bytes, over the connection in transport
mode. -/
def readFrom (info : CipherInfo) (proto : PktProtocol)
    (parseAddrPort : Bytes → UInt16 → Except Error AddrPort) (key w : Bytes) (l : ℕ) : ReadResult :=
  match decryptUdp info key (w.take l) with
  | .error err => .fail err
  | .ok plain =>
    match proto.decodePkt plain with
    | .error err => ⟨plain, .zero, some err⟩
    | .ok decoded =>
      match splitPayload parseAddrPort noAddr badAddr decoded with
      | .error err => .fail err
      | .ok (payload, src) => .ok (payload.take l) src

/-- The payload and the source address in what the buffer holds of a packet. -/
def PktProtocol.split (proto : PktProtocol) (parse : Bytes → UInt16 → Except Error AddrPort)
    (plain : Bytes) : Except Error (Bytes × AddrPort) :=
  match proto.decodePkt plain with
  | .error err => .error err
  | .ok decoded => splitPayload parse noAddr badAddr decoded

/-- The hash that the padding and the keystream of a packet are made from. -/
def Env.pktHash (env : Env) (b : Bytes) : Octets 16 :=
  env.hmac env.key ((b.drop (b.length - 8)).take 7)

/-- A packet of `auth_chain` cut by the buffer ends in the byte that its checksum has, and under the
keystream that its last bytes give it holds the same payload and address in front of its padding. -/
def Forged (proto : PktProtocol) (parse : Bytes → UInt16 → Except Error AddrPort) (payload : Bytes)
    (s : AddrPort) (cut : Bytes) : Prop :=
  ∃ env, proto = .authChain env ∧ 9 ≤ cut.length ∧
    (env.hmac env.userKey (cut.take (cut.length - 1))).1.take 1 = cut.drop (cut.length - 1) ∧
    8 + authChainAPktGetRandLen (env.pktHash cut) ≤ cut.length ∧
    splitPayload parse noAddr badAddr (Keystream.xorFrom
      (env.rc4 (env.base64 env.userKey ++ env.base64 (env.pktHash cut).1)) 0
      (cut.take (cut.length - 8 - authChainAPktGetRandLen (env.pktHash cut)))) = .ok (payload, s)

variable {proto : PktProtocol}

theorem forged_iff {parse : Bytes → UInt16 → Except Error AddrPort} {payload cut : Bytes}
    {s : AddrPort} : Forged proto parse payload s cut ↔
      (∃ env, proto = .authChain env) ∧ proto.split parse cut = .ok (payload, s) := by
  have hsplit : ∀ env, (PktProtocol.authChain env).split parse cut = .ok (payload, s) ↔
      Forged (.authChain env) parse payload s cut := by
    intro env
    unfold PktProtocol.split PktProtocol.decodePkt Forged
    dsimp only
    split_ifs with hshort hchecksum hpadding
    · simp [hshort]
    · simp [hchecksum]
    · simp [Env.pktHash, hpadding]
    · simp [Env.pktHash, Nat.le_of_not_lt hshort, not_not.mp hchecksum, Nat.le_of_not_lt hpadding]
  constructor
  · intro hforged
    obtain ⟨env, rfl, -⟩ := id hforged
    exact ⟨⟨env, rfl⟩, (hsplit env).mpr hforged⟩
  · rintro ⟨⟨env, rfl⟩, hok⟩
    exact (hsplit env).mp hok

theorem PktProtocol.decodePkt_error {b : Bytes} {err : Error}
    (h : proto.decodePkt b = .error err) (cause : Error) : err ≠ .datagramDropped cause := by
  unfold decodePkt at h
  split at h
  · cases h
  · cases h
  · split_ifs at h <;> cases h <;> exact Error.noConfusion
  · dsimp only at h
    split_ifs at h <;> cases h <;> exact Error.noConfusion

/-- Without the padding of `auth_chain`, a packet cut short decodes to a shorter one if at all. -/
theorem PktProtocol.decodePkt_cut {plain body out : Bytes} {k : ℕ}
    (hproto : ∀ env, proto ≠ .authChain env) (hbody : proto.decodePkt plain = .ok body)
    (hk : k < plain.length) (hout : proto.decodePkt (plain.take k) = .ok out) :
    ∃ j < body.length, out = body.take j := by
  cases proto with
  | origin =>
    cases hbody
    exact ⟨k, hk, (Except.ok.inj hout).symm⟩
  | authSHA1v4 =>
    cases hbody
    exact ⟨k, hk, (Except.ok.inj hout).symm⟩
  | authAES128 hmac key =>
    simp only [decodePkt] at hbody hout
    split_ifs at hbody hout with h₁ h₂ h₃ h₄
    cases hbody
    cases hout
    have hlen : (plain.take k).length = k := length_take_of_le hk.le
    rw [hlen] at h₃ ⊢
    refine ⟨k - 4, ?_, ?_⟩
    · rw [length_take]
      omega
    · rw [take_take, take_take, Nat.min_eq_left (by omega), Nat.min_eq_left (by omega)]
  | authChain env => exact absurd rfl (hproto env)

theorem PktProtocol.length_decodePkt {b out : Bytes}
    (h : proto.decodePkt b = .ok out) : out.length ≤ b.length := by
  unfold decodePkt at h
  split at h
  · cases h
    exact le_refl _
  · cases h
    exact le_refl _
  · split_ifs at h
    cases h
    exact (take_sublist _ _).length_le
  · dsimp only at h
    split_ifs at h
    cases h
    simp

section Polling

variable {info : CipherInfo} {key : Bytes} {iv : Octets info.ivLen} {e : info.Stream}
  {parse : Bytes → UInt16 → Except Error AddrPort} {plain payload : Bytes} {a : SocksAddr}

theorem split_take_eq_ok (hdec : proto.decodePkt plain = .ok (a.encode ++ payload)) {s : AddrPort}
    (hs : source parse a = .ok s) (k : ℕ) :
    proto.split parse (plain.take k) = .ok (payload, s) ↔
      plain.length ≤ k ∨ Forged proto parse payload s (plain.take k) := by
  by_cases hk : plain.length ≤ k
  · have hwhole : proto.split parse plain = .ok (payload, s) := by
      unfold PktProtocol.split
      rw [hdec]
      dsimp only
      rw [splitPayload_encode, hs]
    rw [take_of_length_le hk]
    exact ⟨fun _ => .inl hk, fun _ => hwhole⟩
  constructor
  · intro hsplit
    refine .inr (forged_iff.mpr ⟨?_, hsplit⟩)
    by_contra hchain
    unfold PktProtocol.split at hsplit
    cases hout : proto.decodePkt (plain.take k) with
    | error err =>
      rw [hout] at hsplit
      cases hsplit
    | ok out =>
      obtain ⟨j, hj, rfl⟩ := PktProtocol.decodePkt_cut (fun env h => hchain ⟨env, h⟩) hdec
        (Nat.not_le.mp hk) hout
      rw [hout] at hsplit
      have hle := (splitPayload_take_eq_ok.mp hsplit).2
      omega
  · rintro (hle | hforged)
    · exact absurd hle hk
    · exact (forged_iff.mp hforged).2

theorem delivers_iff (he : info.newStream key iv .encrypt = .ok e)
    (hdec : proto.decodePkt plain = .ok (a.encode ++ payload)) {push : Option ReceivedPacket}
    (hpush : ∀ s, source parse a = .ok s → ∀ p ∈ push, p = ⟨payload, s, none⟩) (l : ℕ) :
    Delivers payload l (source parse a) push
        (readFrom info proto parse key (sealed e iv plain) l) ↔
      ∃ s, source parse a = .ok s ∧ ((sealed e iv plain).length ≤ l ∨
        info.ivLen ≤ l ∧ Forged proto parse payload s (plain.take (l - info.ivLen))) := by
  have hlen := length_sealed e iv plain
  have hiff : (∃ s, source parse a = .ok s ∧ (if info.ivLen ≤ l then
        proto.split parse (plain.take (l - info.ivLen)) else .error packetTooShort) =
          .ok (payload, s)) ↔
      ∃ s, source parse a = .ok s ∧ ((sealed e iv plain).length ≤ l ∨
        info.ivLen ≤ l ∧ Forged proto parse payload s (plain.take (l - info.ivLen))) := by
    apply exists_congr
    intro s
    apply and_congr_right
    intro hs
    split_ifs with hiv
    · rw [split_take_eq_ok hdec hs]
      apply or_congr
      · omega
      · exact (and_iff_right hiv).symm
    · constructor
      · nofun
      · rintro (hle | ⟨hle, -⟩) <;> omega
  refine (delivers_iff_found ?_ hpush).trans hiff
  unfold readFrom
  rw [decryptUdp_take he]
  split_ifs with hiv
  · unfold PktProtocol.split
    dsimp only
    cases hout : proto.decodePkt (plain.take (l - info.ivLen)) with
    | error err => exact ⟨rfl, proto.decodePkt_error hout⟩
    | ok out =>
      have hspec := splitPayload_spec parse out
      have hroom := proto.length_decodePkt hout
      rw [length_take] at hroom
      dsimp only
      cases hsplit : splitPayload parse noAddr badAddr out with
      | error err =>
        rw [hsplit] at hspec
        exact ⟨rfl, hspec⟩
      | ok found =>
        rw [hsplit] at hspec
        exact ⟨rfl, by omega⟩
  · exact ⟨rfl, fun _ => Error.noConfusion⟩

theorem readFrom_origin (w : Bytes) (l : ℕ) :
    readFrom info .origin parse key w l = ShadowsocksStream.readFrom info parse key w l := by
  unfold readFrom ShadowsocksStream.readFrom decryptAndSplitUdp
  cases decryptUdp info key (w.take l) <;> rfl

/-- Without a protocol, polling does what it owes exactly for datagrams that fit into the buffer,
vector and address included, and have an address. -/
theorem stream_delivers_iff (he : info.newStream key iv .encrypt = .ok e) (src : AddrPort) (l : ℕ) :
    Delivers payload l (source parse a)
        (some (mapReceivedPacket info parse key ⟨sealed e iv (a.encode ++ payload), src, none⟩))
        (ShadowsocksStream.readFrom info parse key (sealed e iv (a.encode ++ payload)) l) ↔
      (∃ s, source parse a = .ok s) ∧ (sealed e iv (a.encode ++ payload)).length ≤ l := by
  rw [← readFrom_origin, delivers_iff he rfl]
  · have hforged (s : AddrPort) (cut : Bytes) : ¬ Forged .origin parse payload s cut := by
      rintro ⟨env, h, -⟩
      cases h
    simp [hforged]
  · intro s hs p hp
    rw [← Option.some.inj hp]
    apply mapReceived_of_ok
    have hwhole := decryptUdp_take he (a.encode ++ payload) (sealed e iv (a.encode ++ payload)).length
    rw [take_length, length_sealed, if_pos (Nat.le_add_right _ _), Nat.add_sub_cancel_left,
      take_length] at hwhole
    unfold decryptAndSplitUdp
    rw [hwhole]
    dsimp only
    rw [splitPayload_encode, hs]

end Polling

/-- Polling returns the payload of a relayed datagram with its source address, as the push path
does, or reports a drop, exactly when the whole datagram fits into the caller's buffer and has an
address. A SOCKS5 relay also reports the drop where the header is cut as well, and a packet of
`auth_chain` that is cut may by chance decode to the same. -/
theorem polling_delivers_iff (info : CipherInfo) (key : Bytes) (iv : Octets info.ivLen)
    (e : info.Stream) (he : info.newStream key iv .encrypt = .ok e) (proto : PktProtocol)
    (resolve parse : Bytes → UInt16 → Except Error AddrPort) (r₀ r₁ : UInt8) (a : SocksAddr)
    (payload plain : Bytes) (hdec : proto.decodePkt plain = .ok (a.encode ++ payload))
    (src : AddrPort) (l : ℕ) :
    (Delivers payload l (source resolve a)
        (some (mapReceivedPacket resolve ⟨datagram r₀ r₁ a payload, src, none⟩))
        (Socks5.readFrom resolve (datagram r₀ r₁ a payload) l) ↔
      ((∃ s, source resolve a = .ok s) ∧ (datagram r₀ r₁ a payload).length ≤ l) ∨
      (l < payload.length ∧ (l < a.encode.length + 3 ∨ ∀ s, source resolve a ≠ .ok s))) ∧
    (Delivers payload l (source parse a)
        (some (mapReceivedPacket info parse key
          ⟨sealed e iv (a.encode ++ payload), src, none⟩))
        (ShadowsocksStream.readFrom info parse key (sealed e iv (a.encode ++ payload)) l) ↔
      (∃ s, source parse a = .ok s) ∧ (sealed e iv (a.encode ++ payload)).length ≤ l) ∧
    (Delivers payload l (source parse a) none
        (readFrom info proto parse key (sealed e iv plain) l) ↔
      ∃ s, source parse a = .ok s ∧ ((sealed e iv plain).length ≤ l ∨
        info.ivLen ≤ l ∧ Forged proto parse payload s (plain.take (l - info.ivLen)))) := by
  refine ⟨?_, ?_, ?_⟩
  · exact Socks5.delivers_iff resolve r₀ r₁ a payload src l
  · exact stream_delivers_iff he src l
  · exact delivers_iff he hdec (fun s _ p hp => absurd hp (Option.not_mem_none p)) l

/-- A reply of five bytes from `8.8.8.8:53`, under a cipher that leaves the bytes as they are. -/
def replyAddr : SocksAddr := .ipv4 ⟨[8, 8, 8, 8], rfl⟩ 53

def replyCipher : CipherInfo := keystreamInfo 1 fun _ _ _ => 0

def unresolved (_ : Bytes) (_ : UInt16) : Except Error AddrPort := .error (.errorf "no such host")

theorem polling_delivers_fitting :
    let w := replyAddr.encode ++ [1, 2, 3, 4, 5]
    let e : replyCipher.Stream := (fun _ => 0, 0)
    let src : AddrPort := ⟨.v4 ⟨[8, 8, 8, 8], rfl⟩, 53⟩
    Delivers [1, 2, 3, 4, 5] 16 (.ok src)
        (some (mapReceivedPacket unresolved
          ⟨datagram 0 0 replyAddr [1, 2, 3, 4, 5], .zero, none⟩))
        (Socks5.readFrom unresolved (datagram 0 0 replyAddr [1, 2, 3, 4, 5]) 16) ∧
      Delivers [1, 2, 3, 4, 5] 16 (.ok src) none
        (readFrom replyCipher .origin unresolved [] (sealed e ⟨[7], rfl⟩ w) 16) := by
  have h := polling_delivers_iff replyCipher [] ⟨[7], rfl⟩ (fun _ => 0, 0) rfl .origin unresolved
    unresolved 0 0 replyAddr [1, 2, 3, 4, 5] (replyAddr.encode ++ [1, 2, 3, 4, 5]) rfl .zero 16
  constructor
  · exact h.1.mpr (.inl ⟨⟨_, rfl⟩, by decide⟩)
  · exact h.2.2.mpr ⟨_, rfl, .inl (by decide)⟩

/-- With room for twelve bytes all three return a part of the five as the datagram. -/
theorem polling_truncates :
    let w := replyAddr.encode ++ [1, 2, 3, 4, 5]
    let e : replyCipher.Stream := (fun _ => 0, 0)
    let src : AddrPort := ⟨.v4 ⟨[8, 8, 8, 8], rfl⟩, 53⟩
    Socks5.readFrom unresolved (datagram 0 0 replyAddr [1, 2, 3, 4, 5]) 12 = .ok [1, 2] src ∧
      ShadowsocksStream.readFrom replyCipher unresolved [] (sealed e ⟨[7], rfl⟩ w) 12 =
        .ok [1, 2, 3, 4] src ∧
      readFrom replyCipher .origin unresolved [] (sealed e ⟨[7], rfl⟩ w) 12 =
        .ok [1, 2, 3, 4] src := by
  refine ⟨?_, ?_, ?_⟩ <;> rfl

end Outbound.Shadowsocksr
