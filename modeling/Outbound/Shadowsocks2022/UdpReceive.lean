import Outbound.Shadowsocks2022.Packet

/-! Polling and push receive of Shadowsocks 2022 UDP against the datagrams a server sends: when
the receive buffer, sized from the caller's, holds a whole datagram. -/
namespace Outbound.Shadowsocks2022

open Lib List Option SocksAddr

def decodePacket (core : Core) (cache : CipherCache) (admits : Opened → Bool) (buf : Bytes)
    (now : ℤ) : Except Error (Bytes × AddrPort) :=
  match (openPacket core cache buf now).1 with
  | .error err => .error err
  | .ok d => if admits d then .ok (d.payload, d.addr) else .error (.sentinel .replayAttack)

def mapReceivedPacket (core : Core) (cache : CipherCache) (admits : Opened → Bool)
    (packet : ReceivedPacket) (now : ℤ) : ReceivedPacket :=
  if packet.err ≠ none then packet
  else
    match decodePacket core cache admits packet.data now with
    | .error err => { packet with err := some err, data := [] }
    | .ok (payload, addr) => { packet with data := payload, src := addr }

section ReadFrom

variable (core : Core) (cache : CipherCache) (admits : Opened → Bool)
  (read : ℕ → Except Error Bytes) (now : ℤ)

/-- The ChaCha polling path for a caller buffer of `n` bytes; `read` is the underlay. -/
def readFromChacha (n : ℕ) : ReadResult :=
  match core.sessionCipher with
  | .error err => .fail (.wrap "failed to create session cipher" err)
  | .ok _ =>
    match read (n + udpPacketNonceSize + core.tagLen + 320) with
    | .error err => .fail err
    | .ok buf =>
      match decodePacket core cache admits buf now with
      | .error err => .fail err
      | .ok (payload, addr) =>
        if n < payload.length then .dropped addr else .ok (payload.take n) addr

def readFrom (n : ℕ) : ReadResult :=
  if core.usingBlockCipher = false then readFromChacha core cache admits read now n
  else
    match read (n + 16 + core.tagLen) with
    | .error err => .fail err
    | .ok buf =>
      match decodePacket core cache admits buf now with
      | .error err => .fail err
      | .ok (payload, addr) => .ok (payload.take n) addr

end ReadFrom

structure ServerMessage where
  sessionID : SessionID
  packetID : BitVec 64
  timestamp : Int64
  clientSessionID : SessionID
  padding : Bytes
  padding_lt : padding.length < 65536
  addr : SocksAddr
  payload : Bytes

namespace ServerMessage

variable (m : ServerMessage)

def separateHeader : Bytes := m.sessionID.1 ++ beBytes 8 m.packetID.toNat

def body : Bytes :=
  (headerTypeServerStream :: (beBytes 8 m.timestamp.toUInt64.toNat ++ m.clientSessionID.1)) ++
    (beBytes 2 m.padding.length ++ (m.padding ++ (m.addr.encode ++ m.payload)))

theorem length_separateHeader : m.separateHeader.length = 16 := by
  simp [separateHeader, m.sessionID.2, length_beBytes]

theorem length_body :
    m.body.length = fixedHeaderLen + m.padding.length + m.addr.encode.length + m.payload.length := by
  simp only [body, length_cons, length_append, length_beBytes, m.clientSessionID.2, fixedHeaderLen]
  omega

theorem headerTimestamp_body : headerTimestamp m.body = m.timestamp := by
  have hbytes : (m.body.drop 1).take 8 = beBytes 8 m.timestamp.toUInt64.toNat := by
    simp [body]
  rw [headerTimestamp, hbytes, beNat_beBytes_of_lt (UInt64.toNat_lt _)]
  change Int64.ofUInt64 (UInt64.ofNat m.timestamp.toUInt64.toNat) = m.timestamp
  simp

theorem paddingLength_body : beNat ((m.body.drop 17).take 2) = m.padding.length := by
  have hlen : (headerTypeServerStream ::
      (beBytes 8 m.timestamp.toUInt64.toNat ++ m.clientSessionID.1)).length = 17 := by
    simp [m.clientSessionID.2]
  rw [body, drop_left' hlen, take_left' (length_beBytes _ _)]
  exact beNat_beBytes_of_lt m.padding_lt

theorem drop_padding_body :
    m.body.drop (fixedHeaderLen + m.padding.length) = m.addr.encode ++ m.payload := by
  have hlen : ((headerTypeServerStream ::
      (beBytes 8 m.timestamp.toUInt64.toNat ++ m.clientSessionID.1)) ++
        (beBytes 2 m.padding.length ++ m.padding)).length = fixedHeaderLen + m.padding.length := by
    simp only [length_append, length_cons, length_beBytes, m.clientSessionID.2, fixedHeaderLen]
    omega
  rw [body, ← append_assoc (beBytes _ _), ← append_assoc, drop_left' hlen]

end ServerMessage

variable {addr : AddrPort}

theorem parseAddrPort_encode {a : SocksAddr} (h : a.addrPort = some addr)
    (rest : Bytes) : parseAddrPort (a.encode ++ rest) = .ok (addr, a.encode.length) := by
  cases a with
  | ipv4 ip port =>
    cases h
    have hport : ((ip.1 ++ beBytes 2 port.toNat ++ rest).drop 4).take 2 = beBytes 2 port.toNat := by
      rw [append_assoc, drop_left' ip.2, take_left' (length_beBytes _ _)]
    have hlen : ¬ (encode (.ipv4 ip port) ++ rest).length < 1 + 4 + 2 := by
      simp only [encode, length_append, length_cons, ip.2, length_beBytes]
      omega
    rw [encode, cons_append] at hlen ⊢
    rw [parseAddrPort, if_pos rfl, if_neg hlen, drop_succ_cons, drop_zero,
      drop_succ_cons, hport, beNat_beBytes_of_lt port.toNat_lt, append_assoc,
      Octets.ofBytes_append, UInt16.ofNat_toNat]
    simp [ip.2]
  | ipv6 ip port =>
    cases h
    have hport : ((ip.1 ++ beBytes 2 port.toNat ++ rest).drop 16).take 2 = beBytes 2 port.toNat := by
      rw [append_assoc, drop_left' ip.2, take_left' (length_beBytes _ _)]
    have hlen : ¬ (encode (.ipv6 ip port) ++ rest).length < 1 + 16 + 2 := by
      simp only [encode, length_append, length_cons, ip.2, length_beBytes]
      omega
    rw [encode, cons_append] at hlen ⊢
    rw [parseAddrPort, if_neg (by decide), if_pos rfl, if_neg hlen, drop_succ_cons,
      drop_zero, drop_succ_cons, hport, beNat_beBytes_of_lt port.toNat_lt,
      append_assoc, Octets.ofBytes_append, UInt16.ofNat_toNat]
    simp [ip.2]
  | domain name short port => simp [addrPort] at h

theorem parseAddrPort_domain (name : Bytes) (short : name.length < 256) (port : UInt16)
    (rest : Bytes) : parseAddrPort ((domain name short port).encode ++ rest) =
      .error (.errorf s!"unsupported address type for UDP: {addressTypeDomain}") := by
  rw [encode, cons_append, parseAddrPort, if_neg (by decide), if_neg (by decide)]

def ServerMessage.Timely (m : ServerMessage) (now : ℤ) : Prop :=
  now - timestampTolerance ≤ timeUnix m.timestamp ∧
    timeUnix m.timestamp ≤ now + timestampTolerance

variable {m : ServerMessage} {now : ℤ}

theorem decodePacketPayload_body (ht : m.Timely now) :
    decodePacketPayload m.body now =
      match parseAddrPort (m.addr.encode ++ m.payload) with
      | .error err => .error err
      | .ok (addr, addrLen) => .ok ((m.addr.encode ++ m.payload).drop addrLen, addr) := by
  have hlen := m.length_body
  have hvalid : validateTimestamp (timeUnix m.timestamp) now = .ok () := by
    rw [validateTimestamp, if_neg]
    have := ht.1
    have := ht.2
    omega
  have hdrop : ∀ n, m.body.drop (fixedHeaderLen + m.padding.length + n) =
      (m.addr.encode ++ m.payload).drop n := by
    intro n
    rw [← drop_drop, m.drop_padding_body]
  unfold decodePacketPayload
  rw [if_neg (by omega)]
  rw [m.paddingLength_body, if_neg (by omega), if_neg (fun h => h rfl), m.headerTimestamp_body,
    hvalid, m.drop_padding_body]
  cases parseAddrPort (m.addr.encode ++ m.payload) with
  | error err => rfl
  | ok r => exact congrArg (fun p => Except.ok (p, r.1)) (hdrop r.2)

theorem decodePacketPayload_ip (ht : m.Timely now) (ha : m.addr.addrPort = some addr) :
    decodePacketPayload m.body now = .ok (m.payload, addr) := by
  rw [decodePacketPayload_body ht, parseAddrPort_encode ha]
  exact congrArg (fun p => Except.ok (p, addr)) (drop_left' rfl)

def CipherCache.Ok (core : Core) (cache : CipherCache) : Prop :=
  ∀ e ∈ cache, core.createCipher e.1 = .ok e.2

variable {cache : CipherCache} {core : Core} {cipher : Aead}

theorem decryptCipherFor_ok (h : cache.Ok core)
    {sessionID : SessionID} (hc : core.createCipher sessionID = .ok cipher) :
    (decryptCipherFor core cache sessionID).1 = .ok cipher ∧
      (decryptCipherFor core cache sessionID).2.Ok core := by
  unfold decryptCipherFor
  split
  · next cached hlook =>
    obtain ⟨l₁, l₂, heq, -⟩ := lookup_eq_some_iff.mp hlook
    have hcached := h (sessionID, cached) (by simp [heq])
    rw [hc] at hcached
    exact ⟨hcached.symm, h⟩
  · rw [hc]
    refine ⟨rfl, ?_⟩
    intro e he
    rcases mem_cons.mp he with rfl | he
    · exact hc
    · split_ifs at he
      · exact h e (mem_of_mem_drop he)
      · exact h e he

/-- The encrypted form of a message, and that its ciphertext does not open when cut short. -/
inductive Sealed (core : Core) (m : ServerMessage) : Bytes → Prop
  | block (header : Octets 16) (cipher : Aead) : core.usingBlockCipher = true →
    (core.blockCipherDecrypt header).1 = m.separateHeader →
    core.createCipher m.sessionID = .ok cipher →
    cipher.RejectsTruncated (m.separateHeader.drop 4) m.body →
    Sealed core m (header.1 ++ cipher.sealText (m.separateHeader.drop 4) m.body)
  | chacha (nonce : Octets udpPacketNonceSize) (cipher : Aead) : core.usingBlockCipher = false →
    core.sessionCipher = .ok cipher →
    cipher.RejectsTruncated nonce.1 (m.separateHeader ++ m.body) →
    Sealed core m (nonce.1 ++ cipher.sealText nonce.1 (m.separateHeader ++ m.body))

/-- How much of the datagram the polling path makes room for. -/
def receiveBufferLen (core : Core) (n : ℕ) : ℕ :=
  if core.usingBlockCipher then n + 16 + core.tagLen
  else n + udpPacketNonceSize + core.tagLen + 320

/-- The encrypted message fits the receive buffer of a caller buffer of `n` bytes. -/
def Fits (core : Core) (m : ServerMessage) (n : ℕ) : Prop :=
  if core.usingBlockCipher then
    fixedHeaderLen + m.padding.length + m.addr.encode.length + m.payload.length ≤ n
  else
    16 + fixedHeaderLen + m.padding.length + m.addr.encode.length + m.payload.length ≤ n + 320

instance (core : Core) (m : ServerMessage) (n : ℕ) : Decidable (Fits core m n) :=
  inferInstanceAs (Decidable (ite _ _ _))

variable (m)

theorem sessionID_separateHeader (rest : Bytes) :
    Octets.ofBytes 8 (m.separateHeader ++ rest) = m.sessionID := by
  simp [ServerMessage.separateHeader, Octets.ofBytes_append]

theorem packetID_separateHeader (rest : Bytes) :
    BitVec.ofNat 64 (beNat (((m.separateHeader ++ rest).drop 8).take 8)) = m.packetID := by
  rw [ServerMessage.separateHeader, append_assoc, drop_left' m.sessionID.2,
    take_left' (length_beBytes _ _), beNat_beBytes_of_lt m.packetID.isLt, BitVec.ofNat_toNat,
    BitVec.setWidth_eq]

variable {m}

theorem openPacket_block {header : Octets 16} (hblock : core.usingBlockCipher = true)
    (hheader : (core.blockCipherDecrypt header).1 = m.separateHeader)
    (hcipher : core.createCipher m.sessionID = .ok cipher) (hcache : cache.Ok core) (text : Bytes)
    (now : ℤ) :
    (openPacket core cache (header.1 ++ text) now).1 =
      (cipher.openText (m.separateHeader.drop 4) text).elim
        (.error (.sentinel .authenticationFailed))
        fun payload => decodeOpened m.sessionID m.packetID payload now := by
  have hsid := sessionID_separateHeader m []
  have hpid := packetID_separateHeader m []
  rw [append_nil] at hsid hpid
  rw [take_of_length_le (by rw [length_drop, m.length_separateHeader])] at hpid
  have hkey := (decryptCipherFor_ok hcache hcipher).1
  have hlong : ¬ (header.1 ++ text).length < 16 := by
    rw [length_append, header.2]
    omega
  rw [openPacket, if_pos hblock, openBlockPacket, if_neg hlong]
  dsimp only
  rw [Octets.ofBytes_append, hheader, hsid, hpid, hkey, drop_left' header.2]
  dsimp only
  cases cipher.openText (m.separateHeader.drop 4) text <;> rfl

theorem openPacket_chacha {nonce : Octets udpPacketNonceSize}
    (hblock : core.usingBlockCipher = false)
    (hcipher : core.sessionCipher = .ok cipher) (text : Bytes) (now : ℤ)
    (hlen : core.tagLen + 16 ≤ text.length) :
    (openPacket core cache (nonce.1 ++ text) now).1 =
      (cipher.openText nonce.1 text).elim (.error (.sentinel .authenticationFailed))
        fun payload => decodeOpened (.ofBytes 8 payload)
          (.ofNat 64 (beNat ((payload.drop 8).take 8))) (payload.drop 16) now := by
  have hlong : ¬ (nonce.1 ++ text).length < udpPacketNonceSize + core.tagLen + 16 := by
    rw [length_append, nonce.2]
    omega
  rw [openPacket, if_neg (by simp [hblock]), openChachaPacket, hcipher]
  dsimp only
  rw [if_neg hlong, take_left' nonce.2, drop_left' nonce.2]
  cases cipher.openText nonce.1 text <;> rfl

variable {wire : Bytes}

theorem openPacket_take (hw : Sealed core m wire) (hcache : cache.Ok core) (n : ℕ) (now : ℤ) :
    (openPacket core cache (wire.take (receiveBufferLen core n)) now).1 =
      if Fits core m n then decodeOpened m.sessionID m.packetID m.body now
      else .error (.sentinel .authenticationFailed) := by
  have hbody := m.length_body
  cases hw with
  | block header cipher hblock hheader hcipher hrej =>
    have hover := core.overhead_createCipher _ _ hcipher
    have hfits : Fits core m n ↔
        fixedHeaderLen + m.padding.length + m.addr.encode.length + m.payload.length ≤ n := by
      rw [Fits, if_pos hblock]
    rw [receiveBufferLen, if_pos hblock, take_append,
      take_of_length_le (by rw [header.2]; omega), header.2,
      openPacket_block hblock hheader hcipher hcache, cipher.open_take_seal hrej]
    by_cases hfit : Fits core m n
    · have hle := hfits.mp hfit
      rw [if_pos hfit, if_pos (by omega), elim_some]
    · have hgt := mt hfits.mpr hfit
      rw [if_neg hfit, if_neg (by omega), elim_none]
  | chacha nonce cipher hblock hcipher hrej =>
    have hover := core.overhead_sessionCipher _ hcipher
    have hblock' : ¬ core.usingBlockCipher = true := by simp [hblock]
    have hseal := cipher.length_seal nonce.1 (m.separateHeader ++ m.body)
    rw [length_append, m.length_separateHeader] at hseal
    have hfits : Fits core m n ↔ 16 + fixedHeaderLen + m.padding.length + m.addr.encode.length +
        m.payload.length ≤ n + 320 := by
      rw [Fits, if_neg hblock']
    rw [receiveBufferLen, if_neg hblock', take_append,
      take_of_length_le (by rw [nonce.2]; omega), nonce.2,
      openPacket_chacha hblock hcipher _ _ (by rw [length_take]; omega), cipher.open_take_seal hrej]
    rw [length_append, m.length_separateHeader]
    by_cases hfit : Fits core m n
    · have hle := hfits.mp hfit
      rw [if_pos hfit, if_pos (by omega), elim_some, sessionID_separateHeader,
        packetID_separateHeader, drop_left' m.length_separateHeader]
    · have hgt := mt hfits.mpr hfit
      rw [if_neg hfit, if_neg (by omega), elim_none]

theorem openPacket_whole (hw : Sealed core m wire) (hcache : cache.Ok core) (now : ℤ) :
    (openPacket core cache wire now).1 = decodeOpened m.sessionID m.packetID m.body now := by
  obtain ⟨n, hlen, hfit⟩ : ∃ n, wire.length ≤ receiveBufferLen core n ∧ Fits core m n := by
    refine ⟨wire.length + 16 + fixedHeaderLen + m.padding.length + m.addr.encode.length +
      m.payload.length, ?_, ?_⟩
    · unfold receiveBufferLen
      split_ifs <;> omega
    · unfold Fits
      split_ifs <;> omega
  have := openPacket_take hw hcache n now
  rwa [take_of_length_le hlen, if_pos hfit] at this

/-- The result a caller with a buffer of `n` bytes is owed: the whole payload with its address, or
a dropped datagram. -/
def Delivers (m : ServerMessage) (addr : AddrPort) (n : ℕ) (r : ReadResult) : Prop :=
  if m.payload.length ≤ n then r = .ok m.payload addr
  else ∃ cause, r.err = some (.datagramDropped cause)

theorem readFrom_eq (cache : CipherCache)
    (hw : Sealed core m wire) (admits : Opened → Bool) {read : ℕ → Except Error Bytes}
    (hread : ∀ k, read k = .ok (wire.take k)) (now : ℤ) (n : ℕ) :
    readFrom core cache admits read now n =
      match decodePacket core cache admits (wire.take (receiveBufferLen core n)) now with
      | .error err => .fail err
      | .ok (payload, addr) =>
        if core.usingBlockCipher = false ∧ n < payload.length then .dropped addr
        else .ok (payload.take n) addr := by
  cases hw with
  | block header cipher hblock hheader hcipher hrej =>
    rw [readFrom, if_neg (by simp [hblock]), hread, receiveBufferLen, if_pos hblock]
    simp [hblock]
  | chacha nonce cipher hblock hcipher hrej =>
    rw [readFrom, if_pos hblock, readFromChacha, hcipher]
    rw [hread, receiveBufferLen, if_neg (by simp [hblock])]
    simp [hblock]

/-- Polling delivers a fresh, timely server datagram with an IP address exactly when its encrypted
form fits the receive buffer, and otherwise fails to authenticate it. The push path delivers every
such datagram. A domain address is refused on every path. -/
theorem readFrom_delivers_iff (core : Core) (cache : CipherCache) (m : ServerMessage)
    (wire : Bytes) (now : ℤ) (admits : Opened → Bool) (read : ℕ → Except Error Bytes) (n : ℕ)
    (hw : Sealed core m wire) (hcache : cache.Ok core) (ht : m.Timely now)
    (hfresh : ∀ d : Opened, d.sessionID = m.sessionID → d.packetID = m.packetID → admits d = true)
    (hread : ∀ k, read k = .ok (wire.take k)) :
    (∀ addr, m.addr.addrPort = some addr →
      (Delivers m addr n (readFrom core cache admits read now n) ↔ Fits core m n) ∧
      (¬ Fits core m n → readFrom core cache admits read now n =
        .fail (.sentinel .authenticationFailed)) ∧
      ∀ src, mapReceivedPacket core cache admits ⟨wire, src, none⟩ now = ⟨m.payload, addr, none⟩) ∧
    (∀ name short port, m.addr = .domain name short port →
      (Fits core m n → readFrom core cache admits read now n =
        .fail (.errorf s!"unsupported address type for UDP: {addressTypeDomain}")) ∧
      ∀ src, mapReceivedPacket core cache admits ⟨wire, src, none⟩ now =
        ⟨[], src, some (.errorf s!"unsupported address type for UDP: {addressTypeDomain}")⟩) := by
  have hpoll := readFrom_eq cache hw admits hread now n
  have htake := openPacket_take hw hcache n now
  have hwhole := openPacket_whole hw hcache now
  refine ⟨fun addr ha => ?_, fun name short port ha => ?_⟩
  · rw [decodeOpened, decodePacketPayload_ip ht ha, m.headerTimestamp_body] at htake hwhole
    have hadm := hfresh ⟨m.sessionID, m.packetID, m.timestamp, m.payload, addr⟩ rfl rfl
    have hpush : ∀ src, mapReceivedPacket core cache admits ⟨wire, src, none⟩ now =
        ⟨m.payload, addr, none⟩ := by
      intro src
      simp [mapReceivedPacket, decodePacket, hwhole, hadm]
    by_cases hfit : Fits core m n
    · have hdecode : decodePacket core cache admits (wire.take (receiveBufferLen core n)) now =
          .ok (m.payload, addr) := by
        rw [if_pos hfit] at htake
        simp [decodePacket, htake, hadm]
      rw [hdecode] at hpoll
      refine ⟨⟨fun _ => hfit, fun _ => ?_⟩, fun hno => absurd hfit hno, hpush⟩
      rw [hpoll, Delivers]
      dsimp only
      split_ifs with hle hdrop hdrop
      · omega
      · rw [take_of_length_le hle]
      · exact ⟨_, rfl⟩
      · refine absurd ⟨?_, by omega⟩ hdrop
        by_contra hblock
        rw [Bool.not_eq_false] at hblock
        rw [Fits, if_pos hblock] at hfit
        omega
    · have hdecode : decodePacket core cache admits (wire.take (receiveBufferLen core n)) now =
          .error (.sentinel .authenticationFailed) := by
        rw [if_neg hfit] at htake
        simp only [decodePacket, htake]
      rw [hdecode] at hpoll
      refine ⟨⟨fun hdel => ?_, fun hyes => absurd hyes hfit⟩, fun _ => hpoll, hpush⟩
      rw [hpoll, Delivers] at hdel
      split_ifs at hdel
      · simp [ReadResult.fail, ReadResult.ok] at hdel
      · simp [ReadResult.fail] at hdel
  · rw [decodeOpened, decodePacketPayload_body ht, ha, parseAddrPort_domain] at htake hwhole
    refine ⟨fun hfit => ?_, fun src => ?_⟩
    · rw [if_pos hfit] at htake
      rw [hpoll, decodePacket, htake]
    · simp [mapReceivedPacket, decodePacket, hwhole]

variable (payload : Bytes)

def epochMessage : ServerMessage where
  sessionID := .ofBytes 8 []
  packetID := 1
  timestamp := 0
  clientSessionID := .ofBytes 8 []
  padding := []
  padding_lt := by decide
  addr := .ipv4 (.ofBytes 4 [127, 0, 0, 1]) 53
  payload := payload

def epochWire : Bytes :=
  (epochMessage payload).separateHeader ++ Aead.lengthFraming.sealText
    ((epochMessage payload).separateHeader.drop 4) (epochMessage payload).body

theorem sealed_epochWire (h : payload.length < 65536) :
    Sealed (framingCore true) (epochMessage payload) (epochWire payload) := by
  have hlen := (epochMessage payload).length_body
  refine .block ⟨(epochMessage payload).separateHeader, ServerMessage.length_separateHeader _⟩
    Aead.lengthFraming rfl rfl rfl (Aead.lengthFraming_rejectsTruncated _ _ ?_)
  rw [hlen]
  change 19 + 0 + 7 + payload.length < 256 ^ 16
  omega

theorem readFrom_delivers_iff_one_byte :
    Delivers (epochMessage [42]) ⟨.v4 (.ofBytes 4 [127, 0, 0, 1]), 53⟩ 27
      (readFrom (framingCore true) [] (fun _ => true) (fun k => .ok ((epochWire [42]).take k)) 0
        27) :=
  (((readFrom_delivers_iff (framingCore true) [] (epochMessage [42]) (epochWire [42]) 0
    (fun _ => true) (fun k => .ok ((epochWire [42]).take k)) 27 (sealed_epochWire _ (by decide))
    (by intro e he; simp at he) (by constructor <;> decide) (fun _ _ _ => rfl)
    (fun _ => rfl)).1 _ rfl).1).mpr (by decide)

/-- A buffer that holds the payload many times over is too small for the polling path, which fails
to authenticate what it cut short; the push path delivers the same datagram. -/
theorem readFrom_cuts_datagram :
    Sealed (framingCore true) (epochMessage [42]) (epochWire [42]) ∧
    readFrom (framingCore true) [] (fun _ => true) (fun k => .ok ((epochWire [42]).take k)) 0 26 =
      .fail (.sentinel .authenticationFailed) ∧
    mapReceivedPacket (framingCore true) [] (fun _ => true) ⟨epochWire [42], .zero, none⟩ 0 =
      ⟨[42], ⟨.v4 (.ofBytes 4 [127, 0, 0, 1]), 53⟩, none⟩ :=
  ⟨sealed_epochWire _ (by decide), rfl, rfl⟩

end Outbound.Shadowsocks2022
