import Outbound.Lib.Aead
import Outbound.Netproxy

/-! Polling and push receive of Shadowsocks AEAD UDP: both decrypt with the cipher of the salt and
split the metadata off, but they size their buffers differently. -/
namespace Outbound.Shadowsocks

open Lib List SocksAddr

inductive MetadataType where
  | ipv4
  | ipv6
  | domain
  | msg
  | invalid
deriving DecidableEq

def MetadataType.toNat : MetadataType → ℕ
  | ipv4 => 0
  | ipv6 => 1
  | domain => 2
  | msg => 3
  | invalid => 4

def parseMetadataType (t : UInt8) : MetadataType :=
  if t = 1 then .ipv4
  else if t = 3 then .domain
  else if t = 4 then .ipv6
  else if t = 5 then .msg
  else .invalid

structure Metadata where
  typ : MetadataType
  hostname : Bytes
  port : UInt16
  ip : Addr
  cmd : UInt8
  lenMsgBody : UInt32

def tooShort : Error := .wrap "too short" (.sentinel .invalidMetadata)

def bytesSizeForMetadata (b : Bytes) : Except Error ℕ :=
  match b with
  | t :: n :: _ =>
    match parseMetadataType t with
    | .ipv4 => .ok (1 + 4 + 2)
    | .ipv6 => .ok (1 + 16 + 2)
    | .domain => .ok (1 + 1 + n.toNat + 2)
    | .msg => .ok (1 + 1 + 4)
    | .invalid =>
      .error (.wrap s!"BytesSizeForMetadata: invalid type: {t}" (.sentinel .invalidMetadata))
  | _ => .error tooShort

def port (b : Bytes) : UInt16 := .ofNat (beNat (b.take 2))

def newMetadata (b : Bytes) : Except Error Metadata :=
  if b.length < 2 then .error (.sentinel .unexpectedEOF)
  else
    let typ := parseMetadataType (b.getD 0 0)
    match bytesSizeForMetadata b with
    | .error err => .error err
    | .ok length =>
      if b.length < length then .error tooShort
      else
        match typ with
        | .ipv4 => .ok ⟨typ, [], port (b.drop 5), .v4 (.ofBytes 4 (b.drop 1)), 0, 0⟩
        | .ipv6 => .ok ⟨typ, [], port (b.drop 17), .v6 (.ofBytes 16 (b.drop 1)), 0, 0⟩
        | .domain =>
          let lenDN := (b.getD 1 0).toNat
          .ok ⟨typ, (b.drop 2).take lenDN, port (b.drop (2 + lenDN)), .zero, 0, 0⟩
        | .msg => .ok ⟨typ, [], 0, .zero, b.getD 1 0, .ofNat (beNat ((b.drop 2).take 4))⟩
        | .invalid =>
          .error (.wrap s!"NewMetadata: invalid type: {typ.toNat}" (.sentinel .invalidMetadata))

def badMetadataType (typ : MetadataType) : Error :=
  .errorf s!"bad metadata type: {typ.toNat}; should be ip"

def splitDecryptedUdp (plain : Bytes) : Except Error (Bytes × AddrPort) :=
  match bytesSizeForMetadata plain with
  | .error err => .error err
  | .ok sizeMetadata =>
    match newMetadata plain with
    | .error err => .error err
    | .ok mdata =>
      match mdata.typ with
      | .ipv4 | .ipv6 =>
        if mdata.ip = .zero then
          .error (.errorf s!"ip metadata without a parsed address (type {mdata.typ.toNat})")
        else .ok (plain.drop sizeMetadata, ⟨mdata.ip, mdata.port⟩)
      | typ => .error (badMetadataType typ)

/-- What decryption reads of the key: `newCipher` is the cipher of the subkey derived from the
master key and a salt. -/
structure Key where
  saltLen : ℕ
  nonceLen : ℕ
  tagLen : ℕ
  newCipher : Bytes → Except Error Aead
  overhead_newCipher : ∀ salt cipher, newCipher salt = .ok cipher → cipher.overhead = tagLen

def decryptUDP (key : Key) (shadowBytes : Bytes) : Except Error Bytes :=
  if shadowBytes.length < key.saltLen then .error (.errorf "short length to decrypt")
  else
    match key.newCipher (shadowBytes.take key.saltLen) with
    | .error err => .error err
    | .ok cipher =>
      match cipher.openText (replicate key.nonceLen 0) (shadowBytes.drop key.saltLen) with
      | none => .error (.sentinel .authenticationFailed)
      | some plain => .ok plain

/-- The push path. `bloom` answers whether a salt was seen before, when there is such a filter. -/
def mapReceivedPacket (key : Key) (bloom : Option (Bytes → Bool)) (packet : ReceivedPacket) :
    ReceivedPacket :=
  if packet.err ≠ none then packet
  else
    match decryptUDP key packet.data with
    | .error err => { packet with err := some err, data := [] }
    | .ok plain =>
      if bloom.any (· (packet.data.take key.saltLen)) then
        { packet with err := some (.sentinel .replayAttack), data := [] }
      else
        match splitDecryptedUdp plain with
        | .error err => { packet with err := some err, data := [] }
        | .ok (payload, src) => ⟨payload, src, none⟩

/-- The polling path for a caller buffer of `n` bytes. It decrypts into the caller's buffer, so a
replay leaves the decrypted text there. -/
def readFrom (key : Key) (bloom : Option (Bytes → Bool))
    (read : ℕ → Except Error (Bytes × AddrPort)) (n : ℕ) : ReadResult :=
  match read (n + key.saltLen) with
  | .error err => .fail err
  | .ok (enc, addr) =>
    match decryptUDP key enc with
    | .error err => .fail err
    | .ok plain =>
      if bloom.any (· (enc.take key.saltLen)) then ⟨plain, addr, some (.sentinel .replayAttack)⟩
      else
        match splitDecryptedUdp plain with
        | .error err => .fail err
        | .ok (payload, src) => .ok (payload.take n) src

theorem bytesSizeForMetadata_encode (a : SocksAddr) (rest : Bytes) :
    bytesSizeForMetadata (a.encode ++ rest) = .ok a.encode.length := by
  cases a with
  | ipv4 ip port =>
    obtain ⟨l, hl⟩ := ip
    match l, hl with
    | [_, _, _, _], _ => rfl
  | ipv6 ip port =>
    obtain ⟨l, hl⟩ := ip
    cases l with
    | nil => simp at hl
    | cons x l =>
      have hl' : l.length = 15 := by simpa using hl
      change Except.ok (1 + 16 + 2) = _
      simp [encode, hl']
  | domain name short port =>
    have hlen : (UInt8.ofNat name.length).toNat = name.length := by
      rw [UInt8.toNat_ofNat', Nat.mod_eq_of_lt short]
    change Except.ok (1 + 1 + (UInt8.ofNat name.length).toNat + 2) = _
    simp only [encode, length_cons, length_append, length_beBytes]
    congr 1
    omega

theorem port_beBytes (p : UInt16) (rest : Bytes) : port (beBytes 2 p.toNat ++ rest) = p := by
  rw [port, take_left' (length_beBytes _ _), beNat_beBytes_of_lt p.toNat_lt, UInt16.ofNat_toNat]

def metadataOf : SocksAddr → Metadata
  | .ipv4 ip port => ⟨.ipv4, [], port, .v4 ip, 0, 0⟩
  | .ipv6 ip port => ⟨.ipv6, [], port, .v6 ip, 0, 0⟩
  | .domain name _ port => ⟨.domain, name, port, .zero, 0, 0⟩

theorem newMetadata_encode (a : SocksAddr) (rest : Bytes) :
    newMetadata (a.encode ++ rest) = .ok (metadataOf a) := by
  have hlen : ¬ (a.encode ++ rest).length < a.encode.length := by
    rw [length_append]
    omega
  have htwo : ¬ (a.encode ++ rest).length < 2 := by
    cases a <;> simp only [encode, length_cons, length_append, length_beBytes] <;> omega
  unfold newMetadata
  rw [bytesSizeForMetadata_encode a rest]
  dsimp only
  rw [if_neg hlen, if_neg htwo]
  cases a with
  | ipv4 ip p =>
    have hip : Octets.ofBytes 4 (ip.1 ++ beBytes 2 p.toNat ++ rest) = ip := by
      simp [Octets.ofBytes_append]
    have hport : port ((ip.1 ++ beBytes 2 p.toNat ++ rest).drop 4) = p := by
      rw [append_assoc, drop_left' ip.2, port_beBytes]
    have htype : parseMetadataType addressTypeIPv4 = .ipv4 := rfl
    simp only [encode, cons_append, getD_cons_zero, htype, drop_succ_cons,
      drop_zero, hip, hport, metadataOf]
  | ipv6 ip p =>
    have hip : Octets.ofBytes 16 (ip.1 ++ beBytes 2 p.toNat ++ rest) = ip := by
      simp [Octets.ofBytes_append]
    have hport : port ((ip.1 ++ beBytes 2 p.toNat ++ rest).drop 16) = p := by
      rw [append_assoc, drop_left' ip.2, port_beBytes]
    have htype : parseMetadataType addressTypeIPv6 = .ipv6 := rfl
    simp only [encode, cons_append, getD_cons_zero, htype, drop_succ_cons,
      drop_zero, hip, hport, metadataOf]
  | domain name short p =>
    have hname : (UInt8.ofNat name.length).toNat = name.length := by
      rw [UInt8.toNat_ofNat', Nat.mod_eq_of_lt short]
    have htake : (name ++ beBytes 2 p.toNat ++ rest).take name.length = name := by
      simp
    have hport : port ((name ++ beBytes 2 p.toNat ++ rest).drop name.length) = p := by
      simp [port_beBytes]
    have htype : parseMetadataType addressTypeDomain = .domain := rfl
    simp only [encode, cons_append, getD_cons_zero, getD_cons_succ, htype,
      hname, Nat.add_comm 2, drop_succ_cons, drop_zero, htake, hport, metadataOf]

theorem splitDecryptedUdp_encode (a : SocksAddr) (payload : Bytes) :
    splitDecryptedUdp (a.encode ++ payload) =
      match a.addrPort with
      | some addr => .ok (payload, addr)
      | none => .error (badMetadataType .domain) := by
  unfold splitDecryptedUdp
  rw [bytesSizeForMetadata_encode, newMetadata_encode]
  cases a with
  | domain name short p => rfl
  | _ => simp [metadataOf, addrPort]

def wire (key : Key) (cipher : Aead) (salt : Bytes) (a : SocksAddr) (payload : Bytes) : Bytes :=
  salt ++ cipher.sealText (replicate key.nonceLen 0) (a.encode ++ payload)

section Reply

variable {key : Key} {cipher : Aead} {salt : Bytes} {a : SocksAddr} {payload : Bytes}

theorem decryptUDP_take (hsalt : salt.length = key.saltLen)
    (hcipher : key.newCipher salt = .ok cipher)
    (hrej : cipher.RejectsTruncated (replicate key.nonceLen 0) (a.encode ++ payload)) (n : ℕ) :
    decryptUDP key ((wire key cipher salt a payload).take (n + key.saltLen)) =
      if a.encode.length + payload.length + key.tagLen ≤ n then .ok (a.encode ++ payload)
      else .error (.sentinel .authenticationFailed) := by
  have hover := key.overhead_newCipher _ _ hcipher
  have htake : (wire key cipher salt a payload).take (n + key.saltLen) =
      salt ++ (cipher.sealText (replicate key.nonceLen 0) (a.encode ++ payload)).take n := by
    rw [wire, take_append, take_of_length_le (by omega), hsalt, Nat.add_sub_cancel]
  rw [htake, decryptUDP, if_neg (by rw [length_append]; omega), take_left' hsalt, hcipher]
  dsimp only
  rw [drop_left' hsalt, cipher.open_take_seal hrej, hover, length_append]
  split_ifs <;> rfl

theorem decryptUDP_wire (hsalt : salt.length = key.saltLen)
    (hcipher : key.newCipher salt = .ok cipher) :
    decryptUDP key (wire key cipher salt a payload) = .ok (a.encode ++ payload) := by
  rw [wire, decryptUDP, if_neg (by rw [length_append]; omega), take_left' hsalt, hcipher]
  dsimp only
  rw [drop_left' hsalt, cipher.open_seal]

end Reply

/-- The polling result is the one of the push path: the same payload and source address, or the
same error. -/
def Agrees (r : ReadResult) (p : ReceivedPacket) : Prop :=
  r.err = p.err ∧ (p.err = none → r = .ok p.data p.src)

theorem mapReceivedPacket_wire {key : Key} {cipher : Aead} {salt : Bytes} (a : SocksAddr)
    (payload : Bytes) (hsalt : salt.length = key.saltLen)
    (hcipher : key.newCipher salt = .ok cipher) (bloom : Option (Bytes → Bool)) (src : AddrPort) :
    mapReceivedPacket key bloom ⟨wire key cipher salt a payload, src, none⟩ =
      if bloom.any (· salt) then ⟨[], src, some (.sentinel .replayAttack)⟩
      else
        match a.addrPort with
        | some addr => ⟨payload, addr, none⟩
        | none => ⟨[], src, some (badMetadataType .domain)⟩ := by
  have hsaltTake : (wire key cipher salt a payload).take key.saltLen = salt := take_left' hsalt
  rw [mapReceivedPacket, if_neg (fun h => h rfl)]
  rw [decryptUDP_wire hsalt hcipher]
  dsimp only
  rw [hsaltTake, splitDecryptedUdp_encode]
  cases a.addrPort <;> rfl

/-- Polling agrees with the push path on a reply exactly when metadata, payload and tag fit the
caller's buffer; otherwise it surfaces as an authentication failure. The push path delivers every
fresh reply with an IP address. -/
theorem readFrom_agrees_iff (key : Key) (cipher : Aead) (salt : Bytes) (a : SocksAddr)
    (payload : Bytes) (bloom : Option (Bytes → Bool)) (src : AddrPort)
    (read : ℕ → Except Error (Bytes × AddrPort)) (n : ℕ) (hsalt : salt.length = key.saltLen)
    (hcipher : key.newCipher salt = .ok cipher)
    (hrej : cipher.RejectsTruncated (replicate key.nonceLen 0) (a.encode ++ payload))
    (hread : ∀ k, read k = .ok ((wire key cipher salt a payload).take k, src)) :
    (Agrees (readFrom key bloom read n)
        (mapReceivedPacket key bloom ⟨wire key cipher salt a payload, src, none⟩) ↔
      a.encode.length + payload.length + key.tagLen ≤ n) ∧
    (¬ a.encode.length + payload.length + key.tagLen ≤ n →
      readFrom key bloom read n = .fail (.sentinel .authenticationFailed)) ∧
    (bloom.any (· salt) = false → ∀ addr, a.addrPort = some addr →
      mapReceivedPacket key bloom ⟨wire key cipher salt a payload, src, none⟩ =
        ⟨payload, addr, none⟩) := by
  have hpush := mapReceivedPacket_wire a payload hsalt hcipher bloom src
  have hdecrypt := decryptUDP_take hsalt hcipher hrej n
  have hsaltTake : ((wire key cipher salt a payload).take (n + key.saltLen)).take key.saltLen =
      salt := by
    rw [take_take, Nat.min_eq_left (by omega)]
    exact take_left' hsalt
  have hdeliver : bloom.any (· salt) = false → ∀ addr, a.addrPort = some addr →
      mapReceivedPacket key bloom ⟨wire key cipher salt a payload, src, none⟩ =
        ⟨payload, addr, none⟩ := by
    intro hfresh addr ha
    rw [hpush, hfresh, ha]
    rfl
  by_cases hfit : a.encode.length + payload.length + key.tagLen ≤ n
  · rw [if_pos hfit] at hdecrypt
    have hpoll : readFrom key bloom read n =
        if bloom.any (· salt) then ⟨a.encode ++ payload, src, some (.sentinel .replayAttack)⟩
        else
          match a.addrPort with
          | some addr => .ok payload addr
          | none => .fail (badMetadataType .domain) := by
      rw [readFrom, hread]
      dsimp only
      rw [hdecrypt]
      dsimp only
      rw [hsaltTake, splitDecryptedUdp_encode]
      cases a.addrPort with
      | none => rfl
      | some addr =>
        dsimp only
        rw [take_of_length_le (by omega)]
    refine ⟨⟨fun _ => hfit, fun _ => ?_⟩, fun hno => absurd hfit hno, hdeliver⟩
    rw [hpoll, hpush]
    split_ifs
    · exact ⟨rfl, by simp⟩
    · cases a.addrPort with
      | none => exact ⟨rfl, by simp⟩
      | some addr => exact ⟨rfl, fun _ => rfl⟩
  · rw [if_neg hfit] at hdecrypt
    have hpoll : readFrom key bloom read n = .fail (.sentinel .authenticationFailed) := by
      rw [readFrom, hread]
      dsimp only
      rw [hdecrypt]
    refine ⟨⟨fun hagree => ?_, fun hyes => absurd hyes hfit⟩, fun _ => hpoll, hdeliver⟩
    have herr := hagree.1
    rw [hpoll, hpush] at herr
    split_ifs at herr
    · simp [ReadResult.fail] at herr
    · cases ha : a.addrPort with
      | none => simp [ha, ReadResult.fail, badMetadataType] at herr
      | some addr => simp [ha, ReadResult.fail] at herr

def framingKey : Key where
  saltLen := 16
  nonceLen := 12
  tagLen := 16
  newCipher _ := .ok Aead.lengthFraming
  overhead_newCipher _ _ h := by
    rw [← Except.ok.inj h]
    rfl

def localhostDNS : SocksAddr := .ipv4 (.ofBytes 4 [127, 0, 0, 1]) 53

def oneByteReply : Bytes :=
  wire framingKey Aead.lengthFraming (replicate 16 0) localhostDNS [42]

theorem readFrom_agrees_iff_one_byte :
    Agrees (readFrom framingKey none (fun k => .ok (oneByteReply.take k, .zero)) 24)
      (mapReceivedPacket framingKey none ⟨oneByteReply, .zero, none⟩) :=
  (readFrom_agrees_iff framingKey Aead.lengthFraming (replicate 16 0) localhostDNS [42] none
    .zero (fun k => .ok (oneByteReply.take k, .zero)) 24 rfl rfl
    (Aead.lengthFraming_rejectsTruncated _ _ (by decide)) fun _ => rfl).1.mpr (by decide)

/-- A caller buffer of 23 bytes holds the payload of one byte but not metadata and tag beside it:
polling fails to authenticate, the push path delivers. -/
theorem readFrom_cuts_reply :
    readFrom framingKey none (fun k => .ok (oneByteReply.take k, .zero)) 23 =
      .fail (.sentinel .authenticationFailed) ∧
    mapReceivedPacket framingKey none ⟨oneByteReply, .zero, none⟩ =
      ⟨[42], ⟨.v4 (.ofBytes 4 [127, 0, 0, 1]), 53⟩, none⟩ :=
  ⟨rfl, rfl⟩

end Outbound.Shadowsocks
