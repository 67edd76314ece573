import Outbound.Lib.Aead
import Outbound.Netproxy

/-! The receive side of a Shadowsocks 2022 datagram up to the replay check: decryption, the fixed
header, the timestamp window and the source address. -/
namespace Outbound.Shadowsocks2022

open Lib

abbrev SessionID := Octets 8

def second : ℤ := 1000000000

def timestampTolerance : ℤ := 30 * second

def saltStorageDuration : ℤ := 60 * second

def headerTypeServerStream : UInt8 := 1

def udpPacketNonceSize : ℕ := 24

def maxDecryptCipherEntries : ℕ := 64

def decryptCipherLowWatermark : ℕ := maxDecryptCipherEntries / 2

def unixToInternal : ℤ := 62135596800

/-- The instant of a Unix time, in nanoseconds since the epoch. The seconds are kept from the
year 1 on in 64 bits and wrap there. -/
def timeUnix (sec : Int64) : ℤ :=
  ((sec.toInt + unixToInternal).bmod (2 ^ 64) - unixToInternal) * second

def validateTimestamp (timestamp now : ℤ) : Except Error Unit :=
  if timestamp < now - timestampTolerance ∨ now + timestampTolerance < timestamp then
    .error (.sentinel .timestampExpired)
  else .ok ()

def parseAddrPort (b : Bytes) : Except Error (AddrPort × ℕ) :=
  match b with
  | [] => .error (.wrap "too short" (.sentinel .invalidAddress))
  | typ :: _ =>
    if typ = addressTypeIPv4 then
      if b.length < 1 + 4 + 2 then .error (.wrap "too short" (.sentinel .invalidAddress))
      else .ok (⟨.v4 (.ofBytes 4 (b.drop 1)), .ofNat (beNat ((b.drop 5).take 2))⟩, 7)
    else if typ = addressTypeIPv6 then
      if b.length < 1 + 16 + 2 then .error (.wrap "too short" (.sentinel .invalidAddress))
      else .ok (⟨.v6 (.ofBytes 16 (b.drop 1)), .ofNat (beNat ((b.drop 17).take 2))⟩, 19)
    else .error (.errorf s!"unsupported address type for UDP: {typ}")

def fixedHeaderLen : ℕ := 19

variable (payload : Bytes)

def headerTimestamp : Int64 := .ofNat (beNat ((payload.drop 1).take 8))

def decodePacketPayload (now : ℤ) : Except Error (Bytes × AddrPort) :=
  if payload.length < fixedHeaderLen then
    .error (.wrap "failed to read fixed header" (.sentinel .unexpectedEOF))
  else
    let typ := payload.getD 0 0
    let timestamp := timeUnix (headerTimestamp payload)
    let paddingLength := beNat ((payload.drop 17).take 2)
    let offset := fixedHeaderLen + paddingLength
    if payload.length < offset then
      .error (.wrap "failed to skip padding" (.sentinel .unexpectedEOF))
    else if typ ≠ headerTypeServerStream then
      .error (.errorf s!"received unexpected header type: {typ}")
    else do
      validateTimestamp timestamp now
      let (addr, addrLen) ← parseAddrPort (payload.drop offset)
      .ok (payload.drop (offset + addrLen), addr)

/-- What the receive side reads of the shared profile and its ciphers. Every cipher of the profile
has the tag length of its configuration. -/
structure Core where
  usingBlockCipher : Bool
  tagLen : ℕ
  blockCipherDecrypt : Octets 16 → Octets 16
  createCipher : SessionID → Except Error Aead
  sessionCipher : Except Error Aead
  overhead_createCipher : ∀ sessionID cipher, createCipher sessionID = .ok cipher →
    cipher.overhead = tagLen
  overhead_sessionCipher : ∀ cipher, sessionCipher = .ok cipher → cipher.overhead = tagLen

abbrev CipherCache := List (SessionID × Aead)

variable (core : Core) (cache : CipherCache) (buf : Bytes)

/-- The cipher of a remote session, from the cache or new. A full cache is first cut back to the
low watermark; the list order stands for the unspecified order of a map range. -/
def decryptCipherFor (sessionID : SessionID) : Except Error Aead × CipherCache :=
  match cache.lookup sessionID with
  | some cached => (.ok cached, cache)
  | none =>
    match core.createCipher sessionID with
    | .error err =>
      (.error (.wrap "failed to create decrypt cipher for remote session" err), cache)
    | .ok sessionCipher =>
      let kept :=
        if maxDecryptCipherEntries ≤ cache.length then
          cache.drop (cache.length - decryptCipherLowWatermark + 1)
        else cache
      (.ok sessionCipher, (sessionID, sessionCipher) :: kept)

structure Opened where
  sessionID : SessionID
  packetID : BitVec 64
  timestamp : Int64
  payload : Bytes
  addr : AddrPort

def decodeOpened (sessionID : SessionID) (packetID : BitVec 64) (payload : Bytes) (now : ℤ) :
    Except Error Opened :=
  match decodePacketPayload payload now with
  | .error err => .error err
  | .ok (out, addr) => .ok ⟨sessionID, packetID, headerTimestamp payload, out, addr⟩

def openBlockPacket (now : ℤ) : Except Error Opened × CipherCache :=
  if buf.length < 16 then (.error (.errorf "short length to decrypt"), cache)
  else
    let header := core.blockCipherDecrypt (.ofBytes 16 buf)
    let sessionID := Octets.ofBytes 8 header.1
    let packetID := BitVec.ofNat 64 (beNat (header.1.drop 8))
    let (cipher, cache) := decryptCipherFor core cache sessionID
    match cipher with
    | .error err => (.error err, cache)
    | .ok cipher =>
      match cipher.openText (header.1.drop 4) (buf.drop 16) with
      | none => (.error (.sentinel .authenticationFailed), cache)
      | some payload => (decodeOpened sessionID packetID payload now, cache)

def openChachaPacket (now : ℤ) : Except Error Opened :=
  match core.sessionCipher with
  | .error err => .error (.wrap "failed to create session cipher" err)
  | .ok cipher =>
    if buf.length < udpPacketNonceSize + core.tagLen + 16 then
      .error (.errorf "short length to decrypt")
    else
      match cipher.openText (buf.take udpPacketNonceSize) (buf.drop udpPacketNonceSize) with
      | none => .error (.sentinel .authenticationFailed)
      | some payload =>
        let sessionID := Octets.ofBytes 8 payload
        let packetID := BitVec.ofNat 64 (beNat ((payload.drop 8).take 8))
        decodeOpened sessionID packetID (payload.drop 16) now

def openPacket (now : ℤ) : Except Error Opened × CipherCache :=
  if core.usingBlockCipher then openBlockPacket core cache buf now
  else (openChachaPacket core buf now, cache)

variable {now : ℤ}

theorem decodeOpened_timely {sid : SessionID} {pid : BitVec 64} {payload : Bytes}
    {d : Opened} (h : decodeOpened sid pid payload now = .ok d) :
    now - timestampTolerance ≤ timeUnix d.timestamp ∧
      timeUnix d.timestamp ≤ now + timestampTolerance := by
  unfold decodeOpened at h
  cases hp : decodePacketPayload payload now with
  | error err => simp [hp] at h
  | ok r =>
    simp only [hp, Except.ok.injEq] at h
    rw [← h]
    unfold decodePacketPayload at hp
    dsimp only at hp
    split_ifs at hp
    cases hv : validateTimestamp (timeUnix (headerTimestamp payload)) now with
    | error err => simp [hv, bind, Except.bind] at hp
    | ok u =>
      unfold validateTimestamp at hv
      split_ifs at hv with hc
      dsimp only
      omega

theorem openPacket_timely {core : Core} {cache : CipherCache} {buf : Bytes} {d : Opened}
    (h : (openPacket core cache buf now).1 = .ok d) :
    now - timestampTolerance ≤ timeUnix d.timestamp ∧
      timeUnix d.timestamp ≤ now + timestampTolerance := by
  unfold openPacket at h
  split_ifs at h
  · unfold openBlockPacket at h
    split_ifs at h
    dsimp only at h
    split at h
    · simp at h
    · split at h
      · simp at h
      · exact decodeOpened_timely h
  · unfold openChachaPacket at h
    split at h
    · simp at h
    · split_ifs at h
      split at h
      · simp at h
      · exact decodeOpened_timely h

def framingCore (block : Bool) : Core where
  usingBlockCipher := block
  tagLen := 16
  blockCipherDecrypt := id
  createCipher _ := .ok Aead.lengthFraming
  sessionCipher := .ok Aead.lengthFraming
  overhead_createCipher _ _ h := by
    rw [← Except.ok.inj h]
    rfl
  overhead_sessionCipher _ h := by
    rw [← Except.ok.inj h]
    rfl

end Outbound.Shadowsocks2022
