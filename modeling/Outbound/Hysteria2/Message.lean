import Outbound.Lib.Varint
import Outbound.Netproxy

/-! The UDP message of Hysteria2: its size, the bytes it is written as, and the parser of received
datagrams. -/
namespace Outbound.Hysteria2

open Lib List

def maxMessageLength : ℕ := 2048

def maxUDPSize : ℕ := 4096

/-- A UDP message. `release` names the receive buffer that the callback of the message gives back,
if it has one. -/
structure UDPMessage where
  sessionID : UInt32
  packetID : UInt16
  fragID : UInt8
  fragCount : UInt8
  addr : Bytes
  data : Bytes
  release : Option ℕ
deriving DecidableEq

namespace UDPMessage

def zero : UDPMessage := ⟨0, 0, 0, 0, [], [], none⟩

variable (m : UDPMessage)

def headerSize : ℕ := 4 + 2 + 1 + 1 + varintLen m.addr.length + m.addr.length

def size : ℕ := m.headerSize + m.data.length

def encode : Bytes :=
  beBytes 4 m.sessionID.toNat ++ (beBytes 2 m.packetID.toNat ++
    m.fragID :: m.fragCount :: (varintPut m.addr.length ++ (m.addr ++ m.data)))

def serialize (buf : ℕ) : Option Bytes :=
  if buf < m.size then none else some m.encode

def wire : UDPMessage := { m with release := none }

theorem wire_eq_iff (m' : UDPMessage) :
    m.wire = m'.wire ↔ m.sessionID = m'.sessionID ∧ m.packetID = m'.packetID ∧
      m.fragID = m'.fragID ∧ m.fragCount = m'.fragCount ∧ m.addr = m'.addr ∧ m.data = m'.data := by
  simp [wire]

end UDPMessage

def parseUDPMessage (msg : Bytes) : Except Error UDPMessage :=
  if msg.length < 8 then .error (.protocolError "invalid message: header too short")
  else
    match varintParse (msg.drop 8) with
    | none => .error (.sentinel (if msg.length = 8 then .eof else .unexpectedEOF))
    | some (lAddr, n) =>
      if lAddr = 0 ∨ lAddr > maxMessageLength then .error (.protocolError "invalid address length")
      else
        let body := msg.drop (8 + n)
        if (lAddr : ℤ) > (body.length : ℤ) - 1 then
          .error (.protocolError "invalid message length")
        else
          .ok { sessionID := .ofNat (beNat (msg.take 4))
                packetID := .ofNat (beNat ((msg.drop 4).take 2))
                fragID := msg.getD 6 0
                fragCount := msg.getD 7 0
                addr := body.take lAddr
                data := body.drop lAddr
                release := none }

namespace UDPMessage

/-- A message that the parser of the peer accepts. -/
def WellFormed (m : UDPMessage) : Prop :=
  0 < m.addr.length ∧ m.addr.length ≤ maxMessageLength ∧ 0 < m.data.length

theorem wellFormed_of_parse {dg : Bytes} {m : UDPMessage} (h : parseUDPMessage dg = .ok m) :
    m.WellFormed := by
  unfold parseUDPMessage at h
  split at h
  · cases h
  · split at h
    · cases h
    · dsimp only at h
      split_ifs at h with haddr hbody
      cases h
      simp only [WellFormed, length_take, length_drop] at hbody ⊢
      omega

theorem length_encode (m : UDPMessage) : m.encode.length = m.size := by
  simp only [encode, length_append, length_cons, length_beBytes, length_varintPut, size, headerSize]
  omega

theorem parse_encode {m : UDPMessage} (hm : m.WellFormed) :
    parseUDPMessage m.encode = .ok m.wire := by
  obtain ⟨hpos, hmax, hdata⟩ := hm
  have hlen := m.length_encode
  have hfour : ∃ a b c d, beBytes 4 m.sessionID.toNat = [a, b, c, d] := ⟨_, _, _, _, rfl⟩
  have htwo : ∃ x y, beBytes 2 m.packetID.toNat = [x, y] := ⟨_, _, rfl⟩
  obtain ⟨s1, s2, s3, s4, hs⟩ := hfour
  obtain ⟨p1, p2, hp⟩ := htwo
  have hsession : UInt32.ofNat (beNat [s1, s2, s3, s4]) = m.sessionID := by
    rw [← hs, beNat_beBytes_of_lt m.sessionID.toNat_lt, UInt32.ofNat_toNat]
  have hpacket : UInt16.ofNat (beNat [p1, p2]) = m.packetID := by
    rw [← hp, beNat_beBytes_of_lt m.packetID.toNat_lt, UInt16.ofNat_toNat]
  have hb : m.encode = s1 :: s2 :: s3 :: s4 :: p1 :: p2 :: m.fragID :: m.fragCount ::
      (varintPut m.addr.length ++ (m.addr ++ m.data)) := by
    rw [encode, hs, hp]
    rfl
  have hvarint := varintParse_varintPut (i := m.addr.length)
    (by unfold maxVarInt8; unfold maxMessageLength at hmax; omega) (m.addr ++ m.data)
  have hdrop : m.encode.drop 8 = varintPut m.addr.length ++ (m.addr ++ m.data) := by
    rfl
  have hbody : m.encode.drop (8 + varintLen m.addr.length) = m.addr ++ m.data := by
    rw [← drop_drop, hdrop]
    exact drop_left' (length_varintPut _)
  have hshort : ¬ m.encode.length < 8 := by
    rw [hlen, size, headerSize]
    omega
  have hbad : ¬ (m.addr.length = 0 ∨ m.addr.length > maxMessageLength) := by omega
  have hfits : ¬ (m.addr.length : ℤ) > ((m.addr ++ m.data).length : ℤ) - 1 := by
    rw [length_append]
    omega
  unfold parseUDPMessage
  rw [if_neg hshort, hdrop, hvarint]
  simp only [if_neg hbad, hbody, if_neg hfits, take_left' (rfl : m.addr.length = _),
    drop_left' (rfl : m.addr.length = _)]
  rw [hb]
  simp only [take_succ_cons, take_zero, drop_succ_cons, drop_zero,
    getD_cons_succ, getD_cons_zero, hsession, hpacket]
  rfl

end UDPMessage

end Outbound.Hysteria2
