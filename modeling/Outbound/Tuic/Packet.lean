import Outbound.Netproxy

/-! The Packet command of TUIC: its address field, the bytes it is written as, and the decoder of
received datagrams. -/
namespace Outbound.Tuic

open Lib List

def atypDomainName : UInt8 := 0

def atypIPv4 : UInt8 := 1

def atypIPv6 : UInt8 := 2

def atypNone : UInt8 := 255

def authenticateType : UInt8 := 0

def connectType : UInt8 := 1

def packetType : UInt8 := 2

def dissociateType : UInt8 := 3

def heartbeatType : UInt8 := 4

def hexByte (b : UInt8) : String := "0x" ++ String.ofList (Nat.toDigits 16 b.toNat)

def commandTypeString (c : UInt8) : String :=
  if c = authenticateType then "Authenticate"
  else if c = connectType then "Connect"
  else if c = packetType then "Packet"
  else if c = dissociateType then "Dissociate"
  else if c = heartbeatType then "Heartbeat"
  else "UnknowCommand: " ++ hexByte c

structure Address where
  type : UInt8
  addr : Bytes
  port : UInt16
deriving DecidableEq

/-- `netip.AddrFromSlice`, with the zero address for a slice of any other length. -/
def addrFromSlice (b : Bytes) : Addr :=
  if h : b.length = 4 then .v4 ⟨b, h⟩
  else if h : b.length = 16 then .v6 ⟨b, h⟩
  else .zero

namespace Address

variable (c : Address)

def writeToBytes : Bytes :=
  if c.type = atypNone then [c.type] else c.type :: (c.addr ++ beBytes 2 c.port.toNat)

def bytesLen : ℕ := if c.type = atypNone then 1 else 1 + c.addr.length + 2

def udpAddrPort : AddrPort := ⟨addrFromSlice c.addr, c.port⟩

def IsIP : Prop :=
  (c.type = atypIPv4 ∧ c.addr.length = 4) ∨ (c.type = atypIPv6 ∧ c.addr.length = 16)

instance : Decidable c.IsIP := by
  unfold IsIP
  infer_instance

def WellFormed : Prop :=
  c.IsIP ∨
    (c.type = atypDomainName ∧
      ∃ name : Bytes, name.length < 256 ∧ c.addr = UInt8.ofNat name.length :: name) ∨
    c.type = atypNone

/-- What the reader of the field gets back: a type-none address carries nothing else. -/
def onWire : Address := if c.type = atypNone then ⟨atypNone, [], 0⟩ else c

theorem IsIP.isValid {c : Address} (h : c.IsIP) : c.udpAddrPort.isValid = true := by
  rcases h with ⟨_, h⟩ | ⟨_, h⟩
  · simp [udpAddrPort, addrFromSlice, AddrPort.isValid, h]
  · simp [udpAddrPort, addrFromSlice, AddrPort.isValid, h]

theorem IsIP.type_ne_none {c : Address} (h : c.IsIP) : c.type ≠ atypNone := by
  rcases h with ⟨h, _⟩ | ⟨h, _⟩
  · rw [h]
    decide
  · rw [h]
    decide

theorem length_writeToBytes : c.writeToBytes.length = c.bytesLen := by
  unfold writeToBytes bytesLen
  split_ifs
  · rfl
  · simp
    omega

theorem one_le_bytesLen : 1 ≤ c.bytesLen := by
  unfold bytesLen
  split_ifs <;> omega

end Address

/-- A Packet command. The sender's copies share their address by pointer, a received packet owns
it, so the type of the address field is left open. -/
structure Packet (A : Type) where
  ver : UInt8
  assocID : UInt16
  pktID : UInt16
  fragTotal : UInt8
  fragID : UInt8
  size : UInt16
  addr : A
  data : Bytes
deriving DecidableEq

namespace Packet

variable (c : Packet Address)

def writeToBytes : Bytes :=
  c.ver :: packetType :: (beBytes 2 c.assocID.toNat ++ (beBytes 2 c.pktID.toNat ++
    c.fragTotal :: c.fragID :: (beBytes 2 c.size.toNat ++ (c.addr.writeToBytes ++ c.data))))

def bytesLen : ℕ := 2 + 8 + c.addr.bytesLen + c.data.length

theorem length_writeToBytes : c.writeToBytes.length = c.bytesLen := by
  simp only [writeToBytes, bytesLen, length_cons, length_append, length_beBytes,
    Address.length_writeToBytes]
  omega

end Packet

def malformedDatagramf (text : String) : Error :=
  .wrap ("tuic: malformed datagram: " ++ text) (.sentinel .malformedDatagram)

def readAddressFromSlice (msg : Bytes) : Except Error (Address × ℕ) :=
  match msg with
  | [] => .error (malformedDatagramf "address type byte missing")
  | typ :: rest =>
    if typ = atypIPv4 then
      if rest.length < 4 + 2 then .error (malformedDatagramf "ipv4 address too short")
      else .ok (⟨typ, rest.take 4, .ofNat (beNat ((rest.drop 4).take 2))⟩, 1 + 4 + 2)
    else if typ = atypIPv6 then
      if rest.length < 16 + 2 then .error (malformedDatagramf "ipv6 address too short")
      else .ok (⟨typ, rest.take 16, .ofNat (beNat ((rest.drop 16).take 2))⟩, 1 + 16 + 2)
    else if typ = atypDomainName then
      match rest with
      | [] => .error (malformedDatagramf "domain length byte missing")
      | len :: rest =>
        if rest.length < len.toNat + 2 then .error (malformedDatagramf "domain address too short")
        else .ok (⟨typ, len :: rest.take len.toNat,
          .ofNat (beNat ((rest.drop len.toNat).take 2))⟩, 1 + (1 + len.toNat) + 2)
    else if typ = atypNone then .ok (⟨typ, [], 0⟩, 1)
    else .error (malformedDatagramf ("unknown address type: " ++ hexByte typ))

def fixedLen : ℕ := 2 + 2 + 2 + 1 + 1 + 2

def readPacketFromMessage (msg : Bytes) : Except Error (Packet (Option Address)) :=
  if msg.length < fixedLen then
    .error (malformedDatagramf s!"packet too short: {msg.length} bytes")
  else if msg.getD 1 0 ≠ packetType then
    .error (malformedDatagramf ("not a packet command: " ++ commandTypeString (msg.getD 1 0)))
  else do
    let size := beNat ((msg.drop 8).take 2)
    let (addr, n) ← readAddressFromSlice (msg.drop 10)
    let rest := msg.drop (10 + n)
    if 0 < size ∧ rest.length < size then
      .error (malformedDatagramf s!"data truncated: need {size} have {rest.length}")
    else
      .ok { ver := msg.getD 0 0
            assocID := .ofNat (beNat ((msg.drop 2).take 2))
            pktID := .ofNat (beNat ((msg.drop 4).take 2))
            fragTotal := msg.getD 6 0
            fragID := msg.getD 7 0
            size := .ofNat size
            addr := some addr
            data := rest.take size }

theorem portOfBytes (port : UInt16) (rest : Bytes) :
    UInt16.ofNat (beNat ((beBytes 2 port.toNat ++ rest).take 2)) = port := by
  rw [take_left' (length_beBytes 2 _), beNat_beBytes_of_lt port.toNat_lt, UInt16.ofNat_toNat]

theorem readAddressFromSlice_writeToBytes (a : Address) (h : a.WellFormed) (rest : Bytes) :
    readAddressFromSlice (a.writeToBytes ++ rest) = .ok (a.onWire, a.bytesLen) := by
  obtain ⟨typ, addr, port⟩ := a
  rcases h with (⟨ht, hl⟩ | ⟨ht, hl⟩) | ⟨ht, name, hname, hl⟩ | ht
  · subst ht
    have hn : atypIPv4 ≠ atypNone := by decide
    have hlen : ¬ (addr ++ (beBytes 2 port.toNat ++ rest)).length < 4 + 2 := by
      simp only [length_append, length_beBytes, hl]
      omega
    simp only [Address.writeToBytes, Address.onWire, Address.bytesLen, if_neg hn,
      readAddressFromSlice, cons_append, append_assoc, if_true, if_neg hlen,
      take_left' hl, drop_left' hl, portOfBytes, hl]
  · subst ht
    have hn : atypIPv6 ≠ atypNone := by decide
    have h4 : atypIPv6 ≠ atypIPv4 := by decide
    have hlen : ¬ (addr ++ (beBytes 2 port.toNat ++ rest)).length < 16 + 2 := by
      simp only [length_append, length_beBytes, hl]
      omega
    simp only [Address.writeToBytes, Address.onWire, Address.bytesLen, if_neg hn, if_neg h4,
      readAddressFromSlice, cons_append, append_assoc, if_true, if_neg hlen,
      take_left' hl, drop_left' hl, portOfBytes, hl]
  · subst ht hl
    have hn : atypDomainName ≠ atypNone := by decide
    have h4 : atypDomainName ≠ atypIPv4 := by decide
    have h6 : atypDomainName ≠ atypIPv6 := by decide
    have hbyte : (UInt8.ofNat name.length).toNat = name.length := by
      rw [UInt8.toNat_ofNat', Nat.mod_eq_of_lt hname]
    have hlen : ¬ (name ++ (beBytes 2 port.toNat ++ rest)).length < name.length + 2 := by
      simp only [length_append, length_beBytes]
      omega
    simp only [Address.writeToBytes, Address.onWire, Address.bytesLen, if_neg hn, if_neg h4,
      if_neg h6, readAddressFromSlice, cons_append, append_assoc, if_true, hbyte,
      if_neg hlen, take_left' (rfl : name.length = name.length),
      drop_left' (rfl : name.length = name.length), portOfBytes, length_cons]
    rw [Nat.add_comm name.length 1]
  · subst ht
    have h4 : atypNone ≠ atypIPv4 := by decide
    have h6 : atypNone ≠ atypIPv6 := by decide
    have hd : atypNone ≠ atypDomainName := by decide
    simp [Address.writeToBytes, Address.onWire, Address.bytesLen, h4, h6, hd, readAddressFromSlice]

variable (c : Packet Address)

def Packet.onWire : Packet (Option Address) :=
  { ver := c.ver, assocID := c.assocID, pktID := c.pktID, fragTotal := c.fragTotal,
    fragID := c.fragID, size := c.size, addr := some c.addr.onWire, data := c.data }

def Packet.received : Packet (Option Address) :=
  ⟨c.ver, c.assocID, c.pktID, c.fragTotal, c.fragID, c.size, some c.addr, c.data⟩

theorem readPacketFromMessage_writeToBytes (haddr : c.addr.WellFormed)
    (hsize : c.size.toNat = c.data.length) (rest : Bytes) :
    readPacketFromMessage (c.writeToBytes ++ rest) = .ok c.onWire := by
  have hlen : ¬ (c.writeToBytes ++ rest).length < fixedLen := by
    have hpos := c.addr.one_le_bytesLen
    rw [length_append, c.length_writeToBytes, Packet.bytesLen, fixedLen]
    omega
  have htwo : ∀ n : ℕ, ∃ x y, beBytes 2 n = [x, y] := fun n => ⟨_, _, rfl⟩
  obtain ⟨a, b, hab⟩ := htwo c.assocID.toNat
  obtain ⟨p, q, hpq⟩ := htwo c.pktID.toNat
  obtain ⟨x, y, hxy⟩ := htwo c.size.toNat
  have hassoc : UInt16.ofNat (beNat [a, b]) = c.assocID := by
    rw [← hab, beNat_beBytes_of_lt c.assocID.toNat_lt, UInt16.ofNat_toNat]
  have hpkt : UInt16.ofNat (beNat [p, q]) = c.pktID := by
    rw [← hpq, beNat_beBytes_of_lt c.pktID.toNat_lt, UInt16.ofNat_toNat]
  have hsz : beNat [x, y] = c.size.toNat := by
    rw [← hxy, beNat_beBytes_of_lt c.size.toNat_lt]
  have hmsg : c.writeToBytes ++ rest = c.ver :: packetType :: a :: b :: p :: q :: c.fragTotal ::
      c.fragID :: x :: y :: (c.addr.writeToBytes ++ (c.data ++ rest)) := by
    simp [Packet.writeToBytes, hab, hpq, hxy]
  unfold readPacketFromMessage
  rw [if_neg hlen, hmsg, if_neg (by simp)]
  simp only [drop_succ_cons, drop_zero, take_succ_cons, take_zero, hsz, hpkt,
    hassoc, readAddressFromSlice_writeToBytes c.addr haddr, getD_cons_zero, getD_cons_succ]
  have hdrop : drop (10 + c.addr.bytesLen) (c.ver :: packetType :: a :: b :: p :: q ::
      c.fragTotal :: c.fragID :: x :: y :: (c.addr.writeToBytes ++ (c.data ++ rest))) =
      c.data ++ rest := by
    rw [← drop_drop]
    exact drop_left' c.addr.length_writeToBytes
  have hfits : ¬ (0 < c.size.toNat ∧ (c.data ++ rest).length < c.size.toNat) := by
    rw [hsize, length_append]
    omega
  change (if 0 < c.size.toNat ∧ _ then _ else _) = _
  rw [hdrop, if_neg hfits, take_left' hsize.symm, UInt16.ofNat_toNat]
  rfl

end Outbound.Tuic
