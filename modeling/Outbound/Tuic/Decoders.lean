import Outbound.Lib.Reading
import Outbound.Lib.Slice
import Outbound.Tuic.Packet

/-! The encoder of the Packet command as it fills a buffer, and the three decoders: of a datagram,
with every slice expression checked, of a stream that carries one command, and of a buffered reader
behind the command head. -/
namespace Outbound.Tuic

open Lib

/-- `WriteToBytes` of an address: the buffer after it, and how many bytes it wrote; `none` is a
panic. -/
def Address.fill (c : Address) (b : Bytes) : Option (Bytes × ℕ) :=
  (putAt b 0 [c.type]).bind fun b =>
  if c.type = atypNone then some (b, 1)
  else
    (copyAt b 1 c.addr).bind fun b =>
    let n := min (b.length - 1) c.addr.length
    (putAt b (1 + n) (beBytes 2 c.port.toNat)).map fun b => (b, 3 + n)

def Packet.fill (c : Packet Address) (b : Bytes) : Option (Bytes × ℕ) :=
  (putAt b 0 [c.ver]).bind fun b =>
  (putAt b 1 [packetType]).bind fun b =>
  (putAt b 2 (beBytes 2 c.assocID.toNat)).bind fun b =>
  (putAt b 4 (beBytes 2 c.pktID.toNat)).bind fun b =>
  (putAt b 6 [c.fragTotal]).bind fun b =>
  (putAt b 7 [c.fragID]).bind fun b =>
  (putAt b 8 (beBytes 2 c.size.toNat)).bind fun b =>
  (sliceFrom b 10).bind fun tail =>
  (c.addr.fill tail).bind fun addr =>
  let b := b.take 10 ++ addr.1
  let n := 10 + addr.2
  (copyAt b n c.data).map fun b => (b, n + min (b.length - n) c.data.length)

def uint16 (b : Bytes) : Option UInt16 :=
  if b.length < 2 then none else some (.ofNat (beNat (b.take 2)))

namespace Checked

variable (msg : Bytes) (typ : UInt8)

def readPort (addr : Bytes) (off : ℕ) : Option (Except Error (Address × ℕ)) :=
  (sliceFrom msg off).bind fun rest =>
  if rest.length < 2 then some (.error (malformedDatagramf "address port missing"))
  else (uint16 rest).map fun port => .ok (⟨typ, addr, port⟩, off + 2)

def readIP (addrLen : ℕ) (short : String) : Option (Except Error (Address × ℕ)) :=
  (sliceFrom msg 1).bind fun rest =>
  if rest.length < addrLen + 2 then some (.error (malformedDatagramf short))
  else readPort msg typ (rest.take addrLen) (1 + addrLen)

def readDomain : Option (Except Error (Address × ℕ)) :=
  (sliceFrom msg 1).bind fun rest =>
  if rest.length < 1 then some (.error (malformedDatagramf "domain length byte missing"))
  else
    msg[1]?.bind fun len =>
    if rest.length < 1 + len.toNat + 2 then
      some (.error (malformedDatagramf "domain address too short"))
    else
      (sliceBetween msg (1 + 1) (1 + 1 + len.toNat)).bind fun name =>
      readPort msg typ (.ofNat len.toNat :: name) (1 + (1 + len.toNat))

/-- `readAddressFromSlice`; `none` is a panic. -/
def readAddressFromSlice : Option (Except Error (Address × ℕ)) :=
  if msg.length < 1 then some (.error (malformedDatagramf "address type byte missing"))
  else
    msg[0]?.bind fun typ =>
    if typ = atypIPv4 then readIP msg typ 4 "ipv4 address too short"
    else if typ = atypIPv6 then readIP msg typ 16 "ipv6 address too short"
    else if typ = atypDomainName then readDomain msg typ
    else if typ = atypNone then some (.ok (⟨typ, [], 0⟩, 1))
    else some (.error (malformedDatagramf ("unknown address type: " ++ hexByte typ)))

def readData (off size : ℕ) : Option (Except Error Bytes) :=
  if size > 0 then
    (sliceFrom msg off).bind fun rest =>
    if rest.length < size then
      some (.error (malformedDatagramf s!"data truncated: need {size} have {rest.length}"))
    else (sliceBetween msg off (off + size)).map .ok
  else some (.ok [])

/-- `readPacketFromMessage`; `none` is a panic. -/
def readPacketFromMessage : Option (Except Error (Packet (Option Address))) :=
  if msg.length < fixedLen then
    some (.error (malformedDatagramf s!"packet too short: {msg.length} bytes"))
  else
    msg[1]?.bind fun typ =>
    if typ ≠ packetType then
      some (.error (malformedDatagramf ("not a packet command: " ++ commandTypeString typ)))
    else
      msg[0]?.bind fun ver =>
      ((sliceFrom msg 2).bind uint16).bind fun assocID =>
      ((sliceFrom msg 4).bind uint16).bind fun pktID =>
      msg[6]?.bind fun fragTotal =>
      msg[7]?.bind fun fragID =>
      ((sliceFrom msg 8).bind uint16).bind fun size =>
      ((sliceFrom msg 10).bind readAddressFromSlice).bind fun res =>
      match res with
      | .error err => some (.error err)
      | .ok (addr, n) =>
        (readData msg (10 + n) size.toNat).map fun data => data.map fun data =>
          ⟨ver, assocID, pktID, fragTotal, fragID, size, some addr, data⟩

end Checked

def shortRead (b : Bytes) : Error := .sentinel (if b = [] then .eof else .unexpectedEOF)

/-- Programs that read a stream of TUIC commands. -/
abbrev Reader := Reading UInt8 Error

open Reading (readFull fail checked)

def readAddressFromStream : Reader Address := do
  let typeByte ← readFull 1
  let typ := typeByte.getD 0 0
  if typ = atypIPv4 then
    let rest ← readFull (4 + 2)
    return ⟨typ, rest.take 4, .ofNat (beNat (rest.drop 4))⟩
  else if typ = atypIPv6 then
    let rest ← readFull (16 + 2)
    return ⟨typ, rest.take 16, .ofNat (beNat (rest.drop 16))⟩
  else if typ = atypDomainName then
    let lenByte ← readFull 1
    let len := lenByte.getD 0 0
    let rest ← readFull (len.toNat + 2)
    return ⟨typ, len :: rest.take len.toNat, .ofNat (beNat (rest.drop len.toNat))⟩
  else if typ = atypNone then return ⟨typ, [], 0⟩
  else fail (.errorf ("tuic: unknown address type: " ++ hexByte typ))

def readStreamData (size : ℕ) : Reader Bytes := if size > 0 then readFull size else pure []

def readPacketFromStream : Reader (Packet (Option Address)) := do
  let head ← readFull 10
  if head.getD 1 0 ≠ packetType then
    fail (.errorf ("tuic: not a packet command: " ++ commandTypeString (head.getD 1 0)))
  else
    let size := beNat ((head.drop 8).take 2)
    let addr ← readAddressFromStream
    let data ← readStreamData size
    return { ver := head.getD 0 0
             assocID := .ofNat (beNat ((head.drop 2).take 2))
             pktID := .ofNat (beNat ((head.drop 4).take 2))
             fragTotal := head.getD 6 0
             fragID := head.getD 7 0
             size := .ofNat size
             addr := some addr
             data }

def readByte : Reader UInt8 := do
  let b ← readFull 1
  return b.getD 0 0

def readUint16 : Reader UInt16 := do
  let b ← readFull 2
  return .ofNat (beNat b)

def readAddrField (typ : UInt8) : Reader Bytes :=
  if typ = atypIPv4 then readFull 4
  else if typ = atypIPv6 then readFull 16
  else if typ = atypDomainName then do
    let addrLen ← readByte
    -- The size of the buffer is computed in a byte.
    let addr ← checked (putAt (List.replicate (addrLen + 1).toNat 0) 0 [addrLen])
    let name ← readFull (addr.length - 1)
    return addr.take 1 ++ name
  else return []

/-- `ReadAddress`; the result `none` is the nil pointer. -/
def readAddress : Reader (Option Address) := do
  let typ ← readByte
  let addr ← readAddrField typ
  if typ = atypNone then return none
  else
    let port ← readUint16
    return some ⟨typ, addr, port⟩

structure CommandHead where
  ver : UInt8
  type : UInt8
deriving DecidableEq

def readCommandHead : Reader CommandHead := do
  let ver ← readByte
  let type ← readByte
  return ⟨ver, type⟩

def readPacketWithHead (head : CommandHead) : Reader (Packet (Option Address)) :=
  if head.type ≠ packetType then
    fail (.errorf ("error command type: " ++ commandTypeString head.type))
  else do
    let assocID ← readUint16
    let pktID ← readUint16
    let fragTotal ← readByte
    let fragID ← readByte
    let size ← readUint16
    let addr ← readAddress
    let data ← readFull size.toNat
    return ⟨head.ver, assocID, pktID, fragTotal, fragID, size, addr, data⟩

end Outbound.Tuic
