import Outbound.Vmess.Conn

/-! Datagrams over a VMess connection: one chunk each, to the fixed target of the connection or, in
packet-addr mode, behind their own target. -/
namespace Outbound.Vmess

open Lib

def seqPacketMagicAddress : Bytes := Protocol.ascii "sp.packet-addr.v2fly.arpa"

def Session.isPacketAddr (s : Session) : Bool :=
  s.network = .udp ∧ s.metadata.type = .domain ∧ s.metadata.hostname = seqPacketMagicAddress

/-- `PutPacketAddr`: the address in front of a datagram. -/
def putPacketAddr (a : AddrPort) : Except Error Bytes :=
  match a.addr with
  | .zero => .error (.errorf "invalid IP")
  | .v4 ip => .ok (1 :: (ip.1 ++ beBytes 2 a.port.toNat))
  | .v6 ip => .ok (2 :: (ip.1 ++ beBytes 2 a.port.toNat))

def extractPacketAddr (src : Bytes) : Except Error (ℕ × AddrPort) :=
  if src.getD 0 0 = 1 then
    if src.length < 7 then .error (.errorf "invalid packet addr")
    else .ok (7, ⟨.v4 (.ofBytes 4 (src.drop 1)), .ofNat (beNat ((src.drop 5).take 2))⟩)
  else if src.getD 0 0 = 2 then
    if src.length < 19 then .error (.errorf "invalid packet addr")
    else .ok (19, ⟨.v6 (.ofBytes 16 (src.drop 1)), .ofNat (beNat ((src.drop 17).take 2))⟩)
  else .error (.errorf "invalid packet addr type")

/-- `net.ResolveUDPAddr`, which is outside of the repository. -/
abbrev Resolver := String → Except Error AddrPort

/-- The dial target, resolved when it is first needed. -/
structure DialTarget where
  dialTgt : String
  dialTgtAddrPort : AddrPort

namespace DialTarget

def new (dialTgt : String) : DialTarget := ⟨dialTgt, .zero⟩

def dialTargetAddrPort (resolve : Resolver) (d : DialTarget) : Except Error AddrPort × DialTarget :=
  if d.dialTgtAddrPort.isValid then (.ok d.dialTgtAddrPort, d)
  else
    match resolve d.dialTgt with
    | .error err => (.error err, d)
    | .ok tgt =>
      let target : AddrPort := ⟨tgt.addr.unmap, tgt.port⟩
      (.ok target, { d with dialTgtAddrPort := target })

end DialTarget

/-- A connection as the sender of datagrams. `writeCache` keeps the target resolved last. -/
structure Sender where
  writer : Writer
  target : DialTarget
  writeCache : Option (String × AddrPort)

namespace Sender

def new (w : Writer) (dialTgt : String) : Sender := ⟨w, .new dialTgt, none⟩

variable (resolve : Resolver) (c : Sender) (p : Bytes) (addr : String)

def writeTargetAddrPort : Except Error AddrPort × Sender :=
  if addr = c.target.dialTgt then
    let target := c.target.dialTargetAddrPort resolve
    (target.1, { c with target := target.2 })
  else
    match c.writeCache.filter (fun entry => entry.1 = addr) with
    | some cached => (.ok cached.2, c)
    | none =>
      match resolve addr with
      | .error err => (.error err, c)
      | .ok target =>
        let addrPort : AddrPort := ⟨target.addr.unmap, target.port⟩
        (.ok addrPort, { c with writeCache := some (addr, addrPort) })

/-- What a datagram becomes before it is sealed: in packet-addr mode its target stands in front. -/
def chunkText : Except Error Bytes × Sender :=
  if c.writer.session.isPacketAddr then
    match c.writeTargetAddrPort resolve addr with
    | (.error err, c) => (.error err, c)
    | (.ok address, c) =>
      match putPacketAddr address with
      | .error err => (.error err, c)
      | .ok packetAddr => (.ok (packetAddr ++ p), c)
  else (.ok p, c)

def writeTo : WriteOut × Sender :=
  match c.chunkText resolve p addr with
  | (.error err, c) => (⟨0, some err, []⟩, c)
  | (.ok text, c) =>
    let out := c.writer.write text
    (out.1, { c with writer := out.2 })

def chunkTexts (resolve : Resolver) (c : Sender) : List (Bytes × String) →
    Except Error (List Bytes) × Sender
  | [] => (.ok [], c)
  | item :: items =>
    match c.chunkText resolve item.1 item.2 with
    | (.error err, c) => (.error err, c)
    | (.ok text, c) =>
      match c.chunkTexts resolve items with
      | (.error err, c) => (.error err, c)
      | (.ok datas, c) => (.ok (text :: datas), c)

def unsupportedNetwork : Network → Error
  | .tcp => .errorf "unknown network unsupported tunnel type: tcp"
  | .udp => .errorf "unknown network unsupported tunnel type: udp"
  | .other name => .errorf s!"unknown network unsupported tunnel type: {name}"

def writeBatch (items : List (Bytes × String)) : WriteOut × Sender :=
  if items = [] then (⟨0, none, []⟩, c)
  else if c.writer.session.network ≠ .udp then
    (⟨0, some (unsupportedNetwork c.writer.session.network), []⟩, c)
  else
    match c.chunkTexts resolve items with
    | (.error err, c) => (⟨0, some err, []⟩, c)
    | (.ok datas, c) =>
      let out := c.writer.writePackets datas
      (out.1, { c with writer := out.2 })

end Sender

structure Receiver where
  reader : Reader
  target : DialTarget

namespace Receiver

def new (r : Reader) (dialTgt : String) : Receiver := ⟨r, .new dialTgt⟩

def splitPacketAddr (text : Bytes) : ReadResult :=
  if text = [] then .fail (.errorf "not enough data to read for PacketAddr")
  else
    match extractPacketAddr text with
    | .error err => .fail err
    | .ok (addrLen, address) => .ok (text.drop addrLen) address

def withDialTarget (resolve : Resolver) (c : Receiver) (text : Bytes) : ReadResult × Receiver :=
  match c.target.dialTargetAddrPort resolve with
  | (.error err, target) => (.fail err, { c with target := target })
  | (.ok tgt, target) => (.ok text tgt, { c with target := target })

def readFrom (resolve : Resolver) (c : Receiver) (l : ℕ) : ReadResult × Receiver :=
  let out := c.reader.read l
  let c := { c with reader := out.2 }
  match out.1.err with
  | some err => (.fail err, c)
  | none =>
    if c.reader.session.isPacketAddr then (splitPacketAddr out.1.data, c)
    else c.withDialTarget resolve out.1.data

end Receiver

end Outbound.Vmess
