import Outbound.Protocol

/-! The header that names the target of a Shadowsocks connection. -/
namespace Outbound.Shadowsocks

open Lib Protocol

def metadataTypeToByte : Protocol.MetadataType → UInt8
  | .ipv4 => 1
  | .domain => 3
  | .ipv6 => 4
  | .msg => 5
  | .invalid => 0

variable (t : NetText) (m : Protocol.Metadata)

def ipv4Bytes : Except Error Bytes :=
  match m.ip with
  | .v4 ip => .ok ip.1
  | _ =>
    match (t.parseIP m.hostname).bind to4 with
    | some ip => .ok (ip.take 4)
    | none => .error (.errorf s!"not a valid ipv4: {text m.hostname} (type 0)")

def ipv6Bytes : Except Error Bytes :=
  match m.ip with
  | .v6 ip => .ok ip.1
  | _ =>
    match t.parseIP m.hostname with
    | some ip => .ok (ip.take 16)
    | none => .error (.errorf s!"not a valid ipv6: {text m.hostname} (type 1)")

/-- `BytesFromPool`; `none` is the panic on a type it does not know. -/
def bytesFromPool (lenMsgBody : UInt32) : Option (Except Error Bytes) :=
  let typeByte := metadataTypeToByte m.type
  match m.type with
  | .ipv4 => some ((ipv4Bytes t m).map fun ip => typeByte :: (ip ++ beBytes 2 m.port.toNat))
  | .ipv6 => some ((ipv6Bytes t m).map fun ip => typeByte :: (ip ++ beBytes 2 m.port.toNat))
  | .domain =>
    let lenDN := m.hostname.length
    if lenDN > 255 then some (.error (.errorf s!"domain name too long: {lenDN}"))
    else some (.ok (typeByte :: .ofNat lenDN :: (m.hostname ++ beBytes 2 m.port.toNat)))
  | .msg => some (.ok (typeByte :: m.cmd :: beBytes 4 lenMsgBody.toNat))
  | .invalid => none

def Encodable : Prop :=
  ∀ lenMsgBody, ∃ header, bytesFromPool t m lenMsgBody = some (.ok header)

end Outbound.Shadowsocks
