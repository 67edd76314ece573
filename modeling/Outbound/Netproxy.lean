import Outbound.Lib.Bytes

/-! Socket addresses, errors and the result of one packet read, as every packet connection of the
repository returns them. -/
namespace Outbound

open Lib

inductive Addr where
  | zero
  | v4 (ip : Octets 4)
  | v6 (ip : Octets 16)
deriving DecidableEq

/-- `Unmap`: an IPv4 address in its IPv6 form becomes the IPv4 address. -/
def Addr.unmap : Addr → Addr
  | .v6 ip =>
    if ip.1.take 12 = [0, 0, 0, 0, 0, 0, 0, 0, 0, 0, 255, 255] then .v4 (.ofBytes 4 (ip.1.drop 12))
    else .v6 ip
  | a => a

structure AddrPort where
  addr : Addr
  port : UInt16
deriving DecidableEq

def AddrPort.zero : AddrPort := ⟨.zero, 0⟩

def AddrPort.isValid (a : AddrPort) : Bool := a.addr != .zero

/-- The error values the source compares by identity. -/
inductive Sentinel where
  | eof
  | unexpectedEOF
  | shortBuffer
  | authenticationFailed
  | replayAttack
  | timestampExpired
  | invalidAddress
  | invalidMetadata
  | malformedDatagram
  | closed
deriving DecidableEq

inductive Error where
  | sentinel (s : Sentinel)
  | errorf (text : String)
  | wrap (text : String) (cause : Error)
  | datagramDropped (cause : Error)
  | datagramTooLarge (maxDataLen : ℤ)
  | protocolError (message : String)
deriving DecidableEq

/-- One packet read: what was copied to the front of the caller's buffer, from where, and the
error. -/
structure ReadResult where
  data : Bytes
  addr : AddrPort
  err : Option Error
deriving DecidableEq

namespace ReadResult

def ok (data : Bytes) (addr : AddrPort) : ReadResult := ⟨data, addr, none⟩

def fail (err : Error) : ReadResult := ⟨[], .zero, some err⟩

def dropped (addr : AddrPort) : ReadResult :=
  ⟨[], addr, some (.datagramDropped (.sentinel .shortBuffer))⟩

end ReadResult

structure WriteOut where
  n : ℕ
  err : Option Error
  sent : Bytes
deriving DecidableEq

structure ReceivedPacket where
  data : Bytes
  src : AddrPort
  err : Option Error
deriving DecidableEq

def addressTypeIPv4 : UInt8 := 1

def addressTypeDomain : UInt8 := 3

def addressTypeIPv6 : UInt8 := 4

inductive SocksAddr where
  | ipv4 (ip : Octets 4) (port : UInt16)
  | ipv6 (ip : Octets 16) (port : UInt16)
  | domain (name : Bytes) (short : name.length < 256) (port : UInt16)

def SocksAddr.encode : SocksAddr → Bytes
  | ipv4 ip port => addressTypeIPv4 :: (ip.1 ++ beBytes 2 port.toNat)
  | ipv6 ip port => addressTypeIPv6 :: (ip.1 ++ beBytes 2 port.toNat)
  | domain name _ port =>
    addressTypeDomain :: UInt8.ofNat name.length :: (name ++ beBytes 2 port.toNat)

def SocksAddr.addrPort : SocksAddr → Option AddrPort
  | ipv4 ip port => some ⟨.v4 ip, port⟩
  | ipv6 ip port => some ⟨.v6 ip, port⟩
  | domain _ _ _ => none

end Outbound
