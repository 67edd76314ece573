import Outbound.Netproxy

/-! The address codec of the SOCKS-style protocols, decode side. -/
namespace Outbound.Socks5

open Lib

structure AddressInfo where
  type : UInt8
  hostname : Bytes
  ip : Addr
  port : UInt16
deriving DecidableEq

/-- `io.ReadFull` of `k` bytes from bytes in memory. -/
def readFull (data : Bytes) (k : ℕ) : Except Error (Bytes × Bytes) :=
  if data.length < k then .error (.sentinel (if data = [] then .eof else .unexpectedEOF))
  else .ok (data.take k, data.drop k)

def readPort (info : AddressInfo) (data : Bytes) : Except Error (AddressInfo × Bytes) :=
  match readFull data 2 with
  | .error err => .error (.wrap "failed to read port" err)
  | .ok (b, rest) => .ok ({ info with port := .ofNat (beNat b) }, rest)

def readIP (typ : UInt8) (k : ℕ) (addr : Bytes → Addr) (data : Bytes) :
    Except Error (AddressInfo × Bytes) :=
  match readFull data k with
  | .error err => .error (.wrap "failed to read IP" err)
  | .ok (ip, rest) => readPort ⟨typ, [], addr ip, 0⟩ rest

def readDomain (typ : UInt8) : Bytes → Except Error (AddressInfo × Bytes)
  | [] => .error (.wrap "failed to read domain length" (.sentinel .eof))
  | domainLen :: data =>
    match readFull data domainLen.toNat with
    | .error err => .error (.wrap "failed to read domain" err)
    | .ok (domain, rest) => readPort ⟨typ, domain, .zero, 0⟩ rest

/-- `ReadAddrInfo`, with what is left of the data. -/
def readAddrInfo : Bytes → Except Error (AddressInfo × Bytes)
  | [] => .error (.wrap "too short" (.sentinel .invalidAddress))
  | typ :: data =>
    if typ = addressTypeIPv4 then readIP typ 4 (fun ip => .v4 (.ofBytes 4 ip)) data
    else if typ = addressTypeIPv6 then readIP typ 16 (fun ip => .v6 (.ofBytes 16 ip)) data
    else if typ = addressTypeDomain then readDomain typ data
    else .error (.wrap s!"invalid type: {typ}" (.sentinel .invalidAddress))

theorem readFull_append {a : Bytes} {k : ℕ} (h : a.length = k) (rest : Bytes) :
    readFull (a ++ rest) k = .ok (a, rest) := by
  rw [readFull, if_neg (by rw [List.length_append]; omega), List.take_left' h, List.drop_left' h]

theorem readPort_append (info : AddressInfo) (port : UInt16) (rest : Bytes) :
    readPort info (beBytes 2 port.toNat ++ rest) = .ok ({ info with port }, rest) := by
  have hnat : beNat (beBytes 2 port.toNat) = port.toNat := beNat_beBytes_of_lt port.toNat_lt
  simp [readPort, readFull_append (length_beBytes 2 _), hnat]

theorem readIP_append {typ : UInt8} {k : ℕ} {addr : Bytes → Addr} {ip : Bytes} (h : ip.length = k)
    (port : UInt16) (rest : Bytes) :
    readIP typ k addr (ip ++ (beBytes 2 port.toNat ++ rest)) =
      .ok (⟨typ, [], addr ip, port⟩, rest) := by
  simp only [readIP, readFull_append h, readPort_append]

theorem readDomain_append {typ : UInt8} {name : Bytes} (h : name.length ≤ 255) (port : UInt16)
    (rest : Bytes) :
    readDomain typ (.ofNat name.length :: (name ++ (beBytes 2 port.toNat ++ rest))) =
      .ok (⟨typ, name, .zero, port⟩, rest) := by
  have hlen : (UInt8.ofNat name.length).toNat = name.length := by
    rw [UInt8.toNat_ofNat']
    omega
  simp only [readDomain, hlen, readFull_append rfl, readPort_append]

end Outbound.Socks5
