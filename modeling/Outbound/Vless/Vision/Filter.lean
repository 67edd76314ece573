import Outbound.Lib.Bytes

/-! The TLS sniffer of the Vision flow: it watches the first packets of both directions and decides
whether the payload is TLS, and whether the rest may go out without outer encryption. -/
namespace Outbound.Vless.Vision

open Lib

def tls13SupportedVersions : Bytes := [0x00, 0x2b, 0x00, 0x02, 0x03, 0x04]

def tlsClientHandshakeStart : Bytes := [0x16, 0x03]

def tlsServerHandshakeStart : Bytes := [0x16, 0x03, 0x03]

def tlsApplicationDataStart : Bytes := [0x17, 0x03, 0x03]

def tlsHandshakeTypeClientHello : UInt8 := 1

def tlsHandshakeTypeServerHello : UInt8 := 2

def tls13CipherSuiteMap : UInt16 → Option String
  | 0x1301 => some "TLS_AES_128_GCM_SHA256"
  | 0x1302 => some "TLS_AES_256_GCM_SHA384"
  | 0x1303 => some "TLS_CHACHA20_POLY1305_SHA256"
  | 0x1304 => some "TLS_AES_128_CCM_SHA256"
  | 0x1305 => some "TLS_AES_128_CCM_8_SHA256"
  | _ => none

variable (b sep : Bytes)

def bytesIndex : Option ℕ :=
  (List.range (b.length + 1)).find? fun i => sep.isPrefixOf (b.drop i)

def bytesLastIndex : Option ℕ :=
  (List.range (b.length + 1)).reverse.find? fun i => sep.isPrefixOf (b.drop i)

def bytesContains : Bool := (bytesIndex b sep).isSome

structure Filter where
  packetsToFilter : ℕ
  isTLS : Bool
  isTLS12orAbove : Bool
  enableXTLS : Bool
  cipher : UInt16
  remainingServerHello : UInt16
deriving DecidableEq

namespace Filter

def new : Filter := ⟨6, false, false, false, 0, 0⟩

variable (f : Filter) (buffer : Bytes)

def stopFiltering : Filter := { f with packetsToFilter := 0 }

/-- The server-hello half of the sniffer, on a buffer with a handshake record at `index`. -/
def seeServerHandshake (index : ℕ) : Filter :=
  let lenP := buffer.length
  if lenP > index + 5 ∧ buffer.take 3 = tlsServerHandshakeStart then
    let f := { f with isTLS := true }
    if buffer.getD 5 0 = tlsHandshakeTypeServerHello then
      let f := { f with
        remainingServerHello := .ofNat (beNat ((buffer.drop (index + 3)).take 2)) + 5
        isTLS12orAbove := true }
      let sessionIDLen := (buffer.getD (index + 43) 0).toNat
      let cipherOff := index + 44 + sessionIDLen
      if lenP - index ≥ 79 ∧ f.remainingServerHello ≥ 79 ∧ sessionIDLen ≤ 32 ∧
          cipherOff + 2 ≤ lenP then
        { f with cipher := .ofNat (beNat ((buffer.drop cipherOff).take 2)) }
      else f
    else f
  else f

/-- The search for the supported-versions marker in what is left of the server hello, from `i`. -/
def seeRemaining (i : ℕ) : Filter :=
  let lenP := buffer.length
  let want := f.remainingServerHello.toNat
  let stop := if i + want > lenP then lenP else i + want
  let f := { f with remainingServerHello := f.remainingServerHello - .ofNat (stop - i) }
  if bytesContains ((buffer.drop i).take (stop - i)) tls13SupportedVersions then
    let f := { f with packetsToFilter := 0 }
    match tls13CipherSuiteMap f.cipher with
    | some cs => if cs ≠ "TLS_AES_128_CCM_8_SHA256" then { f with enableXTLS := true } else f
    | none => f
  else if f.remainingServerHello ≤ 0 then { f with packetsToFilter := 0 }
  else f

def filterTLS : Filter :=
  if f.packetsToFilter = 0 then f
  else
    let f := { f with packetsToFilter := f.packetsToFilter - 1 }
    let server := bytesIndex buffer tlsServerHandshakeStart
    let client := bytesIndex buffer tlsClientHandshakeStart
    let f : Filter :=
      match server, client with
      | some index, _ => f.seeServerHandshake buffer index
      | none, some index =>
        if buffer.length > index + 5 ∧ buffer.getD (index + 5) 0 = tlsHandshakeTypeClientHello then
          { f with isTLS := true }
        else f
      | none, none => f
    if f.remainingServerHello > 0 then f.seeRemaining buffer ((server.or client).getD 0) else f

def filterAll (buffers : List Bytes) : Filter := buffers.foldl filterTLS f

end Filter

/-- The buffer consists of complete application-data records and nothing else. The fuel is the
number of records that can still fit. -/
def completeRecords : ℕ → Bytes → Bool
  | 0, b => b.isEmpty
  | fuel + 1, b =>
    if b.length = 0 then true
    else if b.length < 5 ∨ b.take 3 ≠ tlsApplicationDataStart then false
    else
      let recordLen := beNat ((b.drop 3).take 2)
      if recordLen = 0 ∨ b.length - 5 < recordLen then false
      else completeRecords fuel (b.drop (5 + recordLen))

def isCompleteAppDataRecords : Bool :=
  if b.length < 6 then false else completeRecords b.length b

def startsWithAppData : Bool := 6 ≤ b.length && b.take 3 == tlsApplicationDataStart

end Outbound.Vless.Vision
