import Outbound.Lib.Stream
import Outbound.Netproxy

/-! Datagrams over a Vision stream: the receiving half of the XUDP packet connection. -/
namespace Outbound.Vless.Vision

open Lib

def addrFromSlice (b : Bytes) : Option Addr :=
  if h : b.length = 4 then some (.v4 ⟨b, h⟩)
  else if h : b.length = 16 then some (.v6 ⟨b, h⟩)
  else none

/-- The address block: a byte that is skipped, the port, the type and the address. -/
def readPacketAddr (p : Bytes) : Except Error AddrPort :=
  if p.length < 1 + 2 + 1 + 4 then .error (.sentinel .unexpectedEOF)
  else
    let p := p.drop 1
    let port := beNat (p.take 2)
    let ipType := p.getD 2 0
    let ip := p.drop 3
    let ipLen := if ipType = 1 then 4 else 16
    if ip.length < ipLen then .error (.sentinel .unexpectedEOF)
    else
      match addrFromSlice (ip.take ipLen) with
      | none => .error (.errorf "invalid IP")
      | some ipAddr => .ok ⟨ipAddr, .ofNat port⟩

namespace PacketConn

structure Fetched where
  data : Bytes
  err : Option Error
  stream : Source UInt8

variable (s : Source UInt8) (addr : AddrPort) (l k : ℕ)

def fetch : Fetched :=
  let b := readFull Source.read k k [] s
  ⟨b.1, if b.1.length < k then some (.sentinel (if b.1 = [] then .eof else .unexpectedEOF))
    else none, b.2⟩

def discard : Option Error × Source UInt8 :=
  let b := readFull Source.read k k [] s
  (if b.1.length < k then some (.sentinel .eof) else none, b.2)

def readMetadata (frameLength : ℕ) (kind : UInt8) : Except Error AddrPort × Source UInt8 :=
  if kind = 0x01 then (.error (.errorf "unexpected frame new"), s)
  else if kind = 0x02 then
    if frameLength > 4 then
      let addrData := fetch s (frameLength - 4)
      (addrData.err.elim (readPacketAddr addrData.data) .error, addrData.stream)
    else (.ok .zero, s)
  else if kind = 0x03 then (.error (.sentinel .eof), s)
  else if kind = 0x04 then (.ok .zero, s)
  else
    let digits := String.ofList (Nat.toDigits 16 kind.toNat)
    (.error (.errorf s!"unsupported frame header: {digits}"), s)

def readPayload (length : ℕ) (addr : AddrPort) (l : ℕ) : ReadResult × Source UInt8 :=
  if length > l then
    let skipped := discard s length
    (.fail (skipped.1.getD (.datagramDropped (.sentinel .shortBuffer))), skipped.2)
  else
    let payload := fetch s length
    (⟨payload.data, addr, payload.err⟩, payload.stream)

def readData : ReadResult × Source UInt8 :=
  let lengthBytes := fetch s 2
  match lengthBytes.err with
  | some err => (.fail err, lengthBytes.stream)
  | none => readPayload lengthBytes.stream (beNat lengthBytes.data) addr l

variable (next : Source UInt8 → Option (ReadResult × Source UInt8))

/-- What follows the length and the header of a frame, where `next` goes on with the next frame. -/
def readBody (frameLength : ℕ)
    (header : Bytes) (s : Source UInt8) (l : ℕ) : Option (ReadResult × Source UInt8) :=
  match readMetadata s frameLength (header.getD 2 0) with
  | (.error err, s) => some (.fail err, s)
  | (.ok addr, s) => if header.getD 3 0 &&& 1 ≠ 1 then next s else some (readData s addr l)

def readFrame (s : Source UInt8) (l : ℕ) : Option (ReadResult × Source UInt8) :=
  let lengthBytes := fetch s 2
  match lengthBytes.err with
  | some err => some (.fail err, lengthBytes.stream)
  | none =>
    let header := fetch lengthBytes.stream 4
    match header.err with
    | some err => some (.fail err, header.stream)
    | none => readBody next (beNat lengthBytes.data) header.data header.stream l

/-- The loop of `ReadFrom` with a bound on its rounds; `none` when the bound is used up. -/
def readFromLoop : ℕ → Source UInt8 → ℕ → Option (ReadResult × Source UInt8)
  | 0, _, _ => none
  | fuel + 1, s, l => readFrame (fun s => readFromLoop fuel s l) s l

/-- `ReadFrom` with a buffer of `l` bytes. Every round takes bytes off the stream or returns. -/
def readFrom : Option (ReadResult × Source UInt8) :=
  readFromLoop (s.rest.length + 1) s l

end PacketConn

end Outbound.Vless.Vision
