import Outbound.Lib.Run
import Outbound.Trojanc.Addr

/-! Datagrams over a Trojan or Juicity stream: a frame with the target in front of each. The two
protocols differ in the two bytes that Trojan puts behind the length, and in an error. -/
namespace Outbound.Trojanc

open Lib Protocol

inductive Variant where
  | trojan
  | juicity
deriving DecidableEq

namespace Variant

def trailer : Variant → Bytes
  | trojan => [13, 10]
  | juicity => []

def tooLarge : Variant → ℕ → Error
  | trojan, n => .errorf s!"trojan udp payload too large: {n} > 65535"
  | juicity, n => .errorf s!"juicity udp payload too large: {n} > 65535"

def addrError : Variant → Error → Error
  | trojan, err => err
  | juicity, err => .wrap "ReadFrom AddrPort" err

end Variant

variable (t : NetText) (v : Variant) (lookup : Lookup) (m : Metadata) (data : Bytes)

def frameLen : ℕ := len m + 2 + v.trailer.length + data.length

/-- `SealUDP`: the payload is copied first, so that it may overlap. -/
def sealUDP (dst data : Bytes) : Option Bytes := do
  let n := len m
  let dst ← copyAt dst (n + 2 + v.trailer.length) data
  let packed ← packTo t m dst
  let dst ← putAt packed.1 n (beBytes 2 data.length)
  copyAt dst (n + 2) v.trailer

/-- A datagram with the text of its target; `target` is what the text stands for. -/
structure Datagram where
  data : Bytes
  addr : Bytes
  target : Metadata

structure Sender where
  writeTarget : Option (Bytes × Metadata)

namespace Sender

variable (c : Sender)

def metadataForAddr (addr : Bytes) : Except Error Metadata × Sender :=
  match c.writeTarget.filter (fun entry => entry.1 = addr) with
  | some cached => (.ok cached.2, c)
  | none =>
    match t.parseMetadata addr with
    | .error err => (.error err, c)
    | .ok mdata => (.ok mdata, ⟨some (addr, mdata)⟩)

def borrow (memory : ℕ → UInt8) (size : ℕ) : Bytes := (List.range size).map memory

/-- `WriteTo`; `none` is a panic. -/
def writeTo (p addr : Bytes) (memory : ℕ → UInt8) : Option (WriteOut × Sender) :=
  match c.metadataForAddr t addr with
  | (.error err, c) => some (⟨0, some err, []⟩, c)
  | (.ok metadata, c) =>
    (sealUDP t v metadata (borrow memory (frameLen v metadata p)) p).map fun buf =>
      (⟨p.length, none, buf⟩, c)

def metadatas (c : Sender) : List (Bytes × Bytes) → Except Error (List Metadata) × Sender
  | [] => (.ok [], c)
  | (data, addr) :: items =>
    if data.length > 0xffff then (.error (v.tooLarge data.length), c)
    else
      match c.metadataForAddr t addr with
      | (.error err, c) => (.error err, c)
      | (.ok metadata, c) =>
        match c.metadatas items with
        | (.error err, c) => (.error err, c)
        | (.ok ms, c) => (.ok (metadata :: ms), c)

/-- The sealing loop of `WriteBatch`, from position `offset` of the buffer on. -/
def sealAll : List (Metadata × Bytes) → ℕ → Bytes → Option Bytes
  | [], _, buf => some buf
  | (m, data) :: items, offset, buf => do
    let dst ← sealUDP t v m (buf.drop offset) data
    sealAll items (offset + frameLen v m data) (buf.take offset ++ dst)

def writeBatch (items : List (Bytes × Bytes)) (memory : ℕ → UInt8) : Option (WriteOut × Sender) :=
  if items = [] then some (⟨0, none, []⟩, c)
  else
    match c.metadatas t v items with
    | (.error err, c) => some (⟨0, some err, []⟩, c)
    | (.ok ms, c) =>
      let frames := ms.zip (items.map Prod.fst)
      let total := (frames.map fun f => frameLen v f.1 f.2).sum
      (sealAll t v frames 0 (borrow memory total)).map fun buf =>
        (⟨items.length, none, buf⟩, c)

inductive Call where
  | writeTo (d : Datagram) (memory : ℕ → UInt8)
  | writeBatch (ds : List Datagram) (memory : ℕ → UInt8)

def Call.datagrams : Call → List Datagram
  | .writeTo d _ => [d]
  | .writeBatch ds _ => ds

def call : Call → Option (WriteOut × Sender)
  | .writeTo d memory => c.writeTo t v d.data d.addr memory
  | .writeBatch ds memory => c.writeBatch t v (ds.map fun d => (d.data, d.addr)) memory

def calls (c : Sender) : List Call → Option (List WriteOut)
  | [] => some []
  | x :: xs => do
    let out ← c.call t v x
    let outs ← calls out.2 xs
    return out.1 :: outs

end Sender

def withAddr (err : Option Error) : ReadResult :=
  match m.domainIpMapping t lookup with
  | .error err => .fail (v.addrError err)
  | .ok addr => ⟨data, addr, err⟩

/-- The payload of a frame, for a buffer of `l` bytes. The whole frame is read before its address is
looked up. -/
def readPayload (s : Source UInt8) (length l : ℕ) : ReadResult × Source UInt8 :=
  if length > l then
    let p := Io.readFull s l
    match p.err with
    | some err => (.fail err, p.stream)
    | none =>
      (withAddr t v lookup m p.data (some (.datagramDropped (.sentinel .shortBuffer))),
        (Io.discard p.stream (length - l)).2)
  else
    let p := Io.readFull s length
    match p.err with
    | some err => (.fail err, p.stream)
    | none => (withAddr t v lookup m p.data none, p.stream)

def readFrom (lookup : Lookup) (s : Source UInt8) (l : ℕ) : ReadResult × Source UInt8 :=
  match unpack t s with
  | (.error err, s) => (.fail err, s)
  | (.ok m, s) =>
    let length := Io.readFull s (2 + v.trailer.length)
    match length.err with
    | some err => (.fail err, length.stream)
    | none =>
      if length.data.drop 2 ≠ v.trailer then
        (.fail (.errorf "invalid trojan UDP CRLF"), length.stream)
      else readPayload t v lookup m length.stream (beNat (length.data.take 2)) l

end Outbound.Trojanc
