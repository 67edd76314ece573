import Outbound.Anytls.Transparency

/-! Datagrams over a stream of a session: every datagram with its length in front, and the address of
the target in front of the first one. -/
namespace Outbound.Anytls

open Lib

def maxUDPPayloadSize : ℕ := 65535

structure PacketStream where
  id : UInt32
  addr : String
  addrPort : AddrPort
  udpWriteAddr : Bool
  closed : Bool

def datagram (p : Bytes) : Bytes := beBytes 2 p.length ++ p

def connected (tgtAddr p : Bytes) : Bytes := [1] ++ tgtAddr ++ datagram p

def payloadTooLarge (n : ℕ) : Error :=
  .errorf s!"anytls udp payload too large: {n} > {maxUDPPayloadSize}"

/-- `writeDataFramesBatch`: the frames of all payloads in one padded write. -/
def Session.writeDataFramesBatch (s : Session) (sid : UInt32) (datas : List Bytes) (rnd : ℕ → ℕ) :
    Option (Reply × Session) :=
  let frames := datas.flatMap (dataFrames sid)
  match frames.mapM encodedFrameSize with
  | .error err => some (⟨0, some err⟩, s)
  | .ok _ =>
    if frames.isEmpty then some (⟨0, none⟩, s)
    else (s.writeConnLocked (encodeFrames frames) rnd).map fun w =>
      (if w.1.err = none then ⟨(frames.flatMap Frame.data).length, none⟩ else ⟨0, w.1.err⟩, w.2)

structure Sender where
  ps : PacketStream
  session : Session

structure BatchItem where
  data : Bytes
  addr : String

variable (c : Sender) (r : Reader) (n : ℕ)

namespace Sender

def announced : Sender := { c with ps.udpWriteAddr := true }

def finish (w : Option (Reply × Session)) : Option (Reply × Sender) :=
  w.map fun w => (if w.1.err = none then ⟨n, none⟩ else ⟨0, w.1.err⟩, { c with session := w.2 })

variable (parseAddr : String → Except Error Bytes)

def writeTo (c : Sender) (p : Bytes) (addr : String) (rnd : ℕ → ℕ → ℕ) : Option (Reply × Sender) :=
  if c.ps.closed then some (⟨0, some (.sentinel .closed)⟩, c)
  else if maxUDPPayloadSize < p.length then some (⟨0, some (payloadTooLarge p.length)⟩, c)
  else if c.ps.udpWriteAddr then
    c.finish p.length (c.session.writeDataFrames c.ps.id (datagram p) rnd)
  else
    match parseAddr addr with
    | .error err => some (⟨0, some err⟩, c)
    | .ok tgtAddr =>
      c.announced.finish p.length (c.session.writeDataFrames c.ps.id (connected tgtAddr p) rnd)

def batchDatas (tgtAddr : Option Bytes) : List BatchItem → List Bytes
  | [] => []
  | item :: items =>
    tgtAddr.elim (datagram item.data) (fun tgtAddr => connected tgtAddr item.data) ::
      items.map fun item => datagram item.data

def firstAddr (item : BatchItem) : String :=
  if item.addr ≠ "" then item.addr else c.ps.addr

def writeBatch (c : Sender) (items : List BatchItem) (rnd : ℕ → ℕ) : Option (Reply × Sender) :=
  match items with
  | [] => some (⟨0, none⟩, c)
  | first :: _ =>
    match items.find? (fun item => maxUDPPayloadSize < item.data.length) with
    | some item => some (⟨0, some (payloadTooLarge item.data.length)⟩, c)
    | none =>
      if c.ps.closed then some (⟨0, some (.sentinel .closed)⟩, c)
      else if c.ps.udpWriteAddr then
        c.finish items.length
          (c.session.writeDataFramesBatch c.ps.id (batchDatas none items) rnd)
      else
        match parseAddr (c.firstAddr first) with
        | .error err => some (⟨0, some err⟩, c)
        | .ok tgtAddr => c.announced.finish items.length
            (c.session.writeDataFramesBatch c.ps.id (batchDatas (some tgtAddr) items) rnd)

end Sender

inductive Stop where
  | deadlineExceeded
  | eof
  | closed
deriving DecidableEq

def Stop.err : Stop → Error
  | .deadlineExceeded => .errorf "i/o timeout"
  | .eof => .sentinel .eof
  | .closed => .sentinel .closed

/-- What `nextChunkLocked` returns: the data of a frame, or an error. -/
inductive Arrives where
  | chunk (data : Bytes)
  | stop (s : Stop)

/-- The reading half of a stream: what is left of the last chunk, and what the next waits for a chunk
will end with. After the last of them the peer has closed the stream. -/
structure Reader where
  readBuf : Bytes
  inbound : List Arrives

namespace Reader

def fill : List Arrives → Except Stop Bytes × List Arrives
  | [] => (.error .eof, [])
  | .stop s :: inbound => (.error s, inbound)
  | .chunk [] :: inbound => fill inbound
  | .chunk (b :: data) :: inbound => (.ok (b :: data), inbound)

def readLocked (l : ℕ) : Except Stop Bytes × Reader :=
  match r.readBuf with
  | b :: readBuf => (.ok ((b :: readBuf).take l), ⟨(b :: readBuf).drop l, r.inbound⟩)
  | [] =>
    match fill r.inbound with
    | (.error s, inbound) => (.error s, ⟨[], inbound⟩)
    | (.ok chunk, inbound) => (.ok (chunk.take l), ⟨chunk.drop l, inbound⟩)

/-- `readFullLocked` into what is left of a buffer, after `got`. Every round gets something, so that
the length of the buffer bounds their number. -/
def readFullFrom : ℕ → Reader → ℕ → Bytes → Except Stop Bytes × Reader
  | 0, r, _, got => (.ok got, r)
  | fuel + 1, r, k, got =>
    if k = 0 then (.ok got, r)
    else
      match r.readLocked k with
      | (.error s, r) => (.error s, r)
      | (.ok b, r) => readFullFrom fuel r (k - b.length) (got ++ b)

def readFullLocked (k : ℕ) : Except Stop Bytes × Reader := readFullFrom k r k []

/-- `drainLocked` through a buffer of `size` bytes. -/
def drainFrom (size : ℕ) : ℕ → Reader → ℕ → Option Stop × Reader
  | 0, r, _ => (none, r)
  | fuel + 1, r, n =>
    if n = 0 then (none, r)
    else
      match r.readFullLocked (min size n) with
      | (.error s, r) => (some s, r)
      | (.ok _, r) => drainFrom size fuel r (n - min size n)

def drainLocked : Option Stop × Reader := drainFrom (min n 2048) n r n

/-- `ReadFrom` into `l` bytes, of a stream to `addr`. -/
def readFrom (addr : AddrPort) (r : Reader) (l : ℕ) : ReadResult × Reader :=
  match r.readFullLocked 2 with
  | (.error s, r) => (.fail s.err, r)
  | (.ok lengthBuf, r) =>
    let length := beNat lengthBuf
    if l < length then
      match r.drainLocked length with
      | (some s, r) => (⟨[], addr, some s.err⟩, r)
      | (none, r) => (.dropped addr, r)
    else
      match r.readFullLocked length with
      | (.error s, r) => (⟨[], addr, some s.err⟩, r)
      | (.ok p, r) => (.ok p addr, r)

end Reader

end Outbound.Anytls
