import Outbound.Lib.Sink
import Outbound.Trojanc.Packet

/-! The request header in front of a Trojan or Juicity stream, and the writes that send it. -/
namespace Outbound.Trojanc

open Lib Protocol

inductive Network where
  | tcp
  | udp
  | invalid
deriving DecidableEq

def networkToByte : Network → UInt8
  | .tcp => 1
  | .udp => 3
  | .invalid => 0

def crlf : Bytes := [13, 10]

/-- What does not change of a connection. Juicity has no password in its header. -/
structure Setup where
  text : NetText
  variant : Variant
  pass : Octets 56
  network : Network
  metadata : Metadata

/-- `reqHeaderFromPool` of Trojan and `reqHeader` of Juicity, in a buffer that holds anything;
`none` is a panic. -/
def Setup.reqHeader (x : Setup) (memory : ℕ → UInt8) : Option Bytes :=
  let reqLen := len x.metadata
  match x.variant with
  | .trojan => do
    let buf := Sender.borrow memory (56 + 2 + 1 + reqLen + 2)
    let buf ← copyAt buf 0 x.pass.1
    let buf ← copyAt buf 56 crlf
    let buf ← putAt buf 58 [networkToByte x.network]
    let packed ← packTo x.text x.metadata (buf.drop 59)
    copyAt (buf.take 59 ++ packed.1) (59 + reqLen) crlf
  | .juicity => do
    let buf := Sender.borrow memory (1 + reqLen)
    let buf ← putAt buf 0 [networkToByte x.network]
    let packed ← packTo x.text x.metadata (buf.drop 1)
    return buf.take 1 ++ packed.1

/-- A byte that the underlying connection took: the one at a position of a header, or one of a
payload. -/
inductive Sent where
  | header (i : ℕ) (b : UInt8)
  | payload (b : UInt8)
deriving DecidableEq

def Sent.isPayload : Sent → Bool
  | .header _ _ => false
  | .payload _ => true

def Sent.begins : Sent → Bool
  | .header i _ => i == 0
  | .payload _ => false

def headerBytes (header : Bytes) : List Sent := header.zipIdx.map fun x => .header x.2 x.1

/-- A connection. What the underlying connection took is kept for the statements. -/
structure Conn where
  onceWrite : Bool
  log : List Sent

def newConn : Conn := ⟨false, []⟩

structure CallResult where
  n : ℕ
  err : Option Error
deriving DecidableEq

namespace Conn

variable (c : Conn)

def take (sent : List Sent) : Conn := { c with log := c.log ++ sent }

def markWritten : Conn := { c with onceWrite := true }

def writeUnder (b : Bytes) (w : WriteEnd Error) : CallResult × Conn :=
  (⟨(w.taken b).length, w.err⟩, c.take ((w.taken b).map .payload))

/-- `WriteTo` of the buffers with the header and, unless it is empty, the payload: one write after
the other, up to the first that fails. -/
def writeBuffers (header payload : Bytes) (h p : WriteEnd Error) : CallResult × Conn :=
  let c := c.take (h.taken (headerBytes header))
  match h.err with
  | some e => (⟨(h.taken header).length, some e⟩, c)
  | none =>
    if payload = [] then (⟨header.length, none⟩, c)
    else
      let out := c.writeUnder payload p
      (⟨header.length + out.1.n, out.1.err⟩, out.2)

def headerResult (v : Variant) (header payload : Bytes) (out : CallResult) : CallResult :=
  match v, out.err with
  | .trojan, some e =>
    if out.n ≤ header.length then ⟨0, some (.wrap "write header" e)⟩
    else ⟨out.n - header.length, some (.wrap "write header" e)⟩
  | .trojan, none =>
    if out.n < header.length then ⟨0, some (.wrap "write header" (.errorf "short write"))⟩
    else ⟨out.n - header.length, none⟩
  | .juicity, some e => ⟨0, some (.wrap "write header" e)⟩
  | .juicity, none => ⟨payload.length, none⟩

/-- The attempt to send the header; it counts as sent only when everything was. -/
def sendHeader (v : Variant) (header payload : Bytes) (h p : WriteEnd Error) : CallResult × Conn :=
  let out := c.writeBuffers header payload h p
  let result := headerResult v header payload out.1
  (result, if result.err = none then out.2.markWritten else out.2)

end Conn

/-- A call, with the memory of the buffer for the header and the ends of the two writes of the
underlying connection that it may make. -/
inductive ConnCall where
  | write (b : Bytes) (memory : ℕ → UInt8) (h p : WriteEnd Error)
  | read (memory : ℕ → UInt8) (h : WriteEnd Error)

/-- A call panics while it builds the header, or returns. Of a `Read` this is the part before the
underlying connection is read. -/
inductive ConnAnswer where
  | panicked
  | returned (r : CallResult)

namespace Conn

variable (x : Setup) (c : Conn)

/-- The attempt with the header that is built for it. A panic leaves the connection as it is. -/
def attempt (payload : Bytes) (memory : ℕ → UInt8) (h p : WriteEnd Error) : ConnAnswer × Conn :=
  match x.reqHeader memory with
  | none => (.panicked, c)
  | some header =>
    let out := c.sendHeader x.variant header payload h p
    (.returned out.1, out.2)

def write (b : Bytes) (memory : ℕ → UInt8) (h p : WriteEnd Error) : ConnAnswer × Conn :=
  if !c.onceWrite && x.metadata.isClient then c.attempt x b memory h p
  else
    let out := c.writeUnder b p
    (.returned out.1, out.2)

/-- Only Trojan sends the header in a `Read`, and only over TCP. -/
def readSends : Bool :=
  x.variant = .trojan && x.metadata.isClient && x.network = .tcp

def read (memory : ℕ → UInt8) (h : WriteEnd Error) : ConnAnswer × Conn :=
  if readSends x && !c.onceWrite then c.attempt x [] memory h .ok else (.returned ⟨0, none⟩, c)

def step : ConnCall → ConnAnswer × Conn
  | .write b memory h p => c.write x b memory h p
  | .read memory h => c.read x memory h

end Conn

end Outbound.Trojanc
