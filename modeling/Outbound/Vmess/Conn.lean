import Outbound.Lib.Delivery
import Outbound.Protocol
import Outbound.Vmess.Chunk

/-! A VMess connection behind its request header: the response header, and the chunks written and
read in either direction. -/
namespace Outbound.Vmess

open Lib

/-- The cryptography of a connection. Both body ciphers and AES-GCM have tags of 16 bytes, and a
SHAKE stream is determined by its seed. -/
structure Primitives where
  newAEAD : Bytes → Aead
  nonceSize : ℕ
  newAesGcm : Bytes → Aead
  kdf : Bytes → String → Bytes
  sha256 : Bytes → Bytes
  shake : Bytes → ℕ → UInt16
  overhead_newAEAD : ∀ key, (newAEAD key).overhead = 16
  overhead_newAesGcm : ∀ key, (newAesGcm key).overhead = 16

inductive Network where
  | tcp
  | udp
  | other (name : String)
deriving DecidableEq

/-- What both ends know once the request header is through. -/
structure Session where
  crypto : Primitives
  requestBodyKey : Octets 16
  requestBodyIV : Octets 16
  requestOptions : UInt8
  responseAuth : UInt8
  network : Network
  metadata : Protocol.Metadata

namespace Session

variable (s : Session) (fromClient : Bool)

def responseBodyKey : Octets 16 := .ofBytes 16 (s.crypto.sha256 s.requestBodyKey.1)

def responseBodyIV : Octets 16 := .ofBytes 16 (s.crypto.sha256 s.requestBodyIV.1)

def bodyCipher : Aead :=
  s.crypto.newAEAD (if fromClient then s.requestBodyKey.1 else s.responseBodyKey.1)

def bodyCodecs : Codecs :=
  initChunkCodecs s.crypto.shake s.requestOptions
    (if fromClient then s.requestBodyIV else s.responseBodyIV) s.crypto.nonceSize

def respHeaderLenCipher : Aead :=
  s.crypto.newAesGcm ((s.crypto.kdf s.responseBodyKey.1 "AEAD Resp Header Len Key").take 16)

def respHeaderLenNonce : Bytes :=
  (s.crypto.kdf s.responseBodyIV.1 "AEAD Resp Header Len IV").take 12

def respHeaderCipher : Aead :=
  s.crypto.newAesGcm ((s.crypto.kdf s.responseBodyKey.1 "AEAD Resp Header Key").take 16)

def respHeaderNonce : Bytes :=
  (s.crypto.kdf s.responseBodyIV.1 "AEAD Resp Header IV").take 12

def respHeader : Bytes := [s.responseAuth, 0, 0, 0]

def encryptRespHeader (header : Bytes) : Bytes :=
  s.respHeaderLenCipher.sealText s.respHeaderLenNonce (beBytes 2 header.length) ++
    s.respHeaderCipher.sealText s.respHeaderNonce header

/-- The end that sends its request header first has sent it when the connection is there; the other
end puts its response header in front of its first chunk. -/
def preamble : Bytes :=
  if fromClient then [] else s.encryptRespHeader s.respHeader

end Session

/-- The writing half of a connection. `noise` are the random bytes of the padding of each chunk and
`sealed` counts the chunks. -/
structure Writer where
  session : Session
  isClient : Bool
  initWrite : Bool
  codecs : Codecs
  writeClosed : Bool
  noise : ℕ → ℕ → UInt8
  sealed : ℕ

namespace Writer

/-- A client has initialised its writing half with the request header. -/
def new (s : Session) (isClient : Bool) (noise : ℕ → ℕ → UInt8) : Writer where
  session := s
  isClient := isClient
  initWrite := isClient
  codecs := s.bodyCodecs isClient
  writeClosed := false
  noise := noise
  sealed := 0

variable (w : Writer) (b : Bytes)

def cipher : Aead := w.session.bodyCipher w.isClient

/-- `initWriteOnce`: the encrypted response header, the first time on the server. -/
def initWriteOnce : Option Bytes × Writer :=
  if w.initWrite then (none, w)
  else (some (w.session.encryptRespHeader w.session.respHeader),
    { w with initWrite := true, codecs := w.session.bodyCodecs w.isClient })


def sealFromPool : Bytes × Writer :=
  let data := sealChunk w.cipher w.codecs b (w.noise w.sealed)
  (data.1, { w with codecs := data.2, sealed := w.sealed + 1 })

/-- How much text a chunk takes, and how many chunks take `size` bytes. -/
def chunks (size : ℕ) : ℕ × ℕ :=
  let payloadSize :=
    maxChunkSize - w.cipher.overhead - w.codecs.sizeBytes - w.codecs.maxPaddingLen.toNat
  if size % payloadSize = 0 then (payloadSize, size / payloadSize)
  else (payloadSize, size / payloadSize + 1)

/-- The loop of `writeStream` for the chunks that are left, from position `n` on. -/
def writeChunks (b : Bytes) (payloadSize : ℕ) : ℕ → ℕ → Writer → Bytes × ℕ × Writer
  | 0, n, w => ([], n, w)
  | left + 1, n, w =>
    let data := w.sealFromPool ((b.take (min (n + payloadSize) b.length)).drop n)
    let rest := writeChunks b payloadSize left (n + payloadSize) data.2
    (data.1 ++ rest.1, rest.2)

def writeStream (preWrite : Option Bytes) : WriteOut × Writer :=
  let c := w.chunks b.length
  match preWrite with
  | some header =>
    let data := w.sealFromPool (b.take (min c.1 b.length))
    let rest := writeChunks b c.1 (c.2 - 1) c.1 data.2
    (⟨min rest.2.1 b.length, none, header ++ data.1 ++ rest.1⟩, rest.2.2)
  | none =>
    let rest := writeChunks b c.1 c.2 0 w
    (⟨min rest.2.1 b.length, none, rest.1⟩, rest.2.2)

def writePacket (preWrite : Option Bytes) : WriteOut × Writer :=
  if b.length + w.cipher.overhead + w.codecs.maxPaddingLen.toNat > 0xffff then
    (⟨0, some (.wrap
      s!"vmess: udp datagram of {b.length} bytes exceeds the 16-bit chunk length field"
      (.datagramDropped (.sentinel .shortBuffer))), []⟩, w)
  else
    let data := w.sealFromPool b
    (⟨b.length, none, preWrite.getD [] ++ data.1⟩, data.2)

/-- The unexported `write`. An empty write ends the stream with a chunk that holds no text. -/
def write : WriteOut × Writer :=
  if w.writeClosed then (⟨0, some (.sentinel .closed), []⟩, w)
  else
    let encRespHeader := w.initWriteOnce
    let w := encRespHeader.2
    if b = [] then
      let data := { w with writeClosed := true }.sealFromPool []
      (⟨0, none, data.1⟩, data.2)
    else
      match w.session.network with
      | .tcp => w.writeStream b encRespHeader.1
      | .udp => w.writePacket b encRespHeader.1
      | .other name =>
        (⟨0, some (.errorf s!"unsupported network (instruction cmd): {name}"), []⟩, w)

def sealPackets : List Bytes → Writer → Bytes × Writer
  | [], w => ([], w)
  | d :: datas, w =>
    let data := w.sealFromPool d
    let rest := sealPackets datas data.2
    (data.1 ++ rest.1, rest.2)

def writePackets (datas : List Bytes) : WriteOut × Writer :=
  if w.writeClosed then (⟨0, some (.sentinel .closed), []⟩, w)
  else
    let encRespHeader := w.initWriteOnce
    let w := encRespHeader.2
    let tooLarge := datas.find? fun d =>
      w.codecs.sizeBytes + d.length + w.cipher.overhead + w.codecs.maxPaddingLen.toNat > 0xffff
    match tooLarge with
    | some d => (⟨0, some (.errorf s!"vmess udp chunk too large: {d.length}"), []⟩, w)
    | none =>
      let data := sealPackets datas w
      (⟨datas.length, none, encRespHeader.1.getD [] ++ data.1⟩, data.2)

end Writer

/-- Whether the header of the peer has been read. -/
inductive ReadInit where
  | pending
  | ready
  | failed
deriving DecidableEq

structure Reader where
  session : Session
  isClient : Bool
  initRead : ReadInit
  codecs : Codecs
  leftToRead : Bytes
  stream : Source UInt8

namespace Reader

variable (s : Session) (stream : Source UInt8)

/-- A client has the response header still to read; a server starts behind the request header. -/
def new (isClient : Bool) (stream : Source UInt8) : Reader where
  session := s
  isClient := isClient
  initRead := if isClient then .pending else .ready
  codecs := s.bodyCodecs !isClient
  leftToRead := []
  stream := stream

def cipher (r : Reader) : Aead := r.session.bodyCipher !r.isClient

def checkRespHeader (buf : Bytes) : Option Error :=
  if buf.getD 0 0 ≠ s.responseAuth then
    some (.errorf s!"unexpected response auth: {buf.getD 0 0}, expect {s.responseAuth}")
  else if buf.getD 2 0 ≠ 0 then some (.errorf s!"unexpected response command: {buf.getD 2 0}")
  else none

def readRespHeaderBody (headerSize : ℕ) : Option Error × Source UInt8 :=
  let buf := Io.readFull stream (headerSize + 16)
  match buf.err with
  | some err => (some (.wrap "failed to read response header" err), buf.stream)
  | none =>
    match s.respHeaderCipher.openText s.respHeaderNonce buf.data with
    | none => (some (.wrap "failed to decrypt response header"
        (.errorf "cipher: message authentication failed")), buf.stream)
    | some header => (checkRespHeader s header, buf.stream)

def readRespHeader : Option Error × Source UInt8 :=
  let bufSize := Io.readFull stream 18
  match bufSize.err with
  | some err => (some (.wrap "failed to read response header length" err), bufSize.stream)
  | none =>
    match s.respHeaderLenCipher.openText s.respHeaderLenNonce bufSize.data with
    | none => (some (.wrap "failed to decrypt response header length"
        (.errorf "cipher: message authentication failed")), bufSize.stream)
    | some size => readRespHeaderBody s bufSize.stream (beNat (size.take 2))

variable (r : Reader) (l : ℕ)

def init : Option Error × Reader :=
  if r.initRead = .pending then
    let header := readRespHeader r.session r.stream
    match header.1 with
    | some err => (some err, { r with initRead := .failed, stream := header.2 })
    | none => (none, { r with
        initRead := .ready, codecs := r.session.bodyCodecs !r.isClient, stream := header.2 })
  else (none, r)

/-- A chunk for a buffer of `l` bytes. A datagram that does not fit is dropped as a whole. -/
def readNext : ReadOut UInt8 Error × Reader :=
  match readChunk r.cipher r.codecs r.stream with
  | (.error err, c, s) => (⟨[], some err⟩, { r with codecs := c, stream := s })
  | (.ok chunk, c, s) =>
    if l < chunk.length then
      if r.session.network = .udp then
        (⟨[], some (.datagramDropped (.sentinel .shortBuffer))⟩,
          { r with codecs := c, stream := s, leftToRead := [] })
      else (⟨chunk.take l, none⟩,
        { r with codecs := c, stream := s, leftToRead := chunk.drop l })
    else (⟨chunk, none⟩, { r with codecs := c, stream := s })

def readReady : ReadOut UInt8 Error × Reader :=
  if r.initRead = .failed then (⟨[], some (.sentinel .closed)⟩, r)
  else if r.leftToRead ≠ [] then
    if r.session.network = .udp then
      (⟨[], some (.datagramDropped (.sentinel .shortBuffer))⟩, { r with leftToRead := [] })
    else (⟨r.leftToRead.take l, none⟩, { r with leftToRead := r.leftToRead.drop l })
  else r.readNext l

/-- The unexported `read`, for a buffer of `l` bytes. -/
def read : ReadOut UInt8 Error × Reader :=
  match r.init with
  | (some err, r) => (⟨[], some err⟩, r)
  | (none, r) => r.readReady l

end Reader

end Outbound.Vmess
