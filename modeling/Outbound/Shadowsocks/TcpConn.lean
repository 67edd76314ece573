import Outbound.Io
import Outbound.Lib.Delivery
import Outbound.Lib.SealedWriter
import Outbound.Shadowsocks.Addr

/-! The Shadowsocks AEAD stream connection: sealing into a frame of a computed size on the one end,
reading chunk by chunk on the other. -/
namespace Outbound.Shadowsocks.Tcp

open Lib Protocol

def tcpChunkMaxLen : ℕ := 2 ^ 14 - 1

structure CipherConf where
  keyLen : ℕ
  saltLen : ℕ
  nonceLen : ℕ
  tagLen : ℕ
  newCipher : Bytes → Aead
  overhead : ∀ key, (newCipher key).overhead = tagLen
  saltLen_pos : 0 < saltLen

/-- What both ends of a connection share, and the library functions they call. `hkdf` gives the first
bytes of the stream for a key, a salt and an info; `scaled n` is
`int(10*float64(n)/(1+math.Log(float64(n))))`. -/
structure Session where
  conf : CipherConf
  masterKey : Bytes
  hkdf : Bytes → Bytes → Bytes → ℕ → Bytes
  net : NetText
  scaled : ℕ → ℤ
  scaled_one : scaled 1 = 10

variable (b : Bytes) (s : Session)

namespace Session

def reusedInfo : Bytes := [115, 115, 45, 115, 117, 98, 107, 101, 121]

def subKey (salt : Bytes) : Bytes := s.hkdf s.masterKey salt reusedInfo s.conf.keyLen

def fnv32a : UInt32 := b.foldl (fun h x => (h ^^^ x.toUInt32) * 16777619) 2166136261

def fnv32 : UInt32 := b.foldl (fun h x => (h * 16777619) ^^^ x.toUInt32) 2166136261

def calcPaddingLen (bodyWithoutAddr : Bytes) (req : Bool) : ℕ :=
  let maxPadding := max (s.scaled bodyWithoutAddr.length - bodyWithoutAddr.length) 0
  if maxPadding = 0 then 0
  else
    let h := if req then fnv32a (s.masterKey ++ bodyWithoutAddr)
      else fnv32 (s.masterKey ++ bodyWithoutAddr)
    h.toNat % maxPadding.toNat

end Session

def encryptedPayloadLen (plainTextLen tagLen : ℕ) : ℕ :=
  let n := plainTextLen / tcpChunkMaxLen
  let n := if plainTextLen % tcpChunkMaxLen > 0 then n + 1 else n
  plainTextLen + n * (2 + tagLen + tagLen)

/-- A buffer of `size` elements that still holds what is in its memory. -/
def poolGet (memory : ℕ → UInt8) (size : ℕ) : Bytes := (List.range size).map memory

def sealChunk (cipher : Aead) (tagLen : ℕ) (b : Bytes) (i l : ℕ) (st : Option Aead.Sealing) :
    Option Aead.Sealing :=
  st.bind fun s =>
  (putAt s.buf s.offset (beBytes 2 l)).bind fun buf =>
  -- The length is sealed in place.
  (putAt buf s.offset (cipher.sealText s.nonce ((buf.drop s.offset).take 2))).bind fun buf =>
  let offset := s.offset + (2 + tagLen)
  let nonce := incLE s.nonce
  (putAt buf offset (cipher.sealText nonce ((b.drop i).take l))).map fun buf =>
  ⟨buf, offset + (l + tagLen), incLE nonce, s.used ++ [s.nonce, nonce]⟩

def sealFrame (cipher : Aead) (tagLen : ℕ) (buf b nonce : Bytes) : Option Aead.Sealing :=
  cutLoop tcpChunkMaxLen b.length (sealChunk cipher tagLen b) b.length 0 (some ⟨buf, 0, nonce, []⟩)

/-- A connection, as its writes use it; `used` are the keys and nonces of all sealing so far. -/
structure Writer where
  session : Session
  metadata : Protocol.Metadata
  cipherWrite : Option Bytes
  onceWrite : Bool
  writeBroken : Bool
  nonceWrite : Bytes
  used : List (Bytes × Bytes)

/-- One call of `Write`: its payload, the bytes the random generator and the memory of its buffers
have, and how many bytes the connection takes before the write on it fails, if it does. -/
structure Call where
  payload : Bytes
  random : ℕ → UInt8
  memory : ℕ → UInt8
  fails : Option (ℕ × Error)

def closedWrite : Written Error := ⟨0, some (.sentinel .closed), [], []⟩

namespace Writer

def new (m : Protocol.Metadata) : Writer :=
  ⟨s, m, none, false, false, List.replicate s.conf.nonceLen 0, []⟩

variable (w : Writer) (c : Call)

def cipher (key : Bytes) : Aead := w.session.conf.newCipher key

def preamble (b : Bytes) : Option (Except Error Bytes) :=
  if w.metadata.isClient ∨ w.metadata.type = .msg then
    bytesFromPool w.session.net w.metadata (.ofNat b.length)
  else some (.ok [])

/-- The padding that goes behind the first payload: a buffer that is never written. -/
def suffix : Bytes :=
  if w.metadata.type = .msg then
    poolGet c.memory (w.session.calcPaddingLen c.payload w.metadata.isClient)
  else []

/-- `iout.WriteFull` on the connection, and what follows it. -/
def send (frame : Bytes) : Written Error × Writer :=
  match c.fails with
  | some (k, err) =>
    -- An empty frame makes no write that could fail.
    if frame = [] then (⟨c.payload.length, none, frame, []⟩, { w with onceWrite := true })
    else (⟨0, some err, frame, frame.take k⟩, { w with writeBroken := true })
  | none => (⟨c.payload.length, none, frame, frame⟩, { w with onceWrite := true })

/-- Sealing `toPack` in the frame `buf` from `offset` on, and sending it; `none` is a panic. -/
def sealAndSend (key buf : Bytes) (offset : ℕ) (toPack : Bytes) : Option (Written Error) × Writer :=
  match sealFrame (w.cipher key) w.session.conf.tagLen (buf.drop offset) toPack w.nonceWrite with
  | none => (none, w)
  | some s =>
    let w := { w with
      nonceWrite := s.nonce, used := w.used ++ s.used.map fun nonce => (key, nonce) }
    let out := w.send c (buf.take offset ++ s.buf.take s.offset)
    (some out.1, out.2)

def write : Option (Written Error) × Writer :=
  if w.writeBroken then (some closedWrite, w)
  else if w.onceWrite then
    match w.cipherWrite with
    | none => (some ⟨0, some (.errorf "fail to initiate cipher"), [], []⟩, w)
    | some key =>
      let size := encryptedPayloadLen c.payload.length w.session.conf.tagLen
      w.sealAndSend c key (poolGet c.memory size) 0 c.payload
  else
    match w.preamble c.payload with
    | none => (none, w)
    | some (.error err) => (some ⟨0, some err, [], []⟩, w)
    | some (.ok header) =>
      let toWrite := header ++ (c.payload ++ w.suffix c)
      let saltLen := w.session.conf.saltLen
      let size := saltLen + encryptedPayloadLen toWrite.length w.session.conf.tagLen
      let salt := poolGet c.random saltLen
      let buf := salt ++ (poolGet c.memory size).drop saltLen
      let key := w.session.subKey salt
      { w with cipherWrite := some key }.sealAndSend c key buf saltLen toWrite

end Writer

/-- A connection, as its reads use it; `leftToRead` is what is left of the last chunk, and `bloom`
answers whether a salt was seen before, when there is such a filter. -/
structure Reader where
  session : Session
  bloom : Option (Bytes → Bool)
  onceRead : Bool
  cipherRead : Bytes
  nonceRead : Bytes
  leftToRead : Bytes
  stream : Source UInt8

/-- What a `Read` copied to the caller's buffer, its error, and the number it returned. -/
structure Counted where
  n : ℕ
  out : ReadOut UInt8 Error

namespace Reader

def new (bloom : Option (Bytes → Bool)) (stream : Source UInt8) : Reader :=
  ⟨s, bloom, false, [], List.replicate s.conf.nonceLen 0, [], stream⟩

variable (r : Reader)

def cipher : Aead := r.session.conf.newCipher r.cipherRead

/-- The second half of `readChunk`, for a payload of `length` bytes. -/
def readPayload (length : ℕ) : Except Error Bytes × Reader :=
  let f := Io.readFull r.stream (length + r.session.conf.tagLen)
  match f.err with
  | some err => (.error err, { r with stream := f.stream })
  | none =>
    match r.cipher.openText r.nonceRead f.data with
    | none => (.error (.sentinel .authenticationFailed), { r with stream := f.stream })
    | some payload => (.ok payload, { r with stream := f.stream, nonceRead := incLE r.nonceRead })

def readChunk : Except Error Bytes × Reader :=
  let f := Io.readFull r.stream (2 + r.session.conf.tagLen)
  match f.err with
  | some err => (.error err, { r with stream := f.stream })
  | none =>
    match r.cipher.openText r.nonceRead f.data with
    | none => (.error (.sentinel .authenticationFailed), { r with stream := f.stream })
    | some length =>
      { r with stream := f.stream, nonceRead := incLE r.nonceRead }.readPayload
        (beNat (length.take 2))

def readOn (l : ℕ) : ReadOut UInt8 Error × Reader :=
  if r.leftToRead ≠ [] then
    (⟨r.leftToRead.take l, none⟩, { r with leftToRead := r.leftToRead.drop l })
  else
    match r.readChunk with
    | (.error err, r) => (⟨[], some err⟩, r)
    | (.ok chunk, r) =>
      (⟨chunk.take l, none⟩, if l < chunk.length then { r with leftToRead := chunk.drop l } else r)

def start (salt : Bytes) (stream : Source UInt8) : Reader :=
  { r with
    stream
    bloom := r.bloom.map fun seen => Function.update seen salt true
    cipherRead := r.session.subKey salt
    onceRead := true }

/-- `Read` with room for `l` bytes. An error before the first chunk is returned with the number of
bytes that were read of the salt. -/
def read (l : ℕ) : Counted × Reader :=
  if r.onceRead then
    let on := r.readOn l
    (⟨on.1.data.length, on.1⟩, on.2)
  else
    let f := Io.readFull r.stream r.session.conf.saltLen
    match f.err with
    | some err => (⟨f.data.length, ⟨[], some err⟩⟩, { r with stream := f.stream })
    | none =>
      if r.bloom.any (· f.data) then
        (⟨f.data.length, ⟨[], some (.sentinel .replayAttack)⟩⟩, { r with stream := f.stream })
      else
        let on := (r.start f.data f.stream).readOn l
        (⟨on.1.data.length, on.1⟩, on.2)

end Reader

end Outbound.Shadowsocks.Tcp
