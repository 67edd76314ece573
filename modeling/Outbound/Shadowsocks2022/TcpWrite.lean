import Outbound.Shadowsocks.TcpConn
import Outbound.Socks5

/-! The request stream of a Shadowsocks 2022 connection: the first write seals two headers and the
payload into one frame of a precomputed size. -/
namespace Outbound.Shadowsocks2022.Tcp

open Lib Socks5
open Shadowsocks.Tcp (poolGet closedWrite)

def chunkMaxLen : ℕ := 2 ^ 16 - 1

def blockSize : ℕ := 16

structure Block where
  encrypt : Bytes → Bytes
  decrypt : Bytes → Bytes
  length_encrypt : ∀ b, (encrypt b).length = blockSize
  decrypt_encrypt : ∀ b, b.length = blockSize → decrypt (encrypt b) = b

structure CipherConf where
  saltLen : ℕ
  nonceLen : ℕ
  tagLen : ℕ
  newCipher : Bytes → Aead
  newBlockCipher : Bytes → Block
  overhead : ∀ key, (newCipher key).overhead = tagLen

/-- The keys of a client, with the hash functions they go through: `deriveKey` of a context, a key
material and a length, and `sum512`. There is at least one key, and the last is the user's. -/
structure Core where
  conf : CipherConf
  pskList : List Bytes
  pskList_ne_nil : pskList ≠ []
  deriveKey : Bytes → Bytes → ℕ → Bytes
  sum512 : Bytes → Bytes
  length_sum512 : ∀ b, (sum512 b).length = 64

namespace Core

def reusedInfo : Bytes := Protocol.ascii "shadowsocks 2022 session subkey"

def identityHeaderInfo : Bytes := Protocol.ascii "shadowsocks 2022 identity subkey"

variable (c : Core)

def uPSK : Bytes := c.pskList.getLast c.pskList_ne_nil

def generateSubKey (psk salt context : Bytes) : Bytes :=
  c.deriveKey context (psk ++ salt) psk.length

def sessionKey (salt : Bytes) : Bytes := c.generateSubKey c.uPSK salt reusedInfo

def identityCipher (psk salt : Bytes) : Block :=
  c.conf.newBlockCipher (c.generateSubKey psk salt identityHeaderInfo)

def identityText (next : Bytes) : Bytes := (c.sum512 next).take blockSize

/-- `writeIdentityHeaderTo`: a block for every key but the last. -/
def writeIdentityHeaderTo (c : Core) (salt : Bytes) :
    List Bytes → Bytes → ℕ → Except Error (Bytes × ℕ)
  | psk :: next :: psks, dst, offset =>
    if offset + blockSize > dst.length then .error (.sentinel .shortBuffer)
    else
      let block := (c.identityCipher psk salt).encrypt (c.identityText next)
      writeIdentityHeaderTo c salt (next :: psks)
        (dst.take offset ++ block ++ dst.drop (offset + blockSize)) (offset + blockSize)
  | _, dst, offset => .ok (dst, offset)

end Core

def encryptedPayloadLen (payloadLen tagLen : ℕ) : ℕ :=
  if payloadLen ≤ 0 then 0
  else
    let chunks := payloadLen / chunkMaxLen
    let chunks := if payloadLen % chunkMaxLen > 0 then chunks + 1 else chunks
    payloadLen + chunks * (2 + tagLen + tagLen)

def addrInfoEncodedLen : Option AddressInfo → Except Error ℕ
  | none => .error (.errorf "nil address info")
  | some addr =>
    if addr.type = addressTypeIPv4 then
      match addr.ip with
      | .v4 _ => .ok (1 + 4 + 2)
      | _ => .error (.errorf "invalid ipv4 address")
    else if addr.type = addressTypeIPv6 then
      match addr.ip with
      | .v6 _ => .ok (1 + 16 + 2)
      | _ => .error (.errorf "invalid ipv6 address")
    else if addr.type = addressTypeDomain then
      if addr.hostname.length > 255 then
        .error (.errorf s!"domain name too long: {addr.hostname.length}")
      else .ok (1 + 1 + addr.hostname.length + 2)
    else .error (.errorf s!"unsupported address type: {addr.type}")

def asSlice : Addr → Bytes
  | .zero => []
  | .v4 ip => ip.1
  | .v6 ip => ip.1

def addrInfoBytes (addr : AddressInfo) : Bytes :=
  if addr.type = addressTypeDomain then
    addr.type :: .ofNat addr.hostname.length :: (addr.hostname ++ beBytes 2 addr.port.toNat)
  else addr.type :: (asSlice addr.ip ++ beBytes 2 addr.port.toNat)

/-- `writeAddrInfoTo`; `none` is a panic. -/
def writeAddrInfoTo (dst : Bytes) (addr : Option AddressInfo) : Option (Except Error (Bytes × ℕ)) :=
  match addrInfoEncodedLen addr with
  | .error err => some (.error err)
  | .ok addrLen =>
    if dst.length < addrLen then some (.error (.sentinel .shortBuffer))
    else (putAt dst 0 (addr.elim [] addrInfoBytes)).map fun dst => .ok (dst, addrLen)

variable (cipher : Aead) (tagLen : ℕ)

/-- One round of `sealPayload`; `none` where a write does not fit in the buffer. -/
def sealChunk (payload : Bytes) (i chunkLength : ℕ)
    (st : Option Aead.Sealing) : Option Aead.Sealing :=
  st.bind fun s =>
  (putAt s.buf s.offset (cipher.sealText s.nonce (beBytes 2 chunkLength))).bind fun buf =>
  let offset := s.offset + (2 + tagLen)
  let nonce := incLE s.nonce
  (putAt buf offset (cipher.sealText nonce ((payload.drop i).take chunkLength))).map fun buf =>
  ⟨buf, offset + (chunkLength + tagLen), incLE nonce, s.used ++ [s.nonce, nonce]⟩

def sealPayload (dst payload nonce : Bytes) : Option Aead.Sealing :=
  cutLoop chunkMaxLen payload.length (sealChunk cipher tagLen payload) payload.length 0
    (some ⟨dst, 0, nonce, []⟩)

def sealAt (frame : Bytes) (offset : ℕ) (nonce plain : Bytes) : Option (Bytes × ℕ) :=
  (putAt frame offset (cipher.sealText nonce plain)).map fun frame =>
    (frame, offset + (cipher.sealText nonce plain).length)

/-- A connection, as its writes use it; `used` are the keys and nonces of all sealing so far. -/
structure Writer where
  core : Core
  addr : Option AddressInfo
  cipherWrite : Option Bytes
  onceWrite : Bool
  writeBroken : Bool
  nonceWrite : Bytes
  used : List (Bytes × Bytes)

/-- One call of `Write`: its payload, the bytes the random generator and the memory of its buffers
have, the clock, and how many bytes the connection takes before the write on it fails, if it
does. -/
structure Call where
  payload : Bytes
  random : ℕ → UInt8
  memory : ℕ → UInt8
  now : UInt64
  fails : Option (ℕ × Error)

structure Layout where
  initialPayloadLen : ℕ
  firstVarHeaderLen : ℕ
  totalSize : ℕ

def layout (c : Core) (addrLen len : ℕ) : Layout :=
  let initialPayloadMaxLength := chunkMaxLen - (addrLen + 2)
  let initialPayloadLen := if len > initialPayloadMaxLength then initialPayloadMaxLength else len
  let firstVarHeaderLen := addrLen + 2 + initialPayloadLen
  { initialPayloadLen
    firstVarHeaderLen
    totalSize := c.conf.saltLen + (c.pskList.length - 1) * blockSize + (11 + c.conf.tagLen) +
      (firstVarHeaderLen + c.conf.tagLen) +
      encryptedPayloadLen (len - initialPayloadLen) c.conf.tagLen }

def headerTypeClientStream : UInt8 := 0

def fixedHeaderPlain (now : UInt64) (firstVarHeaderLen : ℕ) : Bytes :=
  headerTypeClientStream :: (beBytes 8 now.toNat ++ beBytes 2 firstVarHeaderLen)

namespace Writer

def new (core : Core) (addr : Option AddressInfo) : Writer :=
  ⟨core, addr, none, false, false, List.replicate core.conf.nonceLen 0, []⟩

variable (w : Writer) (c : Call)

/-- The variable-length header, filled into its slice of the frame: address, no padding, and the
front of the payload. -/
def varHeaderPlain (slice initialPayload : Bytes) : Option (Except Error Bytes) :=
  (writeAddrInfoTo slice w.addr).bind fun res =>
  match res with
  | .error err => some (.error (.wrap "fail to encode request address" err))
  | .ok (slice, addrWritten) =>
    (putAt slice addrWritten (beBytes 2 0)).bind fun slice =>
    (copyAt slice (addrWritten + 2) initialPayload).map .ok

/-- The frame of the first write, from the fixed-length header on. -/
def sealHeaders (cipher : Aead) (l : Layout) (frame : Bytes) (offset : ℕ) :
    Option (Except Error Aead.Sealing) :=
  (sealAt cipher frame offset w.nonceWrite (fixedHeaderPlain c.now l.firstVarHeaderLen)).bind
    fun fixed =>
  let nonce := incLE w.nonceWrite
  (w.varHeaderPlain ((fixed.1.drop fixed.2).take l.firstVarHeaderLen)
    (c.payload.take l.initialPayloadLen)).bind fun res =>
  match res with
  | .error err => some (.error err)
  | .ok plain =>
    (sealAt cipher fixed.1 fixed.2 nonce plain).bind fun var =>
    (sealPayload cipher w.core.conf.tagLen (var.1.drop var.2)
      (c.payload.drop l.initialPayloadLen) (incLE nonce)).map fun s =>
    .ok ⟨var.1.take var.2 ++ s.buf, var.2 + s.offset, s.nonce, [w.nonceWrite, nonce] ++ s.used⟩

def firstFrame (salt : Bytes) (addrLen : ℕ) : Option (Except Error Aead.Sealing) :=
  let l := layout w.core addrLen c.payload.length
  (putAt (poolGet c.memory l.totalSize) 0 salt).bind fun frame =>
  match w.core.writeIdentityHeaderTo salt w.core.pskList frame salt.length with
  | .error err => some (.error (.wrap "fail to write identity header" err))
  | .ok (frame, offset) =>
    w.sealHeaders c (w.core.conf.newCipher (w.core.sessionKey salt)) l frame offset

def send (frame : Bytes) : Written Error × Writer :=
  match c.fails with
  | some (k, err) =>
    -- An empty frame makes no write that could fail.
    if frame = [] then (⟨c.payload.length, none, frame, []⟩, { w with onceWrite := true })
    else (⟨0, some err, frame, frame.take k⟩, { w with writeBroken := true })
  | none => (⟨c.payload.length, none, frame, frame⟩, { w with onceWrite := true })

def sendSealed (key : Bytes) (s : Aead.Sealing) : Option (Written Error) × Writer :=
  let w := { w with
    nonceWrite := s.nonce, used := w.used ++ s.used.map fun nonce => (key, nonce) }
  let out := w.send c (s.buf.take s.offset)
  (some out.1, out.2)

def write : Option (Written Error) × Writer :=
  if w.writeBroken then (some closedWrite, w)
  else if w.onceWrite then
    match w.cipherWrite with
    | none => (some ⟨0, some (.errorf "cipher is not initialized"), [], []⟩, w)
    | some key =>
      let frameSize := encryptedPayloadLen c.payload.length w.core.conf.tagLen
      match sealPayload (w.core.conf.newCipher key) w.core.conf.tagLen
        (poolGet c.memory frameSize) c.payload w.nonceWrite with
      | none => (none, w)
      | some s => w.sendSealed c key s
  else
    let salt := poolGet c.random w.core.conf.saltLen
    let key := w.core.sessionKey salt
    let w := { w with cipherWrite := some key }
    match addrInfoEncodedLen w.addr with
    | .error err =>
      (some ⟨0, some (.wrap "fail to calculate address length" err), [], []⟩, w)
    | .ok addrLen =>
      match w.firstFrame c salt addrLen with
      | none => (none, w)
      | some (.error err) => (some ⟨0, some err, [], []⟩, w)
      | some (.ok s) => w.sendSealed c key s

end Writer

end Outbound.Shadowsocks2022.Tcp
