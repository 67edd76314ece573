import Outbound.Lib.Keystream
import Outbound.Lib.Slice

/-! The `auth_chain_a` protocol of ShadowsocksR: the client's encoder and decoder of TCP chunks. -/
namespace Outbound.Shadowsocksr

open Lib

def leNat (b : Bytes) : ℕ := beNat b.reverse

/-- `binary.LittleEndian.PutUint16/32` of a number into `w` bytes. -/
def leBytes (w n : ℕ) : Bytes := (beBytes w n).reverse

structure Shift128plus where
  v0 : UInt64
  v1 : UInt64
deriving DecidableEq

def Shift128plus.next (ctx : Shift128plus) : UInt64 × Shift128plus :=
  let y := ctx.v1
  let x := ctx.v0 ^^^ (ctx.v0 <<< 23)
  let x' := x ^^^ (y ^^^ (x >>> 17) ^^^ (y >>> 26))
  (x' + y, ⟨y, x'⟩)

/-- The first two bytes of `bin` are replaced by the length, and four numbers are thrown away. -/
def Shift128plus.initFromBinDatalen (bin : Octets 16) (datalen : ℕ) : Shift128plus :=
  let fillBin := leBytes 2 datalen ++ bin.1.drop 2
  let ctx : Shift128plus :=
    ⟨UInt64.ofNat (leNat (fillBin.take 8)), UInt64.ofNat (leNat (fillBin.drop 8))⟩
  ctx.next.2.next.2.next.2.next.2

variable (random : Shift128plus) (env : Env)

def authChainAGetRandLen (dataLength : ℕ) (random : Shift128plus) (lastHash : Octets 16) :
    ℕ × Shift128plus :=
  if 1440 < dataLength then (0, random)
  else
    let drawn := (Shift128plus.initFromBinDatalen lastHash dataLength).next
    if 1300 < dataLength then ((drawn.1 % 31).toNat, drawn.2)
    else if 900 < dataLength then ((drawn.1 % 127).toNat, drawn.2)
    else if 400 < dataLength then ((drawn.1 % 521).toNat, drawn.2)
    else ((drawn.1 % 1021).toNat, drawn.2)

def getRandStartPos (randLength : ℕ) : ℕ × Shift128plus :=
  if 0 < randLength then
    ((random.next.1 % 8589934609 % UInt64.ofNat randLength).toNat, random.next.2)
  else (0, random)

/-- The server's parameters, the user's key, and what the protocol is built with: the keyed hash, the
padding lengths, the block and stream ciphers, and the source of random bytes. -/
structure Env where
  iv : Bytes
  key : Bytes
  userKey : Bytes
  uid : Octets 4
  salt : Bytes
  overhead : ℕ
  hmac : Bytes → Bytes → Octets 16
  rnd : ℕ → Shift128plus → Octets 16 → ℕ × Shift128plus
  base64 : Bytes → Bytes
  /-- One block in CBC mode with a zero vector, under the key derived from the text. -/
  aes : Bytes → Bytes → Octets 16
  /-- The keystream of a password. -/
  rc4 : Bytes → ℕ → UInt8
  entropy : ℕ → UInt8

/-- `ciphers.StreamCipher` for RC4: one keystream, and how far each direction has come in it. -/
structure StreamCipher where
  stream : ℕ → UInt8
  encrypted : ℕ
  decrypted : ℕ

structure Session where
  lastClientHash : Octets 16
  lastServerHash : Octets 16
  cipher : StreamCipher

/-- The state of one connection. Once the header is sent there are hashes and a cipher. -/
structure AuthChainA where
  randomClient : Shift128plus
  randomServer : Shift128plus
  recvID : UInt32
  chunkID : UInt32
  tcpMss : ℤ
  hasSentHeader : Bool
  session : Option Session
  connectionID : UInt32
  clientID : Option Bytes
  /-- How many random bytes were read. -/
  drawn : ℕ
  session_of_sent : hasSentHeader = true → session.isSome = true

variable (a : AuthChainA) (now : ℕ) (s : Session)

namespace AuthChainA

/-- `NewAuthChainA` with `InitWithServerInfo` and the shared `AuthData`. -/
def new (tcpMss : ℕ) (connectionID : UInt32) (clientID : Option Bytes) : AuthChainA where
  randomClient := ⟨0, 0⟩
  randomServer := ⟨0, 0⟩
  recvID := 1
  chunkID := 0
  tcpMss := tcpMss
  hasSentHeader := false
  session := none
  connectionID := connectionID
  clientID := clientID
  drawn := 0
  session_of_sent := fun h => absurd h Bool.false_ne_true

def setSession (sent : Bool) (s : Session) : AuthChainA :=
  { a with hasSentHeader := sent, session := some s, session_of_sent := fun _ => Option.isSome_some }

def read (n : ℕ) : Bytes × AuthChainA :=
  ((List.range n).map fun i => env.entropy (a.drawn + i), { a with drawn := a.drawn + n })

end AuthChainA

def chunkKey (id : UInt32) : Bytes := env.userKey ++ leBytes 4 id.toNat

variable (data plainData : Bytes) (randLength : ℕ)

/-- The padding around the data: random bytes up to the drawn start, the encrypted data, and random
bytes behind it. -/
def padded : Bytes × AuthChainA :=
  if 0 < data.length then
    let start := getRandStartPos a.randomClient randLength
    let part1 := { a with randomClient := start.2 }.read env start.1
    let part2 := part1.2.read env (randLength - start.1)
    (part1.1 ++ Keystream.xorFrom s.cipher.stream s.cipher.encrypted data ++ part2.1, part2.2)
  else a.read env randLength

def packData : Bytes × AuthChainA :=
  let body := padded env a s data randLength
  let outData := [UInt8.ofNat data.length ^^^ s.lastClientHash.1.getD 14 0,
    UInt8.ofNat (data.length >>> 8) ^^^ s.lastClientHash.1.getD 15 0] ++ body.1
  let chunkID := a.chunkID + 1
  let hash := env.hmac (chunkKey env chunkID) outData
  let cipher := { s.cipher with encrypted := s.cipher.encrypted + data.length }
  (outData ++ hash.1.take 2,
    { body.2 with chunkID := chunkID }.setSession body.2.hasSentHeader
      { s with lastClientHash := hash, cipher := cipher })

/-- `packedDataLen` and `packData` for one piece of data. Without a hash to mask the length with they
panic. -/
def packChunk : Option (Bytes × AuthChainA) :=
  a.session.map fun s =>
    let rand := env.rnd data.length a.randomClient s.lastClientHash
    packData env { a with randomClient := rand.2 } s data rand.1

/-- The connection's number goes up, and is drawn anew when it is used up or there is no client yet. -/
def nextConnection : AuthChainA :=
  let connectionID := a.connectionID + 1
  if 0xFF000000 < connectionID ∨ a.clientID = none then
    let client := a.read env (a.clientID.getD []).length
    let b := client.2.read env 4
    { b.2 with
      connectionID := UInt32.ofNat (leNat b.1) &&& 0xFFFFFF
      clientID := a.clientID.map fun _ => client.1 }
  else { a with connectionID := connectionID }

/-- The first half of `packAuthData`: the 36 bytes of the header, the hashes and the cipher. `Encode`
raises `hasSentHeader` when `packAuthData` is done, and nothing reads it before. -/
def authHead : Bytes × AuthChainA :=
  let a₁ := nextConnection env a
  let encrypt := leBytes 4 now ++ (Octets.ofBytes 4 (a₁.clientID.getD [])).1 ++
    leBytes 4 a₁.connectionID.toNat ++ leBytes 2 env.overhead ++ leBytes 2 0
  let front := a₁.read env 4
  let clientHash := env.hmac (env.iv ++ env.key) front.1
  let uid := List.zipWith (· ^^^ ·) env.uid.1 (clientHash.1.drop 8)
  let base64UserKey := env.base64 env.userKey
  let sealed := uid ++ (env.aes (base64UserKey ++ env.salt) encrypt).1
  let serverHash := env.hmac env.userKey sealed
  let password := base64UserKey ++ env.base64 clientHash.1
  (front.1 ++ clientHash.1.take 8 ++ sealed ++ serverHash.1.take 4,
    front.2.setSession true ⟨clientHash, serverHash, ⟨env.rc4 password, 0, 0⟩⟩)

def packAuthData :
    Option (Bytes × AuthChainA) := do
  let head := authHead env a now
  let chunk ← packChunk env head.2 data
  return (head.1 ++ chunk.1, chunk.2)

/-- `plainData[offset : offset+size]`: the bounds are checked, and a negative size is out of them. -/
def piece (offset size : ℤ) : Option Bytes :=
  if 0 ≤ offset ∧ 0 ≤ size then sliceBetween plainData offset.toNat (offset + size).toNat else none

/-- The loop of `Encode` over the pieces of `unitSize` bytes, and the last piece behind it. `none` is
a panic, or no more fuel. -/
def encodeFrom (env : Env) (plainData : Bytes) (unitSize : ℤ) :
    ℕ → AuthChainA → ℤ → ℤ → Bytes → Option (Bytes × AuthChainA)
  | 0, _, _, _, _ => none
  | fuel + 1, a, offset, dataLength, encodeBuffer =>
    if unitSize < dataLength then do
      let data ← piece plainData offset unitSize
      let b ← packChunk env a data
      encodeFrom env plainData unitSize fuel b.2 (offset + unitSize) (dataLength - unitSize)
        (encodeBuffer ++ b.1)
    else if 0 < dataLength then do
      let data ← sliceFrom plainData offset.toNat
      let b ← packChunk env a data
      return (encodeBuffer ++ b.1, b.2)
    else some (encodeBuffer, a)

def headSize : ℕ := min 1200 plainData.length

def unitSize : ℤ := a.tcpMss - env.overhead

def encode (fuel : ℕ) (a : AuthChainA) (now : ℕ) (plainData : Bytes) :
    Option (Bytes × AuthChainA) :=
  if 0 < plainData.length ∧ a.hasSentHeader = false then do
    let head ← packAuthData env a now (plainData.take (headSize plainData))
    encodeFrom env plainData (unitSize env head.2) fuel head.2 (headSize plainData)
      (plainData.length - headSize plainData) head.1
  else encodeFrom env plainData (unitSize env a) fuel a 0 plainData.length []

/-- The length a chunk announces to who has the hash before it. -/
def announced (hash : Octets 16) (wire : Bytes) : ℕ :=
  (wire.getD 1 0 ^^^ hash.1.getD 15 0).toNat <<< 8 + (wire.getD 0 0 ^^^ hash.1.getD 14 0).toNat

inductive DecodeErr where
  | dataLengthError
  | incorrectHMAC
deriving DecidableEq

def dataPos (dataLen randLen : ℕ) : ℕ × Shift128plus :=
  if 0 < dataLen ∧ 0 < randLen then
    let start := getRandStartPos random randLen
    (2 + start.1, start.2)
  else (2, random)

/-- The loop of `Decode`, with what stands in the buffer and how much was taken. The first chunk
starts with the server's `TcpMss`, which is taken off the buffer and stored. -/
def decodeFrom (env : Env) :
    ℕ → AuthChainA → Session → Bytes → ℕ → Bytes → Except DecodeErr (Bytes × ℕ) × AuthChainA
  | 0, a, _, buffer, readLength, _ => (.ok (buffer, readLength), a)
  | fuel + 1, a, s, buffer, readLength, plainData =>
    if plainData.length ≤ 4 then (.ok (buffer, readLength), a)
    else
      let dataLen := announced s.lastServerHash plainData
      let rand := env.rnd dataLen a.randomServer s.lastServerHash
      let a₁ := { a with randomServer := rand.2 }
      let length := rand.1 + dataLen + 4
      if 4096 ≤ rand.1 + dataLen then (.error .dataLengthError, a₁)
      else if plainData.length < length then (.ok (buffer, readLength), a₁)
      else
        let hash := env.hmac (chunkKey env a.recvID) (plainData.take (length - 2))
        if hash.1.take 2 ≠ (plainData.take length).drop (length - 2) then
          (.error .incorrectHMAC, a₁)
        else
          let pos := dataPos a₁.randomServer dataLen rand.1
          let data := Keystream.xorFrom s.cipher.stream s.cipher.decrypted
            ((plainData.drop pos.1).take dataLen)
          let cipher := { s.cipher with decrypted := s.cipher.decrypted + dataLen }
          let a₂ := { a₁ with randomServer := pos.2 }.setSession a₁.hasSentHeader
            { s with cipher := cipher }
          let s₃ : Session := { s with lastServerHash := hash, cipher := cipher }
          if a.recvID = 1 then
            if (buffer ++ data).length < 2 then (.error .dataLengthError, a₂)
            else
              let a₃ := { a₂ with
                tcpMss := leNat ((buffer ++ data).take 2), recvID := a.recvID + 1 }.setSession
                  a₂.hasSentHeader s₃
              decodeFrom env fuel a₃ s₃ ((buffer ++ data).drop 2) (readLength + length)
                (plainData.drop length)
          else
            let a₃ := { a₂ with recvID := a.recvID + 1 }.setSession a₂.hasSentHeader s₃
            decodeFrom env fuel a₃ s₃ (buffer ++ data) (readLength + length)
              (plainData.drop length)

/-- Every round takes at least four bytes, so that the length of the input bounds their number. -/
def decode : Option (Except DecodeErr (Bytes × ℕ) × AuthChainA) :=
  if plainData.length ≤ 4 then some (.ok ([], 0), a)
  else a.session.map fun s => decodeFrom env plainData.length a s [] 0 plainData

end Outbound.Shadowsocksr
