import Outbound.Lib.Keystream
import Outbound.Netproxy

/-! The stream ciphers: what the table knows of a method, and the two directions of one cipher. -/
namespace Outbound.Ciphers

open Lib

inductive DecOrEnc where
  | decrypt
  | encrypt
deriving DecidableEq

/-- One method of the table: its streams, and the length of its vectors. The decrypting stream
inverts the encrypting stream with the same key and vector. -/
structure CipherInfo where
  Stream : Type
  ivLen : ℕ
  newStream : Bytes → Octets ivLen → DecOrEnc → Except Error Stream
  xorKeyStream : Stream → Bytes → Bytes × Stream
  length_xorKeyStream : ∀ s b, (xorKeyStream s b).1.length = b.length
  inverts : ∀ key iv e, newStream key iv .encrypt = .ok e →
    ∃ d, newStream key iv .decrypt = .ok d ∧ Inverts xorKeyStream e xorKeyStream d

structure StreamCipher (info : CipherInfo) where
  enc : Option info.Stream
  dec : Option info.Stream
  key : Bytes
  iv : Option (Octets info.ivLen)

namespace StreamCipher

variable {info : CipherInfo}

/-- `InitEncrypt`, with the stream that `Encrypt` then uses. A vector is drawn from `rand` when there
is none, and stays when the stream cannot be made. -/
def initEncrypt (rand : Bytes) (c : StreamCipher info) :
    Except Error info.Stream × StreamCipher info :=
  match c.enc with
  | some e => (.ok e, c)
  | none =>
    let iv := c.iv.getD (Octets.ofBytes info.ivLen rand)
    match info.newStream c.key iv .encrypt with
    | .ok e => (.ok e, { c with enc := some e, iv := some iv })
    | .error err => (.error err, { c with iv := some iv })

def retainIV (c : StreamCipher info) (iv : Octets info.ivLen) : StreamCipher info :=
  if c.iv = none ∧ 0 < info.ivLen then { c with iv := some iv } else c

end StreamCipher

def keystreamInfo (ivLen : ℕ) (keystream : Bytes → Octets ivLen → ℕ → UInt8) : CipherInfo where
  Stream := (ℕ → UInt8) × ℕ
  ivLen := ivLen
  newStream := fun key iv _ => .ok (keystream key iv, 0)
  xorKeyStream := Keystream.step
  length_xorKeyStream := fun s b => Keystream.length_xorFrom s.1 s.2 b
  inverts := fun _ _ e he => ⟨e, he, Keystream.inverts_step e⟩

end Outbound.Ciphers
