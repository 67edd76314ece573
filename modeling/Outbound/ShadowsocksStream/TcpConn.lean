import Outbound.Ciphers.StreamCipher
import Outbound.Lib.Feed
import Outbound.Lib.Sink

/-! The TCP connection of Shadowsocks with a stream cipher: a vector, then the encrypted stream. -/
namespace Outbound.ShadowsocksStream

open Lib Ciphers

structure TcpConn (info : CipherInfo) where
  cipher : StreamCipher info
  init : Bool
  writeBroken : Bool

variable {info : CipherInfo}

/-- `Write` of `b`, where `rand` is what a new vector is drawn from and `w` how the write of the
connection below ends. -/
def TcpConn.write (rand : Bytes) (c : TcpConn info) (b : Bytes) (w : WriteEnd Error) :
    WriteOut × TcpConn info :=
  if c.writeBroken then (⟨0, some (.sentinel .closed), []⟩, c)
  else
    match c.cipher.initEncrypt rand with
    | (.error err, cipher) => (⟨0, some err, []⟩, { c with cipher := cipher })
    | (.ok e, cipher) =>
      -- the vector stands in front of the first message, and is not encrypted
      let iv := if c.init then [] else (cipher.iv.map Subtype.val).getD []
      let sealed := info.xorKeyStream e b
      let c' := { c with cipher := { cipher with enc := some sealed.2 } }
      match w.err with
      | some err => (⟨0, some err, w.taken (iv ++ sealed.1)⟩, { c' with writeBroken := true })
      | none => (⟨b.length, none, w.taken (iv ++ sealed.1)⟩, { c' with init := true })

def eof : Error := .sentinel .eof

def readAtLeast (f : Feed UInt8 Error) (room k : ℕ) : Bytes × Option Error × Feed UInt8 Error :=
  let r := Feed.readAtLeast eof f room k
  (r.1, r.2.1.map fun e => if r.1 ≠ [] ∧ e = eof then .sentinel .unexpectedEOF else e, r.2.2)

/-- The buffer of the first read: the caller's, or one from the pool where that has no room for more
than the vector. -/
def firstRoom (info : CipherInfo) (l : ℕ) : ℕ := if l ≤ info.ivLen then info.ivLen + l else l

structure Receiver (info : CipherInfo) where
  conn : TcpConn info
  feed : Feed UInt8 Error

namespace Receiver

variable (s : Receiver info) (dec : info.Stream)

def next (feed : Feed UInt8 Error) : Receiver info :=
  ⟨{ s.conn with cipher := { s.conn.cipher with dec := some dec } }, feed⟩

/-- What `Read` returns for `n` bytes that it decrypts in the caller's buffer. -/
def deliver (data : Bytes) (feed : Feed UInt8 Error) : ReadOut UInt8 Error × Receiver info :=
  (⟨(info.xorKeyStream dec data).1, none⟩, s.next (info.xorKeyStream dec data).2 feed)

/-- The rest of the first read, once the vector is there: when the first read stopped right behind
it, at least one byte more is read. -/
def readFirst (l : ℕ) (data : Bytes) (feed : Feed UInt8 Error)
    (dec : info.Stream) : ReadOut UInt8 Error × Receiver info :=
  let s' : Receiver info := { s with
    conn.cipher := s.conn.cipher.retainIV (Octets.ofBytes info.ivLen data) }
  if data.length = info.ivLen then
    match readAtLeast feed (firstRoom info l - data.length) 1 with
    | (_, some rerr, feed) => (⟨[], some rerr⟩, s'.next dec feed)
    | (more, none, feed) => s'.deliver dec (((data ++ more).drop info.ivLen).take l) feed
  else s'.deliver dec ((data.drop info.ivLen).take l) feed

def read (s : Receiver info) (l : ℕ) : ReadOut UInt8 Error × Receiver info :=
  if l = 0 then (⟨[], none⟩, s)
  else
    match s.conn.cipher.dec with
    | none =>
      match readAtLeast s.feed (firstRoom info l) info.ivLen with
      | (data, some err, feed) =>
        (⟨[], some (.wrap ("invalid ivLen:" ++ toString info.ivLen ++ ", actual length:" ++
          toString data.length) err)⟩, { s with feed := feed })
      | (data, none, feed) =>
        match info.newStream s.conn.cipher.key (Octets.ofBytes info.ivLen data) .decrypt with
        | .error err => (⟨[], some err⟩, { s with feed := feed })
        | .ok dec => s.readFirst l data feed dec
    | some dec =>
      match Feed.read eof s.feed l with
      | (⟨data, some err⟩, feed) => (⟨data, some err⟩, { s with feed := feed })
      | (⟨data, none⟩, feed) => s.deliver dec data feed

end Receiver

end Outbound.ShadowsocksStream
