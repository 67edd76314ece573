import Outbound.Lib.Hmac

/-! The subkey of a Shadowsocks AEAD session, computed in pooled scratch that is never cleared. -/
namespace Outbound.Shadowsocks

open Lib List Hmac

/-- `copy(dst, src)`. -/
def copy (dst src : Bytes) : Bytes := src.take dst.length ++ dst.drop src.length

/-- `clear(b[i:])`. -/
def clearFrom (b : Bytes) (i : ℕ) : Bytes := b.take i ++ replicate (b.length - i) 0

structure HmacBuf where
  kbuf : Octets 64
  ipad : Octets 64
  opad : Octets 64
  inner : Octets 20
  prk : Octets 20
  t1 : Octets 20
  t2 : Octets 20

variable (sha1 : Bytes → Octets 20) (b : HmacBuf) (kbuf : Octets 64) (key : Bytes)

theorem length_copy (dst src : Bytes) : (copy dst src).length = dst.length := by
  simp [copy]
  omega

/-- The key in `kbuf`, over what stood there. A long one is hashed. -/
def putKey : Octets 64 :=
  let src := if 64 < key.length then (sha1 key).1 else key
  ⟨clearFrom (copy kbuf.1 src) src.length, by simp [clearFrom, length_copy, kbuf.2]; omega⟩

/-- The digest is what the caller's `out` gets. Every hash starts with a `Reset` of the pooled digest. -/
def hmacSHA1Into (msg1 msg2 msg3 : Bytes) : Octets 20 × HmacBuf :=
  let kbuf := putKey sha1 b.kbuf key
  let ipad := pad 0x36 kbuf
  let opad := pad 0x5c kbuf
  let inner := sha1 (ipad.1 ++ msg1 ++ msg2 ++ msg3)
  (sha1 (opad.1 ++ inner.1), { b with kbuf := kbuf, ipad := ipad, opad := opad, inner := inner })

def deriveSubKey (dst masterKey salt info : Bytes) : Bytes × HmacBuf :=
  let extract := hmacSHA1Into sha1 b salt masterKey [] []
  let b := { extract.2 with prk := extract.1 }
  let first := hmacSHA1Into sha1 b b.prk.1 info [1] []
  let b := { first.2 with t1 := first.1 }
  let n := min dst.length 20
  let dst := copy dst b.t1.1
  if n = dst.length then (dst, b)
  else
    let second := hmacSHA1Into sha1 b b.prk.1 b.t1.1 info [2]
    let b := { second.2 with t2 := second.1 }
    (dst.take n ++ copy (dst.drop n) b.t2.1, b)

/-- The ciphers of `AeadCiphersConf`. -/
inductive AeadCipher where
  | chacha20IetfPoly1305
  | chacha20Poly1305
  | aes256Gcm
  | aes128Gcm

def AeadCipher.keyLen : AeadCipher → ℕ
  | chacha20IetfPoly1305 | chacha20Poly1305 | aes256Gcm => 32
  | aes128Gcm => 16

/-- Nothing of the old content is left: zeros stand behind the key. -/
theorem putKey_eq : putKey sha1 kbuf key = block sha1 key := by
  have hsrc : (if 64 < key.length then (sha1 key).1 else key).length ≤ 64 := by
    split_ifs with hlong
    · rw [(sha1 key).2]
      decide
    · exact not_lt.mp hlong
  apply Subtype.ext
  change clearFrom (copy kbuf.1 _) (length _) = (Octets.ofBytes 64 _).1
  generalize (if 64 < key.length then (sha1 key).1 else key) = src at hsrc
  simp [clearFrom, copy, Octets.ofBytes, kbuf.2, take_append, take_of_length_le hsrc,
    -reduceReplicate]

theorem hmacSHA1Into_fst (msg1 msg2 msg3 : Bytes) :
    (hmacSHA1Into sha1 b key msg1 msg2 msg3).1 = hmac sha1 key (msg1 ++ msg2 ++ msg3) := by
  simp [hmacSHA1Into, putKey_eq, hmac, nested]

theorem hmacSHA1Into_prk (msg1 msg2 msg3 : Bytes) :
    (hmacSHA1Into sha1 b key msg1 msg2 msg3).2.prk = b.prk := rfl

theorem deriveSubKey_eq (dst masterKey salt info : Bytes) (h : dst.length ≤ 40) :
    (deriveSubKey sha1 b dst masterKey salt info).1 = hkdf sha1 masterKey salt info dst.length := by
  simp only [deriveSubKey, hmacSHA1Into_fst, hmacSHA1Into_prk, length_copy, append_nil, hkdf]
  generalize hprk : (hmac sha1 salt masterKey).1 = prk
  have hone : expand sha1 prk info 1 = (hmac sha1 prk (info ++ [1])).1 := rfl
  have htwo : expand sha1 prk info 2 =
      (hmac sha1 prk (expand sha1 prk info 1 ++ info ++ [2])).1 := rfl
  rw [hone] at htwo
  generalize hmac sha1 prk (info ++ [1]) = t1 at hone htwo ⊢
  split_ifs with hfull
  · have hcopy : copy dst t1.1 = t1.1.take dst.length := by
      simp [copy, t1.2]
      omega
    rw [hcopy]
    by_cases hzero : dst.length = 0
    · simp [hzero]
    · have hblocks : (dst.length + 20 - 1) / 20 = 1 := by omega
      rw [hblocks]
      simp [hone]
  · have hblocks : (dst.length + 20 - 1) / 20 = 2 := by omega
    have hmin : min dst.length 20 = 20 := by omega
    have htake : t1.1.take dst.length = t1.1 := take_of_length_le (by rw [t1.2]; omega)
    have hrest : dst.drop 40 = [] := drop_eq_nil_of_le h
    have hcopy : copy dst t1.1 = t1.1 ++ dst.drop 20 := by rw [copy, t1.2, htake]
    rw [hblocks, hmin, hcopy, take_left' t1.2, drop_left' t1.2]
    generalize hmac sha1 prk (t1.1 ++ info ++ [2]) = t2 at htwo ⊢
    simp [range_succ, hone, htwo, t1.2, t2.2, copy, take_append, htake, hrest]

/-- For every supported cipher the subkey is the one of RFC 5869, whatever stood in the scratch and in
the destination. -/
theorem deriveSubKey_eq_hkdf (c : AeadCipher) (b : HmacBuf) (dst : Octets c.keyLen)
    (masterKey salt info : Bytes) :
    (deriveSubKey sha1 b dst.1 masterKey salt info).1 = hkdf sha1 masterKey salt info c.keyLen := by
  have hlen : dst.1.length ≤ 40 := by
    rw [dst.2]
    cases c <;> decide
  rw [deriveSubKey_eq sha1 b dst.1 masterKey salt info hlen, dst.2]

end Outbound.Shadowsocks
