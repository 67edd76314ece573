import Outbound.Lib.Bytes

/-! HMAC over a block of 64 bytes and HKDF (RFC 5869), for any hash. -/
namespace Outbound.Lib.Hmac

variable {n : ℕ} (hash : Bytes → Octets n)

def pad (x : UInt8) (block : Octets 64) : Octets 64 := ⟨block.1.map (· ^^^ x), by simp [block.2]⟩

/-- The key on a block: a longer one is hashed, and zeros fill up the block. -/
def block (key : Bytes) : Octets 64 := .ofBytes 64 (if 64 < key.length then (hash key).1 else key)

def nested (iPad oPad : Octets 64) (msg : Bytes) : Octets n :=
  hash (oPad.1 ++ (hash (iPad.1 ++ msg)).1)

def hmac (key : Bytes) : Bytes → Octets n :=
  nested hash (pad 0x36 (block hash key)) (pad 0x5c (block hash key))

/-- `T(i)` of the expansion. -/
def expand (prk info : Bytes) : ℕ → Bytes
  | 0 => []
  | i + 1 => (hmac hash prk (expand prk info i ++ info ++ [UInt8.ofNat (i + 1)])).1

def hkdf (ikm salt info : Bytes) (len : ℕ) : Bytes :=
  ((List.range ((len + n - 1) / n)).flatMap fun i =>
    expand hash (hmac hash salt ikm).1 info (i + 1)).take len

end Outbound.Lib.Hmac
