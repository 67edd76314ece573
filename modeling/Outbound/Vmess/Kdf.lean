import Outbound.Lib.Hmac
import Outbound.Lib.Memory

/-! The key derivation of VMess: a chain of HMACs, each with the one before as its hash. -/
namespace Outbound.Vmess

open Lib List Hmac Memory

/-- The bytes of `VMess AEAD KDF`. -/
def kdfSaltConstVMessAEADKDF : Bytes := [86, 77, 101, 115, 115, 32, 65, 69, 65, 68, 32, 75, 68, 70]

def kdfMaxChainLen : ℕ := 8

def kdfMaxKeyLen : ℕ := 256

def kdfMaxPathElemLen : ℕ := 256

def kdfScratchSize : ℕ := kdfMaxChainLen * (kdfMaxChainLen + 1) / 2 * 64 + kdfMaxChainLen * kdfMaxKeyLen

/-- What a level is to hash: bytes of the caller, or a piece of the scratch. -/
inductive Message where
  | given (b : Bytes)
  | scratch (off len : ℕ)

variable (m : ℕ → UInt8) (off : ℕ) (n : KdfChainNode)

def Message.read (m : ℕ → UInt8) : Message → Bytes
  | given b => b
  | scratch off len => load m off len

def Message.Below : Message → Prop
  | given _ => True
  | scratch i len => i + len ≤ off

/-- `append` to the scratch at `off`, which must have the room. -/
def appendAt (b : Bytes) : Option (ℕ → UInt8) :=
  if off + b.length ≤ kdfScratchSize then some (store m off b) else none

abbrev Sum := (ℕ → UInt8) → Message → ℕ → Option (Octets 32 × (ℕ → UInt8))

structure KdfChainNode where
  iPad : Octets 64
  oPad : Octets 64

/-- `sum` of a node over the hash of its child, in the scratch from `off` on. -/
def KdfChainNode.sum (child : Sum) : Sum := fun m msg off => do
  let m ← appendAt m off n.iPad.1
  let s := msg.read m
  let m ← appendAt m (off + 64) s
  let (inner, m) ← child m (.scratch off (64 + s.length)) (off + (64 + s.length))
  let m ← appendAt m off n.oPad.1
  let m ← appendAt m (off + 64) inner.1
  child m (.scratch off (64 + 32)) (off + (64 + 32))

variable (sha256 : Bytes → Octets 32) (nodes : List KdfChainNode) (key : Bytes) (path : List Bytes)
  (l k : ℕ) (child : List KdfChainNode)

/-- The nodes from one down to the leaf. No node is the child of the leaf, and stands for the bare
hash. -/
def chainSum : List KdfChainNode → Sum
  | [] => fun m msg _ => some (sha256 (msg.read m), m)
  | n :: child => n.sum (chainSum child)

def kdfChainNodeWithKey (m : ℕ → UInt8) (key : Bytes) :
    Option (List KdfChainNode × (ℕ → UInt8)) := do
  let (k, m) ← if 64 < key.length then
      (chainSum sha256 child m (.given key) 0).map fun d => (d.1.1, d.2)
    else some (key, m)
  return (⟨pad 0x36 (.ofBytes 64 k), pad 0x5c (.ofBytes 64 k)⟩ :: child, m)

/-- The chain of `hMacCreator`s, applied to the key. -/
def kdfReference : Octets 32 :=
  path.foldl hmac (hmac sha256 kdfSaltConstVMessAEADKDF) key

/-- `KDF`. `none` stands for a write behind the end of the scratch. -/
def kdf : Option (Octets 32) :=
  if path.length = 0 ∨ kdfMaxChainLen ≤ path.length ∨ kdfMaxKeyLen < key.length then
    some (kdfReference sha256 key path)
  else if ∃ v ∈ path, kdfMaxPathElemLen < v.length then some (kdfReference sha256 key path)
  else do
    let first ← kdfChainNodeWithKey sha256 [] (fun _ => 0) kdfSaltConstVMessAEADKDF
    let (nodes, m) ← path.foldlM (fun s v => kdfChainNodeWithKey sha256 s.1 s.2 v) first
    let (out, _) ← chainSum sha256 nodes m (.given key) 0
    return out

/-- The scratch that `l` levels need for a message of `k` bytes. -/
def room : ℕ := 32 * l * (l + 1) + l * max k 32

theorem room_le {l k : ℕ} (hl : l ≤ kdfMaxChainLen) (hk : k ≤ 256) : room l k ≤ kdfScratchSize := by
  have hsquare : l * (l + 1) ≤ 8 * 9 := Nat.mul_le_mul hl (Nat.succ_le_succ hl)
  have hmessage : l * max k 32 ≤ 8 * 256 := Nat.mul_le_mul hl (by omega)
  rw [room, Nat.mul_assoc]
  exact Nat.add_le_add (Nat.mul_le_mul_left 32 hsquare) hmessage

theorem room_succ :
    64 + k + room l (64 + k) ≤ room (l + 1) k ∧
      64 + 32 + room l (64 + 32) ≤ room (l + 1) k := by
  have hk : l * k ≤ l * max k 32 := Nat.mul_le_mul_left l (le_max_left k 32)
  have h32 : l * 32 ≤ l * max k 32 := Nat.mul_le_mul_left l (le_max_right k 32)
  have hlarge : max (64 + k) 32 = 64 + k := by omega
  have h96 : max (64 + 32) 32 = 96 := rfl
  unfold room
  rw [hlarge, h96]
  constructor <;> ring_nf at * <;> omega

/-- A pad and what is appended to it stand in the scratch together. -/
theorem appendAt_pad (pad : Octets 64) (b : Bytes) (h : off + (64 + b.length) ≤ kdfScratchSize) :
    appendAt m off pad.1 = some (store m off pad.1) ∧ ∃ m',
      appendAt (store m off pad.1) (off + 64) b = some m' ∧
        (Message.scratch off (64 + b.length)).read m' = pad.1 ++ b := by
  have hpad : load (store m off pad.1) off 64 = pad.1 := by
    simpa [pad.2] using load_store_self m off pad.1
  refine ⟨if_pos (by rw [pad.2]; omega), _, if_pos (by omega), ?_⟩
  rw [Message.read, load_add, load_store_self, load_store_of_le _ _ le_rfl, hpad]

theorem Message.Below.read_store {msg : Message} {off : ℕ} (h : msg.Below off) (m : ℕ → UInt8)
    (b : Bytes) : msg.read (store m off b) = msg.read m := by
  cases msg with
  | given b => rfl
  | scratch i len => exact load_store_of_le m off h

/-- `child` computes `h`, in the scratch behind the message. -/
def Computes (child : Sum) (h : Bytes → Octets 32) (l : ℕ) : Prop :=
  ∀ m msg off, msg.Below off → off + room l (msg.read m).length ≤ kdfScratchSize →
    ∃ m', child m msg off = some (h (msg.read m), m')

theorem KdfChainNode.sum_computes {child : Sum} {h : Bytes → Octets 32} {l : ℕ}
    (hchild : Computes child h l) : Computes (n.sum child) (nested h n.iPad n.oPad) (l + 1) := by
  intro m msg off hbelow hroom
  obtain ⟨hinner, houter⟩ := room_succ l (msg.read m).length
  obtain ⟨hiPad, m₁, hmsg, hread⟩ := appendAt_pad m off n.iPad (msg.read m) (by omega)
  obtain ⟨m₂, hsum⟩ := hchild m₁ (.scratch off (64 + (msg.read m).length)) _ le_rfl (by
    simp only [hread, length_append, n.iPad.2]
    omega)
  rw [hread] at hsum
  generalize hdigest : h (n.iPad.1 ++ msg.read m) = inner at hsum
  obtain ⟨hoPad, m₃, hinner, hread'⟩ := appendAt_pad m₂ off n.oPad inner.1 (by rw [inner.2]; omega)
  rw [inner.2] at hread'
  obtain ⟨m₄, hsum'⟩ := hchild m₃ (.scratch off (64 + 32)) _ le_rfl (by
    simp only [hread', length_append, n.oPad.2, inner.2]
    omega)
  refine ⟨m₄, ?_⟩
  simp [KdfChainNode.sum, hiPad, hbelow.read_store, hmsg, hsum, hoPad, hinner, hsum', hread', nested, hdigest]

def hashOf : List KdfChainNode → Bytes → Octets 32
  | [] => sha256
  | n :: child => nested (hashOf child) n.iPad n.oPad

theorem chainSum_computes :
    Computes (chainSum sha256 nodes) (hashOf sha256 nodes) nodes.length := by
  induction nodes with
  | nil => exact fun m msg off _ _ => ⟨m, rfl⟩
  | cons n child ih => exact n.sum_computes ih

theorem chainSum_given (m : ℕ → UInt8) {b : Bytes}
    (hnodes : nodes.length ≤ kdfMaxChainLen) (hb : b.length ≤ 256) :
    ∃ m', chainSum sha256 nodes m (.given b) 0 = some (hashOf sha256 nodes b, m') := by
  apply chainSum_computes sha256 nodes m (.given b) 0 trivial
  rw [Nat.zero_add]
  exact room_le hnodes hb

/-- A key of any length up to the bound makes one HMAC more. -/
theorem kdfChainNodeWithKey_eq (m : ℕ → UInt8) (key : Bytes)
    (hchild : child.length ≤ kdfMaxChainLen) (hkey : key.length ≤ 256) :
    ∃ n m', kdfChainNodeWithKey sha256 child m key = some (n :: child, m') ∧
      hashOf sha256 (n :: child) = hmac (hashOf sha256 child) key := by
  obtain ⟨m', hsum⟩ := chainSum_given sha256 child m hchild hkey
  unfold kdfChainNodeWithKey hmac block
  split_ifs
  · rw [hsum]
    exact ⟨_, m', rfl, rfl⟩
  · exact ⟨_, m, rfl, rfl⟩

theorem chain_eq (nodes : List KdfChainNode) (m : ℕ → UInt8)
    (hlen : nodes.length + path.length ≤ kdfMaxChainLen) (hpath : ∀ v ∈ path, v.length ≤ 256) :
    ∃ nodes' m', path.foldlM (fun s v => kdfChainNodeWithKey sha256 s.1 s.2 v) (nodes, m) =
        some (nodes', m') ∧ nodes'.length = nodes.length + path.length ∧
      hashOf sha256 nodes' = path.foldl hmac (hashOf sha256 nodes) := by
  induction path generalizing nodes m with
  | nil => exact ⟨nodes, m, rfl, rfl, rfl⟩
  | cons v path ih =>
    obtain ⟨hv, hpath⟩ := forall_mem_cons.mp hpath
    rw [length_cons] at hlen
    obtain ⟨n, m₁, hone, hhash⟩ := kdfChainNodeWithKey_eq sha256 nodes m v (by omega) hv
    obtain ⟨nodes', m', hrest, hlen', hhash'⟩ := ih (n :: nodes) m₁ (by simp; omega) hpath
    refine ⟨nodes', m', ?_, ?_, ?_⟩
    · rwa [foldlM_cons, hone]
    · rw [hlen', length_cons, length_cons]
      omega
    · rw [hhash', hhash, foldl_cons]

/-- For every key and path the derivation is the nested HMAC, and no write misses the scratch. -/
theorem kdf_eq_kdfReference : kdf sha256 key path = some (kdfReference sha256 key path) := by
  unfold kdf
  split_ifs with hshape hlong
  · rfl
  · rfl
  simp only [not_or, not_le, not_lt, not_exists, not_and] at hshape hlong
  obtain ⟨n, m₁, hfirst, hhash⟩ := kdfChainNodeWithKey_eq sha256 [] (fun _ => 0)
    kdfSaltConstVMessAEADKDF (by decide) (by decide)
  obtain ⟨nodes, m₂, hchain, hlen, hhash'⟩ := chain_eq sha256 path [n] m₁
    (by simp; omega) hlong
  obtain ⟨m₃, hsum⟩ := chainSum_given sha256 nodes m₂ (by simp at hlen; omega) hshape.2.2
  simp only [hfirst, hchain, hsum, Option.bind_eq_bind, Option.bind_some, Option.pure_def]
  rw [hhash', hhash]
  rfl

end Outbound.Vmess
