import Outbound.Hysteria2.Message
import Outbound.Lib.Fragments
import Outbound.Lib.Run

/-! Fragmentation of Hysteria2 UDP messages, and the reassembler of one session. -/
namespace Outbound.Hysteria2

open Lib List

variable (m : UDPMessage)

/-- The body of the fragment loop: `s` is the next fragment id and the fragments so far. -/
def fragStep (fragCount off payloadSize : ℕ) (s : UInt8 × List UDPMessage) :
    UInt8 × List UDPMessage :=
  let frag := { m with
    fragID := s.1
    fragCount := .ofNat fragCount
    data := (m.data.drop off).take payloadSize }
  (s.1 + 1, s.2.set s.1.toNat frag)

def fragUDPMessage (maxSize : ℤ) : Except Error (List UDPMessage) :=
  if (m.size : ℤ) ≤ maxSize then .ok [m]
  else
    let maxPayloadSize := maxSize - m.headerSize
    if maxPayloadSize ≤ 0 then
      .error (.errorf
        s!"hysteria2: datagram max size {maxSize} cannot hold UDP header of {m.headerSize} bytes")
    else
      let fragCount := chunkCount maxPayloadSize.toNat m.data.length
      if fragCount > 255 then
        .error (.errorf
          s!"hysteria2: datagram requires {fragCount} fragments, exceeds uint8 FragCount")
      else
        .ok (cutLoop maxPayloadSize.toNat m.data.length (fragStep m fragCount) m.data.length 0
          (0, replicate fragCount .zero)).2

def fragment (k n j : ℕ) : UDPMessage :=
  { m with fragID := .ofNat j, fragCount := .ofNat n, data := chunk k m.data j }

theorem foldl_fragStep (k n i : ℕ) (hi : i ≤ n) (hn : n ≤ 255) :
    (range i).foldl (fun s j => fragStep m n (j * k) (min k (m.data.length - j * k)) s)
        (0, replicate n .zero) =
      (.ofNat i, (range i).map (fragment m k n) ++ replicate (n - i) .zero) := by
  induction i with
  | zero => rfl
  | succ i ih =>
    have hdata : (m.data.drop (i * k)).take (min k (m.data.length - i * k)) = chunk k m.data i := by
      rw [chunk, take_eq_take_iff, length_drop]
      omega
    have hbyte : (UInt8.ofNat i).toNat = i := by
      rw [UInt8.toNat_ofNat']
      omega
    have hrest : n - i = (n - (i + 1)) + 1 := by omega
    rw [range_succ, foldl_append, ih (by omega), map_append]
    simp only [foldl_cons, foldl_nil, map_cons, map_nil, fragStep, hdata, hbyte]
    rw [set_append_right _ _ (by simp), length_map, length_range, Nat.sub_self,
      hrest, replicate_succ, set_cons_zero, append_assoc]
    congr 1
    exact (UInt8.ofNat_add i 1).symm

theorem fragUDPMessage_eq {k : ℕ} (hk : 0 < k)
    (hlarge : m.headerSize + k < m.size) (hn : chunkCount k m.data.length ≤ 255) :
    fragUDPMessage m ((m.headerSize + k : ℕ) : ℤ) =
      .ok ((range (chunkCount k m.data.length)).map
        (fragment m k (chunkCount k m.data.length))) := by
  have hsize : ¬ (m.size : ℤ) ≤ ((m.headerSize + k : ℕ) : ℤ) := by omega
  have hmax : ((m.headerSize + k : ℕ) : ℤ) - m.headerSize = k := by
    omega
  have hpos : ¬ (k : ℤ) ≤ 0 := by omega
  have hcount : ¬ chunkCount k m.data.length > 255 := by omega
  have hloop := cutLoop_eq_foldl hk m.data.length (fragStep m (chunkCount k m.data.length))
    m.data.length 0 ((0 : UInt8), replicate (chunkCount k m.data.length) UDPMessage.zero)
    (by omega) (by omega)
  rw [Nat.zero_mul, Nat.min_zero, Nat.sub_zero, ← range_eq_range',
    foldl_fragStep m k _ _ (Nat.le_refl _) hn, Nat.sub_self, replicate_zero, append_nil] at hloop
  unfold fragUDPMessage
  simp only [if_neg hsize, hmax, if_neg hpos, Int.toNat_natCast, if_neg hcount, hloop]

structure Message where
  ref : ℕ
  msg : UDPMessage
deriving DecidableEq

structure Defragger where
  pktID : UInt16
  frags : List (Option Message)
  count : ℕ
  size : ℕ
  closed : Bool
deriving DecidableEq

/-- What one call of `Feed` returns, and the receive buffers it gave back. -/
structure Fed where
  msg : Option UDPMessage
  released : List ℕ
deriving DecidableEq

namespace Defragger

def new : Defragger := ⟨0, [], 0, 0, false⟩

variable (d : Defragger)

def releaseHeld : Defragger × List ℕ :=
  ({ d with frags := [], count := 0, size := 0 },
    (contents d.frags).filterMap fun m => m.msg.release)

def close : Defragger × List ℕ := { d with closed := true }.releaseHeld

variable (m : Message)

def restart : Defragger :=
  { d with
    pktID := m.msg.packetID
    frags := (replicate m.msg.fragCount.toNat none).set m.msg.fragID.toNat (some m)
    count := 1
    size := m.msg.data.length }

def put : Defragger :=
  { d with
    frags := d.frags.set m.msg.fragID.toNat (some m)
    count := d.count + 1
    size := d.size + m.msg.data.length }

def assemble : UDPMessage :=
  { m.msg with
    data := ((contents d.frags).map fun f => f.msg.data).flatten.take d.size
    fragID := 0
    fragCount := 1
    release := none }

def feed : Fed × Defragger :=
  if d.closed then (⟨none, m.msg.release.toList⟩, d)
  else if m.msg.fragCount ≤ 1 then (⟨some m.msg, []⟩, d)
  else if m.msg.fragCount ≤ m.msg.fragID then (⟨none, m.msg.release.toList⟩, d)
  else if m.msg.packetID ≠ d.pktID ∨ m.msg.fragCount ≠ .ofNat d.frags.length then
    (⟨none, d.releaseHeld.2⟩, d.releaseHeld.1.restart m)
  else
    match d.frags.getD m.msg.fragID.toNat none with
    | none =>
      let d := d.put m
      if d.count = d.frags.length then (⟨some (d.assemble m), d.releaseHeld.2⟩, d.releaseHeld.1)
      else (⟨none, []⟩, d)
    | some held => (⟨none, if held.ref ≠ m.ref then m.msg.release.toList else []⟩, d)

def step : Option UDPMessage × Defragger :=
  ((d.feed m).1.msg, (d.feed m).2)

end Defragger

end Outbound.Hysteria2
