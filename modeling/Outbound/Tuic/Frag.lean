import Outbound.Lib.Fragments
import Outbound.Tuic.Packet

/-! Fragmentation of an oversized TUIC packet, and the reassembler of one fragment set. -/
namespace Outbound.Tuic

open Lib List

abbrev Heap := List Address

def Heap.deref (heap : Heap) (p : ℕ) : Address := heap.getD p ⟨atypNone, [], 0⟩

/-- The body of the fragment loop at offset `off`: later fragments carry a copy of the address
without its type. -/
def fragStep (packet : Packet ℕ) (off payloadSize : ℕ) (s : Heap × List (Packet ℕ)) :
    Heap × List (Packet ℕ) :=
  let (heap, frags) := s
  let (heap', fragAddr) :=
    if off = 0 then (heap, packet.addr)
    else (heap ++ [{ heap.deref packet.addr with type := atypNone }], heap.length)
  let frag := { packet with
    addr := fragAddr
    fragID := .ofNat frags.length
    size := .ofNat payloadSize
    data := (packet.data.drop off).take payloadSize }
  (heap', frags ++ [frag])

/-- What the fragmenter leaves behind: the heap, the caller's packet and the fragments. -/
structure Fragmented where
  heap : Heap
  packet : Packet ℕ
  frags : List (Packet ℕ)

def fragmentPackets (heap : Heap) (packet : Packet ℕ) (fragSize : ℤ) : Except Error Fragmented :=
  if fragSize ≤ 0 then
    .error (.errorf s!"tuic: invalid fragment payload size {fragSize}")
  else
    let fullPayload := packet.data
    let fragCount := chunkCount fragSize.toNat fullPayload.length
    if fragCount > 255 then
      .error (.errorf s!"tuic: payload needs {fragCount} fragments, protocol limit is 255")
    else
      let packet := { packet with fragTotal := .ofNat fragCount }
      let s := cutLoop fragSize.toNat fullPayload.length (fragStep packet) fullPayload.length 0
        (heap, [])
      .ok ⟨s.1, packet, s.2⟩

/-- The `j`-th of `n` fragments of `packet` cut at `k` bytes, on a heap of `h` addresses. -/
def fragment (packet : Packet ℕ) (h k n j : ℕ) : Packet ℕ :=
  { packet with
    fragTotal := .ofNat n
    addr := if j = 0 then packet.addr else h + (j - 1)
    fragID := .ofNat j
    size := .ofNat (chunk k packet.data j).length
    data := chunk k packet.data j }

variable (heap : Heap)

theorem Heap.deref_append_left (ext : Heap) {p : ℕ} (hp : p < heap.length) :
    Heap.deref (heap ++ ext) p = heap.deref p := by
  unfold Heap.deref
  simp [getD_eq_getElem?_getD, getElem?_append_left hp]

def fragHeap (p n : ℕ) : Heap :=
  heap ++ replicate (n - 1) { heap.deref p with type := atypNone }

theorem fragHeap_succ (p n : ℕ) :
    fragHeap heap p (n + 2) = fragHeap heap p (n + 1) ++ [{ heap.deref p with type := atypNone }] := by
  change heap ++ replicate (n + 1) _ = heap ++ replicate n _ ++ _
  rw [replicate_succ', append_assoc]

theorem foldl_fragStep (packet : Packet ℕ) {k : ℕ} (hk : 0 < k) (m n : ℕ)
    (hptr : packet.addr < heap.length) :
    (range n).foldl (fun s j => fragStep { packet with fragTotal := .ofNat m } (j * k)
        (min k (packet.data.length - j * k)) s) (heap, []) =
      (fragHeap heap packet.addr n, (range n).map (fragment packet heap.length k m)) := by
  induction n with
  | zero => simp [fragHeap]
  | succ n ih =>
    have hdata : (packet.data.drop (n * k)).take (min k (packet.data.length - n * k)) =
        chunk k packet.data n := by
      rw [chunk, take_eq_take_iff, length_drop]
      omega
    rw [range_succ, foldl_append, ih, map_append]
    simp only [foldl_cons, foldl_nil, map_cons, map_nil, fragStep, length_map, length_range, hdata]
    cases n with
    | zero => simp [fragment, fragHeap, length_chunk]
    | succ n =>
      have hoff : (n + 1) * k ≠ 0 := by
        rw [Nat.succ_mul]
        omega
      have hlen : (fragHeap heap packet.addr (n + 1)).length = heap.length + n := by
        simp [fragHeap]
      have hderef : Heap.deref (fragHeap heap packet.addr (n + 1)) packet.addr =
          heap.deref packet.addr := Heap.deref_append_left heap _ hptr
      rw [if_neg hoff, fragHeap_succ, hlen, hderef]
      simp [fragment, length_chunk]

theorem fragmentPackets_eq (packet : Packet ℕ) {k : ℕ} (hk : 0 < k)
    (hptr : packet.addr < heap.length) (hn : chunkCount k packet.data.length ≤ 255) :
    fragmentPackets heap packet k = .ok
      { heap := fragHeap heap packet.addr (chunkCount k packet.data.length)
        packet := { packet with fragTotal := .ofNat (chunkCount k packet.data.length) }
        frags := (range (chunkCount k packet.data.length)).map
          (fragment packet heap.length k (chunkCount k packet.data.length)) } := by
  have hpos : ¬ (k : ℤ) ≤ 0 := by omega
  have hcount : ¬ chunkCount k packet.data.length > 255 := by omega
  have hloop := cutLoop_eq_foldl hk packet.data.length
    (fragStep { packet with fragTotal := .ofNat (chunkCount k packet.data.length) })
    packet.data.length 0 (heap, ([] : List (Packet ℕ))) (by omega) (by omega)
  rw [Nat.zero_mul, Nat.min_zero, Nat.sub_zero, ← range_eq_range',
    foldl_fragStep heap packet hk _ _ hptr] at hloop
  unfold fragmentPackets
  simp only [if_neg hpos, Int.toNat_natCast, if_neg hcount, hloop]

theorem fragmentPackets_ok {heap : Heap} {packet : Packet ℕ} {fragSize : ℤ} {r : Fragmented}
    (h : fragmentPackets heap packet fragSize = .ok r) :
    ∃ k : ℕ, fragSize = k ∧ 0 < k ∧ chunkCount k packet.data.length ≤ 255 := by
  unfold fragmentPackets at h
  split_ifs at h with hpos
  refine ⟨fragSize.toNat, by omega, by omega, ?_⟩
  by_contra hcount
  have hgt : chunkCount fragSize.toNat packet.data.length > 255 := by omega
  simp only [if_pos hgt] at h
  cases h

def Packet.deref (c : Packet ℕ) (heap : Heap) : Packet Address :=
  ⟨c.ver, c.assocID, c.pktID, c.fragTotal, c.fragID, c.size, heap.deref c.addr, c.data⟩

def Packet.headerLen (c : Packet Address) : ℕ := c.bytesLen - c.data.length

section fragment

variable (heap : Heap) (packet : Packet ℕ) (k n : ℕ)

theorem deref_fragment_zero (hptr : packet.addr < heap.length) :
    ((fragment packet heap.length k n 0).deref (fragHeap heap packet.addr n)).addr =
      heap.deref packet.addr :=
  Heap.deref_append_left heap _ hptr

theorem deref_fragment_succ {j : ℕ} (hj : j + 1 < n) :
    ((fragment packet heap.length k n (j + 1)).deref (fragHeap heap packet.addr n)).addr =
      { heap.deref packet.addr with type := atypNone } := by
  change Heap.deref (fragHeap heap packet.addr n) (heap.length + j) = _
  have hle : heap.length ≤ heap.length + j := by omega
  have hlt : j < n - 1 := by omega
  unfold Heap.deref fragHeap
  rw [getD_eq_getElem?_getD, getElem?_append_right hle, Nat.add_sub_cancel_left,
    getElem?_replicate, if_pos hlt]
  rfl

theorem bytesLen_fragment_le (hptr : packet.addr < heap.length) {j : ℕ} (hj : j < n) :
    ((fragment packet heap.length k n j).deref (fragHeap heap packet.addr n)).bytesLen ≤
      ((fragment packet heap.length k n 0).deref (fragHeap heap packet.addr n)).headerLen + k := by
  have hdata := length_chunk_le k packet.data j
  have hpos := (heap.deref packet.addr).one_le_bytesLen
  have hhead : ((fragment packet heap.length k n 0).deref (fragHeap heap packet.addr n)).headerLen =
      10 + (heap.deref packet.addr).bytesLen := by
    rw [Packet.headerLen, Packet.bytesLen, deref_fragment_zero heap packet k n hptr]
    omega
  have hlen : ((fragment packet heap.length k n j).deref (fragHeap heap packet.addr n)).data.length =
      (chunk k packet.data j).length := rfl
  rw [hhead, Packet.bytesLen, hlen]
  cases j with
  | zero =>
    rw [deref_fragment_zero heap packet k n hptr]
    omega
  | succ j =>
    rw [deref_fragment_succ heap packet k n hj]
    have hnone : Address.bytesLen { heap.deref packet.addr with type := atypNone } = 1 := by
      simp [Address.bytesLen]
    omega

end fragment

/-- A received packet; `ref` tells the packet objects apart, each of which owns its data. -/
structure Received where
  packet : Packet (Option Address)
  ref : ℕ
deriving DecidableEq

def packetFragmentAddrPort (packet : Packet (Option Address)) : AddrPort :=
  match packet.addr with
  | none => .zero
  | some a => if a.type = atypNone then .zero else a.udpAddrPort

structure DeFragger where
  pkgID : UInt16
  frags : List (Option Received)
  count : ℕ
  totalLen : ℕ
  firstAddrPort : AddrPort
  hasFirstFrag : Bool
  lastUpdateNano : ℤ
deriving DecidableEq

/-- What one call of `Feed` returns, and the packets whose data it gave back to the pool. -/
structure Fed where
  data : Bytes
  addrPort : AddrPort
  assembled : Bool
  released : List ℕ
deriving DecidableEq

namespace DeFragger

def new (nowNano : ℤ) : DeFragger := ⟨0, [], 0, 0, .zero, false, nowNano⟩

variable (d : DeFragger) (nowNano : ℤ)

/-- Readings of the clock are not zero. The source reads the clock again for a zero. -/
def touch : DeFragger := { d with lastUpdateNano := nowNano }

def isExpired (ttl : ℤ) : Bool :=
  if ttl ≤ 0 then false
  else decide (0 < d.lastUpdateNano ∧ ttl ≤ nowNano - d.lastUpdateNano)

def release : DeFragger × List ℕ :=
  ({ d with frags := replicate d.frags.length none, count := 0, totalLen := 0 },
    (contents d.frags).map Received.ref)

def isMatch (packet : Packet (Option Address)) : Bool :=
  if packet.fragTotal ≤ 1 then false
  else if d.count = 0 then packet.fragID < packet.fragTotal
  else if d.pkgID ≠ packet.pktID ∨ d.frags.length ≠ packet.fragTotal.toNat then false
  else if packet.fragTotal ≤ packet.fragID then false
  else if packet.fragID = 0 then
    if !d.hasFirstFrag then true
    else
      let addrPort := packetFragmentAddrPort packet
      addrPort.isValid && d.firstAddrPort == addrPort
  else (d.frags.getD packet.fragID.toNat none).isNone

def assembledLen : ℕ × Bool :=
  (d.totalLen, d.count == d.frags.length && d.hasFirstFrag)

def clear (m : Packet (Option Address)) : DeFragger :=
  { d with pkgID := m.pktID, frags := replicate m.fragTotal.toNat none, count := 0,
           totalLen := 0, firstAddrPort := .zero, hasFirstFrag := false }

def noteFirst (m : Packet (Option Address)) : DeFragger :=
  if m.fragID = 0 ∧ (packetFragmentAddrPort m).isValid then
    { d with firstAddrPort := packetFragmentAddrPort m, hasFirstFrag := true }
  else d

section noteFirst

variable (m : Packet (Option Address))

@[simp] theorem noteFirst_pkgID : (d.noteFirst m).pkgID = d.pkgID := by
  unfold noteFirst
  split_ifs <;> rfl

@[simp] theorem noteFirst_frags : (d.noteFirst m).frags = d.frags := by
  unfold noteFirst
  split_ifs <;> rfl

@[simp] theorem noteFirst_count : (d.noteFirst m).count = d.count := by
  unfold noteFirst
  split_ifs <;> rfl

@[simp] theorem noteFirst_totalLen : (d.noteFirst m).totalLen = d.totalLen := by
  unfold noteFirst
  split_ifs <;> rfl

end noteFirst

def store (m : Received) : DeFragger × List ℕ :=
  match d.frags.getD m.packet.fragID.toNat none with
  | none =>
    ({ d with frags := d.frags.set m.packet.fragID.toNat (some m), count := d.count + 1,
              totalLen := d.totalLen + m.packet.data.length }, [])
  | some held => (d, if held.ref ≠ m.ref then [m.ref] else [])

/-- The end of `Feed`: put the fragments together once all are there and the buffer of `p` bytes
takes them. -/
def finish (released : List ℕ) (p : ℕ) : Fed × DeFragger :=
  if d.count = d.frags.length ∧ d.hasFirstFrag ∧ d.totalLen ≤ p then
    (⟨((contents d.frags).map fun r => r.packet.data).flatten.take p, d.firstAddrPort, true,
      released ++ d.release.2⟩, d.release.1)
  else (⟨[], .zero, false, released⟩, d)

/-- `p` is the length of the caller's buffer. A bucket never feeds an unfragmented packet, so the
address of one is not missing where it is read. -/
def feed (m : Option Received) (p : ℕ) (nowNano : ℤ) : Fed × DeFragger :=
  let d := d.touch nowNano
  match m with
  | none => (⟨[], .zero, false, []⟩, d)
  | some m =>
    if m.packet.fragTotal ≤ 1 then
      (⟨m.packet.data.take p, m.packet.addr.elim .zero Address.udpAddrPort, true, []⟩, d)
    else if m.packet.fragTotal ≤ m.packet.fragID then (⟨[], .zero, false, []⟩, d)
    else
      let d := if d.count = 0 then d.clear m.packet else d
      if d.frags.length ≠ m.packet.fragTotal.toNat then (⟨[], .zero, false, []⟩, d)
      else
        let s := (d.noteFirst m.packet).store m
        s.1.finish s.2 p

end DeFragger

end Outbound.Tuic
