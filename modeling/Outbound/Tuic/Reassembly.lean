import Outbound.Lib.Run
import Outbound.Tuic.Frag

/-! The receive side of a TUIC association: the fragment sets in flight under each packet id, their
expiry, and the two paths on which a datagram reaches the caller. -/
namespace Outbound.Tuic

open Lib

def second : ℤ := 1000000000

def deFraggerIdleTimeout : ℤ := 30 * second

def deFraggerCleanupInterval : ℤ := 5 * second

structure DeFraggerBucket where
  deFraggers : List DeFragger
deriving DecidableEq

/-- What the bucket's `feed` returns, and the packets whose data it gave back to the pool. -/
structure BucketFed where
  data : Bytes
  addr : AddrPort
  assembled : Bool
  assembledLen : ℕ
  released : List ℕ
deriving DecidableEq

def swapRemove (ds : List DeFragger) (i : ℕ) : List DeFragger :=
  match ds.getLast? with
  | none => ds
  | some last => (ds.set i last).dropLast

namespace DeFraggerBucket

def release (b : DeFraggerBucket) : DeFraggerBucket × List ℕ :=
  (⟨[]⟩, b.deFraggers.flatMap fun d => d.release.2)

def pruneExpired (b : DeFraggerBucket) (nowNano : ℤ) : DeFraggerBucket × List ℕ :=
  if deFraggerIdleTimeout ≤ 0 then (b, [])
  else
    (⟨b.deFraggers.filter fun d => !d.isExpired nowNano deFraggerIdleTimeout⟩,
      (b.deFraggers.filter fun d => d.isExpired nowNano deFraggerIdleTimeout).flatMap
        fun d => d.release.2)

def isReady (p : ℕ) (d : DeFragger) : Bool := d.assembledLen.2 && d.assembledLen.1 ≤ p

/-- The bucket after the set at `i` was fed, with the sizes that `feed` reports: `size` when the set
was put together, otherwise the length of the set if it is complete. -/
def fedAt (b : DeFraggerBucket) (i size : ℕ) (s : Fed × DeFragger) : BucketFed × DeFraggerBucket :=
  let ds := b.deFraggers.set i s.2
  if s.1.assembled then
    (⟨s.1.data, s.1.addrPort, true, size, s.1.released⟩, ⟨swapRemove ds i⟩)
  else
    (⟨[], .zero, false, if s.2.assembledLen.2 then s.2.assembledLen.1 else 0, s.1.released⟩, ⟨ds⟩)

/-- `feed(nil, p)`: hand out the first fragment set that is complete and fits. -/
def feedNil (b : DeFraggerBucket) (p : ℕ) (nowNano : ℤ) : BucketFed × DeFraggerBucket :=
  match b.deFraggers.findIdx? (isReady p) with
  | none => (⟨[], .zero, false, 0, []⟩, b)
  | some i =>
    let d := b.deFraggers.getD i (.new nowNano)
    let s := d.feed (contents d.frags).head? p nowNano
    let ds := b.deFraggers.set i s.2
    (⟨s.1.data, s.1.addrPort, s.1.assembled, d.assembledLen.1, s.1.released⟩,
      ⟨if s.1.assembled then swapRemove ds i else ds⟩)

/-- Where a fragment goes among the sets it is compatible with. -/
inductive Route where
  | existing (i : ℕ)
  | fresh
  | drop
deriving DecidableEq

variable (b : DeFraggerBucket) (packet : Packet (Option Address))

def candidates : List ℕ :=
  (List.range b.deFraggers.length).filter fun i =>
    (b.deFraggers.getD i (.new 0)).isMatch packet

def route : Route :=
  match b.candidates packet with
  | [] => .fresh
  | [i] => .existing i
  | candidates =>
    let get := fun i => b.deFraggers.getD i (.new 0)
    if packet.fragID = 0 then
      let addrPort := packetFragmentAddrPort packet
      match candidates.find? fun i => (get i).hasFirstFrag && (get i).firstAddrPort == addrPort with
      | some i => .existing i
      | none =>
        match candidates.find? fun i => !(get i).hasFirstFrag with
        | some i => .existing i
        | none => .fresh
    else
      match candidates.filter fun i => (get i).hasFirstFrag with
      | [i] => .existing i
      | _ => .drop

/-- The end of `feed`, once the set at `i` is selected. -/
def feedAt (i : ℕ) (packet : Received) (p : ℕ) (nowNano : ℤ) : BucketFed × DeFraggerBucket :=
  let d := b.deFraggers.getD i (.new nowNano)
  if d.assembledLen.2 ∧ p < d.assembledLen.1 then
    (⟨[], .zero, false, d.assembledLen.1, []⟩, b)
  else b.fedAt i d.assembledLen.1 (d.feed (some packet) p nowNano)

def feedRoute (packet : Received) (p : ℕ) (nowNano : ℤ) :
    Route → BucketFed × DeFraggerBucket
  | .drop => (⟨[], .zero, false, 0, [packet.ref]⟩, b)
  | .existing i => b.feedAt i packet p nowNano
  | .fresh => feedAt ⟨b.deFraggers ++ [.new nowNano]⟩ b.deFraggers.length packet p nowNano

def feed (packet : Received) (p : ℕ) (nowNano : ℤ) : BucketFed × DeFraggerBucket :=
  if packet.packet.fragTotal ≤ 1 ∨ packet.packet.fragTotal ≤ packet.packet.fragID then
    (⟨[], .zero, false, 0, [packet.ref]⟩, b)
  else b.feedRoute packet p nowNano (b.route packet.packet)

end DeFraggerBucket

/-- The pool: `fullCap n` is the length of the buffer it lends for `n` bytes. -/
structure Pool where
  fullCap : ℕ → ℕ
  le_fullCap : ∀ n, n ≤ fullCap n

structure PacketConn where
  closed : Bool
  deFraggers : UInt16 → Option DeFraggerBucket
  lastDeFraggerCleanupNano : ℤ

namespace PacketConn

def new : PacketConn := ⟨false, fun _ => none, 0⟩

variable (pool : Pool) (q : PacketConn) (p : ℕ) (nowNano : ℤ) (id : UInt16) (packet : Received)
  (b : DeFraggerBucket)

def setBucket : PacketConn :=
  { q with deFraggers := Function.update q.deFraggers id (some b) }

/-- `if bucket.len() == 0 { CompareAndDelete(id, bucket) }`, after the bucket is stored. -/
def retire : PacketConn :=
  if b.deFraggers = [] then { q with deFraggers := Function.update q.deFraggers id none }
  else q.setBucket id b

def maybeCleanupDeFraggers : PacketConn :=
  if deFraggerIdleTimeout ≤ 0 then q
  else if q.lastDeFraggerCleanupNano ≠ 0 ∧
      nowNano - q.lastDeFraggerCleanupNano < deFraggerCleanupInterval then q
  else
    { q with
      lastDeFraggerCleanupNano := nowNano
      deFraggers := fun id => (q.deFraggers id).bind fun b =>
        let b' := (b.pruneExpired nowNano).1
        if b'.deFraggers = [] then none else some b' }

def loadBucket : DeFraggerBucket := (q.deFraggers id).getD ⟨[]⟩

/-- The rest of `deliverPacket` after the fragment was fed to its bucket. -/
def deliverFed (nowNano : ℤ)
    (s : BucketFed × DeFraggerBucket) : Option ReceivedPacket × PacketConn :=
  if !s.1.assembled ∧ s.1.assembledLen = 0 then (none, q.setBucket id s.2)
  else
    let t := s.2.feedNil (pool.fullCap s.1.assembledLen) nowNano
    if !t.1.assembled then (none, q.setBucket id t.2)
    else (some ⟨t.1.data, t.1.addr, none⟩, q.retire id t.2)

/-- The push path: what the handler is given, if anything. -/
def deliverPacket : Option ReceivedPacket × PacketConn :=
  if q.closed then (none, q)
  else if packet.packet.fragTotal ≤ 1 then
    match packet.packet.addr with
    | none => (none, q)
    | some a => (some ⟨packet.packet.data, a.udpAddrPort, none⟩, q)
  else
    let id := packet.packet.pktID
    let q := q.maybeCleanupDeFraggers nowNano
    q.deliverFed pool id nowNano ((q.loadBucket id).feed packet 0 nowNano)

def copyOut (data : Bytes) (addr : AddrPort) (p : ℕ) : ReadResult :=
  if data.length > p then
    ⟨data.take p, addr, some (.datagramDropped (.sentinel .shortBuffer))⟩
  else .ok data addr

/-- The rest of a round of `ReadFrom` after the fragment was fed to its bucket. -/
def readFed (p : ℕ) (nowNano : ℤ)
    (s : BucketFed × DeFraggerBucket) : Option ReadResult × PacketConn :=
  if s.1.assembled then (some (.ok s.1.data s.1.addr), q.retire id s.2)
  else if s.1.assembledLen > p then
    let t := s.2.feedNil (pool.fullCap s.1.assembledLen) nowNano
    if t.1.assembled then (some (copyOut t.1.data t.1.addr p), q.retire id t.2)
    else (none, q.setBucket id t.2)
  else (none, q.setBucket id s.2)

/-- The body of the loop in `ReadFrom`, on one popped packet and a buffer of `p` bytes: what the
call returns, if it returns. -/
def readFromStep : Option ReadResult × PacketConn :=
  if packet.packet.fragTotal ≤ 1 then
    match packet.packet.addr with
    | none => (none, q)
    | some a => (some (copyOut packet.packet.data a.udpAddrPort p), q)
  else
    let id := packet.packet.pktID
    let q := q.maybeCleanupDeFraggers nowNano
    q.readFed pool id p nowNano ((q.loadBucket id).feed packet p nowNano)

end PacketConn

/-- The path on which a packet is taken off the transport, with the caller's buffer length. -/
inductive Path where
  | push
  | pull (p : ℕ)
deriving DecidableEq

inductive Outcome where
  | handed (r : ReceivedPacket)
  | returned (r : ReadResult)
deriving DecidableEq

structure Arrival where
  path : Path
  nowNano : ℤ
  packet : Received

def PacketConn.step (pool : Pool) (q : PacketConn) (a : Arrival) : Option Outcome × PacketConn :=
  match a.path with
  | .push =>
    let s := q.deliverPacket pool a.nowNano a.packet
    (s.1.map .handed, s.2)
  | .pull p =>
    let s := q.readFromStep pool p a.nowNano a.packet
    (s.1.map .returned, s.2)

end Outbound.Tuic
