import Outbound.Ciphers.SlidingWindow
import Outbound.Shadowsocks2022.Packet

/-! The anti-replay state of a Shadowsocks 2022 UDP connection as a machine of atomic steps: one
receiver, any number of cleanup sweeps running beside it, and the eviction inside the receiver. -/
namespace Outbound.Shadowsocks2022

open Lib Ciphers

def udpPacketReplayWindowSize : ℤ := 1024

def maxTrackedUdpSessions : Int64 := 128

def cleanupInterval : Int64 := 1000

def expireNano : Int64 := .ofInt saltStorageDuration

def unixNano (now : ℤ) : Int64 := .ofInt now

structure UdpSessionReplayState where
  filter : SlidingWindowFilter
  lastSeen : Int64

/-- A cleanup sweep: the time it was started with, and the entry it has found expired and is about
to delete. -/
structure Sweep where
  nowNano : Int64
  pending : Option (SessionID × ℕ)

/-- The entry an eviction scan would remove so far. -/
abbrev Oldest := Option (SessionID × ℕ × Int64)

/-- Where the receiver stands in `checkAndUpdateReplay`. Each state is left by one atomic action. -/
inductive Receiver where
  | idle
  | load (d : Opened) (now : ℤ)
  | check (d : Opened) (now : ℤ) (state : ℕ)
  | expire (d : Opened) (now : ℤ) (state : ℕ)
  | count (d : Opened) (now : ℤ)
  | store (d : Opened) (now : ℤ)
  | touch (d : Opened) (now : ℤ) (state : ℕ)
  | evict (d : Opened) (now : ℤ) (state : ℕ)
  | round (d : Opened) (now : ℤ) (state : ℕ) (nowNano : Int64)
  | scan (d : Opened) (now : ℤ) (state : ℕ) (nowNano : Int64) (oldest : Oldest)
  | delete (d : Opened) (now : ℤ) (state : ℕ) (nowNano : Int64) (key : SessionID) (value : ℕ)
  | filter (d : Opened) (now : ℤ) (state : ℕ)

/-- The connection: session states live on a heap and are named by their address, so that a
compare-and-delete can tell a session from a later one with the same identifier. -/
structure UdpConn where
  decryptCiphers : CipherCache
  heap : List UdpSessionReplayState
  replayWindow : SessionID → Option ℕ
  replayCount : Int64
  cleanupCounter : Int64
  sweeps : List Sweep
  receiver : Receiver

def newUdpConn : UdpConn := ⟨[], [], fun _ => none, 0, 0, [], .idle⟩

inductive Outcome where
  | accepted (d : Opened) (now : ℤ)
  | rejected (err : Error)

/-- What happens next: a datagram arrives at a clock reading, the receiver takes its next action,
the eviction reads the clock, its scan visits a key or ends, a sweep visits a key or deletes. -/
inductive Event where
  | receive (buf : Bytes) (now : ℤ)
  | advance
  | evictClock (now : ℤ)
  | scanKey (key : SessionID)
  | scanEnd
  | sweepKey (sweep : ℕ) (key : SessionID)
  | sweepDelete (sweep : ℕ)

def Event.reading : Event → Option ℤ
  | .receive _ now => some now
  | .evictClock now => some now
  | _ => none

namespace UdpConn

variable (c : UdpConn)

def lastSeen (state : ℕ) : Int64 := (c.heap[state]?).elim 0 (·.lastSeen)

def storeLastSeen (state : ℕ) (nowNano : Int64) : UdpConn :=
  { c with heap := c.heap.modify state fun s => { s with lastSeen := nowNano } }

def compareAndDelete (key : SessionID) (value : ℕ) : UdpConn :=
  if c.replayWindow key = some value then
    { c with
      replayWindow := fun k => if k = key then none else c.replayWindow k
      replayCount := c.replayCount - 1 }
  else c

/-- The receiver's next action in `checkAndUpdateReplay`. -/
def advance : Option (Option Outcome × UdpConn) :=
  match c.receiver with
  | .load d now =>
    match c.replayWindow d.sessionID with
    | some state => some (none, { c with receiver := .check d now state })
    | none => some (none, { c with receiver := .count d now })
  | .check d now state =>
    if unixNano now - c.lastSeen state > expireNano then
      some (none, { c with receiver := .expire d now state })
    else
      some (none, { c.storeLastSeen state (unixNano now) with receiver := .filter d now state })
  | .expire d now state =>
    some (none, { c.compareAndDelete d.sessionID state with receiver := .count d now })
  | .count d now =>
    let counter := c.cleanupCounter + 1
    some (none,
      { c with
        cleanupCounter := counter
        sweeps := if counter % cleanupInterval = 0 then c.sweeps ++ [⟨unixNano now, none⟩]
          else c.sweeps
        receiver := .store d now })
  | .store d now =>
    match c.replayWindow d.sessionID with
    | some state => some (none, { c with receiver := .touch d now state })
    | none =>
      let state := c.heap.length
      some (none,
        { c with
          heap := c.heap ++ [⟨newSlidingWindowFilter udpPacketReplayWindowSize, unixNano now⟩]
          replayWindow := fun k => if k = d.sessionID then some state else c.replayWindow k
          replayCount := c.replayCount + 1
          receiver := .evict d now state })
  | .touch d now state =>
    some (none, { c.storeLastSeen state (unixNano now) with receiver := .filter d now state })
  | .round d now state nowNano =>
    if c.replayCount > maxTrackedUdpSessions then
      some (none, { c with receiver := .scan d now state nowNano none })
    else some (none, { c with receiver := .filter d now state })
  | .delete d now state nowNano key value =>
    some (none, { c.compareAndDelete key value with receiver := .round d now state nowNano })
  | .filter d now state =>
    match c.heap[state]? with
    | none => none
    | some s =>
      let (ok, filter) := s.filter.checkAndUpdate d.packetID
      some (some (if ok then .accepted d now else .rejected (.sentinel .replayAttack)),
        { c with
          heap := c.heap.set state { s with filter := filter }
          receiver := .idle })
  | _ => none

/-- One visit of an eviction scan: only entries past the retention period are candidates. -/
def scanVisit (nowNano : Int64) (oldest : Oldest) (key : SessionID) : Oldest :=
  match c.replayWindow key with
  | none => oldest
  | some value =>
    let seen := c.lastSeen value
    if nowNano - seen ≤ expireNano then oldest
    else
      match oldest with
      | none => some (key, value, seen)
      | some (_, _, oldestNano) => if seen < oldestNano then some (key, value, seen) else oldest

def sweepVisit (s : Sweep) (key : SessionID) : Option (SessionID × ℕ) :=
  match c.replayWindow key with
  | none => none
  | some value => if s.nowNano - c.lastSeen value > expireNano then some (key, value) else none

/-- One atomic step; `none` when the event cannot happen in this state. -/
def step (core : Core) (c : UdpConn) : Event → Option (Option Outcome × UdpConn)
  | .receive buf now =>
    match c.receiver with
    | .idle =>
      let (opened, cache) := openPacket core c.decryptCiphers buf now
      match opened with
      | .error err => some (some (.rejected err), { c with decryptCiphers := cache })
      | .ok d => some (none, { c with decryptCiphers := cache, receiver := .load d now })
    | _ => none
  | .advance => c.advance
  | .evictClock evictNow =>
    match c.receiver with
    | .evict d now state => some (none, { c with receiver := .round d now state (unixNano evictNow) })
    | _ => none
  | .scanKey key =>
    match c.receiver with
    | .scan d now state nowNano oldest =>
      some (none,
        { c with receiver := .scan d now state nowNano (c.scanVisit nowNano oldest key) })
    | _ => none
  | .scanEnd =>
    match c.receiver with
    | .scan d now state nowNano oldest =>
      match oldest with
      | none => some (none, { c with receiver := .filter d now state })
      | some (key, value, _) =>
        some (none, { c with receiver := .delete d now state nowNano key value })
    | _ => none
  | .sweepKey i key =>
    match c.sweeps[i]? with
    | some ⟨nowNano, none⟩ =>
      some (none,
        { c with sweeps := c.sweeps.set i ⟨nowNano, c.sweepVisit ⟨nowNano, none⟩ key⟩ })
    | _ => none
  | .sweepDelete i =>
    match c.sweeps[i]? with
    | some ⟨nowNano, some (key, value)⟩ =>
      some (none, { c.compareAndDelete key value with sweeps := c.sweeps.set i ⟨nowNano, none⟩ })
    | _ => none

end UdpConn

end Outbound.Shadowsocks2022
