import Outbound.Anytls.ChunkCustody
import Outbound.Anytls.WriteGate
import Outbound.Lib.Run

/-! One stream of a session under any number of calls at once: writers of both kinds, readers, the
calls that close it or its writing half, the peer's end of it, and the close of the session. Calls are
interleaved at every lock they take and every flag they load or swap. -/
namespace Outbound.Anytls

/-- `stream.Write`, and `WriteTo` and `WriteBatch` of a packet stream. -/
inductive Job where
  | write
  | packet
  | batch
deriving DecidableEq

/-- Who marks the stream closed: `closeLocal`, `remoteClose`, or `Close` of the session. -/
inductive Closer where
  | close
  | remote
  | session
deriving DecidableEq

/-- Where a call is. A writer has `n` frames to send; `first` is what `markClosed` returned, and
`half` tells `CloseWrite` from `closeLocal`. -/
inductive Phase where
  | idle
  | entry (job : Job) (n : ℕ)
  | entryOpen (n : ℕ)
  | waiting (job : Job) (n : ℕ)
  | holding (job : Job) (n : ℕ)
  | holdingOpen (n : ℕ)
  | sending (job : Job) (left : ℕ)
  | halfClosing
  | halfClosingOpen
  | halfClosed
  | finWait
  | finHeld
  | fin (half : Bool)
  | finSend (half : Bool)
  | marking (closer : Closer)
  | markHeld (closer : Closer)
  | marked (closer : Closer)
  | barrier (first : Bool)
  | drainWait (first : Bool)
  | draining (first : Bool)
  | removing
  | sessionClosing
  | sessionDone
  | sessionTake
  | reading
  | readLocked
  | readBarrier
deriving DecidableEq

/-- A stream, the flags of its session, and where its calls are. `wire` are its frames in the order
in which they were handed to the connection; chunks are numbered, and `delivered` were read to their
end, `dropped` thrown away by a close. -/
structure Stream where
  closed : Bool
  closeCh : Bool
  writeClosed : Bool
  sessionClosed : Bool
  done : Bool
  registered : Bool
  writeMutex : Option ℕ
  readMutex : Option ℕ
  closeMu : Option ℕ
  inbound : List Chunk
  readBuf : Option Chunk
  enq : Enqueue
  phase : ℕ → Phase
  wire : List Sent
  received : ℕ
  returned : List ℕ
  delivered : List ℕ
  dropped : List ℕ
  drained : Bool

/-- The calls on the stream, one of the session, and the frame that ends the stream from the peer. -/
inductive StreamCall where
  | write (n : ℕ)
  | writeTo (n : ℕ)
  | writeBatch (n : ℕ)
  | closeWrite
  | close
  | remoteClose
  | sessionClose
  | read
deriving DecidableEq

def StreamCall.phase : StreamCall → Phase
  | .write n => .entry .write n
  | .writeTo n => .entry .packet n
  | .writeBatch n => .entry .batch n
  | .closeWrite => .halfClosing
  | .close => .marking .close
  | .remoteClose => .marking .remote
  | .sessionClose => .sessionClosing
  | .read => .reading

/-- How a step goes where that is not the stream's to say: `fail` is an error of the call's own, of
the connection or of a deadline, and `copy` a read with room for `len` bytes. -/
inductive Choice where
  | go
  | fail
  | copy (len : ℕ)
deriving DecidableEq

/-- The ready case that the last `select` of `enqueue` takes. -/
inductive Arm where
  | send
  | closeCh
  | done
deriving DecidableEq

inductive StreamEvent where
  | start (t : ℕ) (call : StreamCall)
  | step (t : ℕ) (choice : Choice)
  | recv (len : ℕ)
  | enqueue (arm : Arm)
deriving DecidableEq

namespace Stream

def new : Stream where
  closed := false
  closeCh := false
  writeClosed := false
  sessionClosed := false
  done := false
  registered := true
  writeMutex := none
  readMutex := none
  closeMu := none
  inbound := []
  readBuf := none
  enq := .idle
  phase := fun _ => .idle
  wire := []
  received := 0
  returned := []
  delivered := []
  dropped := []
  drained := false

variable (s : Stream) (c : Chunk) (t : ℕ) (len : ℕ) (job : Job) (left : ℕ) (choice : Choice)
  (p : Phase)

def setPhase : Stream :=
  { s with phase := Function.update s.phase t p }

/-- `writeMutex.Lock`: nothing happens while another call has it. -/
def lockWrite : Stream :=
  match s.writeMutex with
  | none => { s with writeMutex := some t }.setPhase t p
  | some _ => s

def unlockWrite : Stream :=
  { s with writeMutex := none }.setPhase t p

def lockRead : Stream :=
  match s.readMutex with
  | none => { s with readMutex := some t }.setPhase t p
  | some _ => s

def unlockRead : Stream :=
  { s with readMutex := none }.setPhase t p

def burst : ℕ :=
  match job with
  | .write => 1
  | .packet => 1
  | .batch => left

/-- The loop of `writeDataFrames`, and the one write of `writeDataFramesBatch`. A session that is
closed takes no frame, and after an error nothing more is sent. -/
def sendData : Stream :=
  if left = 0 then s.unlockWrite t .idle
  else if s.sessionClosed then s.unlockWrite t .idle
  else
    { s with wire := s.wire ++ List.replicate (burst job left) Sent.psh }.setPhase t
      (.sending job (if choice = Choice.fail then 0 else left - burst job left))

def afterFin (half : Bool) : Phase := if half then .idle else .removing

def afterMark (closer : Closer) (first : Bool) : Phase :=
  match closer with
  | .close => .barrier first
  | .remote => .removing
  | .session => .idle

def drop : Stream :=
  { s with returned := s.returned ++ [c.id], dropped := s.dropped ++ [c.id] }

/-- The drain of `closeLocal` under `readMutex`, one chunk a step. -/
def drain (first : Bool) : Stream :=
  match s.readBuf with
  | some c => { s.drop c with readBuf := none }
  | none =>
    match s.inbound with
    | c :: rest => { s.drop c with inbound := rest }
    | [] => { s with drained := true }.unlockRead t (if first then .finWait else .removing)

/-- `readLocked` with room for `len` bytes. With nothing buffered it takes the next chunk, goes on
to wait for an enqueue on its way in if the stream is closed, and waits otherwise. -/
def copyOut : Stream :=
  match s.readBuf with
  | some c =>
    if c.len ≤ len then
      { s with
        readBuf := none, returned := s.returned ++ [c.id], delivered := s.delivered ++ [c.id] }
    else { s with readBuf := some { c with len := c.len - len } }
  | none =>
    match s.inbound with
    | c :: rest => { s with readBuf := some c, inbound := rest }
    | [] => if s.closed then s.setPhase t .readBarrier else s

/-- The second look at the queue of a closed stream, once no enqueue is on its way in. The chunk it
finds is taken by the next step, under the same lock. -/
def lastChunk : Stream :=
  if s.enq.locked then s
  else if s.inbound = [] then s.unlockRead t .idle
  else s.setPhase t .readLocked

def advance : Stream :=
  match s.phase t with
  | .idle => s
  -- the checks before the lock; an oversized datagram fails here
  | .entry job n =>
    if choice = .fail ∨ s.closed then s.setPhase t .idle
    else if job = .write then s.setPhase t (.entryOpen n)
    else s.setPhase t (.waiting job n)
  | .entryOpen n =>
    if s.writeClosed ∨ n = 0 then s.setPhase t .idle else s.setPhase t (.waiting .write n)
  | .waiting job n => s.lockWrite t (.holding job n)
  -- the checks under the lock; a packet stream looks at `closed` only, and its address may not parse
  | .holding job n =>
    if s.closed then s.unlockWrite t .idle
    else if job = .write then s.setPhase t (.holdingOpen n)
    else if choice = .fail then s.unlockWrite t .idle
    else s.setPhase t (.sending job n)
  | .holdingOpen n =>
    if s.writeClosed then s.unlockWrite t .idle else s.setPhase t (.sending .write n)
  | .sending job left => s.sendData t job left choice
  | .halfClosing => if s.closed then s.setPhase t .idle else s.setPhase t .halfClosingOpen
  | .halfClosingOpen =>
    if s.writeClosed then s.setPhase t .idle
    else { s with writeClosed := true }.setPhase t .halfClosed
  | .halfClosed => s.lockWrite t (.fin true)
  | .finWait => s.lockWrite t .finHeld
  | .finHeld =>
    if s.writeClosed then s.unlockWrite t .removing
    else { s with writeClosed := true }.setPhase t (.fin false)
  | .fin half =>
    if s.sessionClosed then s.unlockWrite t (afterFin half) else s.setPhase t (.finSend half)
  -- `writeFrame` looks at the session once more
  | .finSend half =>
    if s.sessionClosed then s.unlockWrite t (afterFin half)
    else { s with wire := s.wire ++ [Sent.fin] }.unlockWrite t (afterFin half)
  | .marking closer =>
    match s.closeMu with
    | none => { s with closeMu := some t }.setPhase t (.markHeld closer)
    | some _ => s
  | .markHeld closer =>
    if s.closed then { s with closeMu := none }.setPhase t (afterMark closer false)
    else { s with closed := true }.setPhase t (.marked closer)
  | .marked closer =>
    { s with closeCh := true, closeMu := none }.setPhase t (afterMark closer true)
  | .barrier first => if s.enq.locked then s else s.setPhase t (.drainWait first)
  | .drainWait first => s.lockRead t (.draining first)
  | .draining first => s.drain t first
  | .removing => { s with registered := false }.setPhase t .idle
  | .sessionClosing =>
    if s.sessionClosed then s.setPhase t .idle
    else { s with sessionClosed := true }.setPhase t .sessionDone
  | .sessionDone => { s with done := true }.setPhase t .sessionTake
  | .sessionTake =>
    if s.registered then { s with registered := false }.setPhase t (.marking .session)
    else s.setPhase t .idle
  | .reading => s.lockRead t .readLocked
  | .readLocked =>
    match choice with
    | .copy len => s.copyOut t len
    | _ => s.unlockRead t .idle
  | .readBarrier => s.lastChunk t

def reject : Stream :=
  { s with enq := .idle, returned := s.returned ++ [c.id] }

/-- A frame with data from the peer: a stream that is not registered has its chunk returned. -/
def recv : Stream :=
  if len = 0 ∨ s.enq ≠ .idle then s
  else if s.registered then
    { s with received := s.received + 1, enq := .looked ⟨s.received, len⟩ }
  else { s with received := s.received + 1, returned := s.returned ++ [s.received] }

def enqueue (arm : Arm) : Stream :=
  match s.enq with
  | .idle => s
  | .looked c => { s with enq := .inside c }
  | .inside c => if s.closed then s.reject c else { s with enq := .opened c }
  | .opened c => if s.done then s.reject c else { s with enq := .live c }
  | .live c =>
    match arm with
    | .send =>
      if s.inbound.length < 16 then { s with enq := .idle, inbound := s.inbound ++ [c] } else s
    | .closeCh => if s.closeCh then s.reject c else s
    | .done => if s.done then s.reject c else s

def step (s : Stream) : StreamEvent → Stream
  | .start t call => if s.phase t = .idle then s.setPhase t call.phase else s
  | .step t choice => s.advance t choice
  | .recv len => s.recv len
  | .enqueue arm => s.enqueue arm

def run (events : List StreamEvent) : Stream := Run.exec (fun s e => ((), s.step e)) new events

end Stream

end Outbound.Anytls
