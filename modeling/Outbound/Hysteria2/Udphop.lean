import Mathlib.Data.List.Basic
import Outbound.Lib.Run

/-! The port-hopping connection: its sockets and their receive loops, the queue the loops share,
and the calls that wait for the queue. Times are in nanoseconds. -/
namespace Outbound.Hysteria2.Udphop

open List

def packetQueueSize : ℕ := 1024

/-- The pause of a receive loop after an error on a socket that is still in use. -/
def retryPause : ℕ := 100000000

inductive ReadError where
  | timeout
  | closed

/-- A queued datagram, or the timeout that `handleRecvError` queues. -/
inductive UdpPacket (P : Type) where
  | data (p : P)
  | timeout

structure Result (P : Type) where
  packets : List P
  err : Option ReadError

/-- A receive loop is in `ReadFrom`, behind an error of it, in the pause before the next attempt,
or done. -/
inductive RecvLoop where
  | reading
  | failed (timeout : Bool)
  | pausing (till : ℕ)
  | exited
  deriving DecidableEq

/-- The channels `recvQueue` and `closeChan`: calls wait only while the one is empty and the other
open. -/
inductive RecvQueue (P : Type) where
  | awaited (calls : List ℕ)
  | holding (packets : List (UdpPacket P)) (closed : Bool)

/-- Sockets and calls are numbered in the order in which they are opened and made. -/
structure UdpHopPacketConn (P : Type) where
  now : ℕ
  prevConn : Option ℕ
  currentConn : ℕ
  deadline : ℕ → Option ℕ
  recvLoop : ℕ → RecvLoop
  recvQueue : RecvQueue P
  calls : ℕ

inductive Event (P : Type) where
  | hop
  | setReadDeadline (t : Option ℕ)
  | packet (conn : ℕ) (p : P)
  | fail (conn : ℕ) (timeout : Bool)
  | handle (conn : ℕ) (drop : Bool)
  | resume (conn : ℕ)
  | read (more : ℕ) (preferClose : Bool)
  | close
  | tick (d : ℕ)

/-- What `n` messages take of the queue, up to the first error. -/
def drain {P : Type} : ℕ → List (UdpPacket P) → Result P × List (UdpPacket P)
  | 0, q => (⟨[], none⟩, q)
  | _ + 1, [] => (⟨[], none⟩, [])
  | _ + 1, .timeout :: q => (⟨[], some .timeout⟩, q)
  | n + 1, .data p :: q => (⟨p :: (drain n q).1.packets, (drain n q).1.err⟩, (drain n q).2)

namespace UdpHopPacketConn

variable {P : Type}

def new : UdpHopPacketConn P where
  now := 0
  prevConn := none
  currentConn := 0
  deadline _ := none
  recvLoop conn := if conn = 0 then .reading else .exited
  recvQueue := .awaited []
  calls := 0

variable (u : UdpHopPacketConn P)

def waiting : List ℕ :=
  match u.recvQueue with
  | .awaited calls => calls
  | .holding _ _ => []

def closed : Bool :=
  match u.recvQueue with
  | .awaited _ => false
  | .holding _ closed => closed

def connStillLive (conn : ℕ) : Bool :=
  !u.closed && (conn == u.currentConn || u.prevConn == some conn)

def setLoop (conn : ℕ) (l : RecvLoop) : UdpHopPacketConn P :=
  { u with recvLoop := Function.update u.recvLoop conn l }

/-- A send that does not block: to the call that has waited longest, or into the queue while there
is room. -/
def send (p : UdpPacket P) : List (ℕ × Result P) × UdpHopPacketConn P :=
  match u.recvQueue with
  | .awaited (call :: rest) => ([(call, (drain 1 [p]).1)], { u with recvQueue := .awaited rest })
  | .awaited [] => ([], { u with recvQueue := .holding [p] false })
  | .holding packets closed => ([], if packets.length < packetQueueSize
      then { u with recvQueue := .holding (packets ++ [p]) closed } else u)

/-- Of a closed connection and a queue with room, `select` takes either. -/
def handleRecvError (timeout drop : Bool) : List (ℕ × Result P) × UdpHopPacketConn P :=
  if timeout && !(u.closed && drop) then u.send .timeout else ([], u)

def hop : UdpHopPacketConn P :=
  if u.closed then u
  else { u.setLoop (u.currentConn + 1) .reading with
    prevConn := some u.currentConn, currentConn := u.currentConn + 1 }

/-- The sockets of later hops do not take over the deadline. -/
def setReadDeadline (t : Option ℕ) : UdpHopPacketConn P :=
  { u with deadline := fun conn =>
    if conn = u.currentConn ∨ u.prevConn = some conn then t else u.deadline conn }

/-- `ReadBatch` with `more + 1` messages, which is `ReadFrom` for one. Of a closed connection and a
queued packet, `select` takes either. -/
def read (more : ℕ) (preferClose : Bool) : List (ℕ × Result P) × UdpHopPacketConn P :=
  let v := { u with calls := u.calls + 1 }
  match u.recvQueue with
  | .awaited calls => ([], { v with recvQueue := .awaited (calls ++ [u.calls]) })
  | .holding [] false => ([], { v with recvQueue := .awaited [u.calls] })
  | .holding packets closed =>
    if closed && (preferClose || packets.isEmpty) then ([(u.calls, ⟨[], some .closed⟩)], v)
    else ([(u.calls, (drain (more + 1) packets).1)],
      { v with recvQueue := .holding (drain (more + 1) packets).2 closed })

def close : List (ℕ × Result P) × UdpHopPacketConn P :=
  match u.recvQueue with
  | .awaited calls => (calls.map fun call => (call, ⟨[], some .closed⟩),
    { u with recvQueue := .holding [] true })
  | .holding packets _ => ([], { u with recvQueue := .holding packets true })

/-- One event, with the calls that return in it. -/
def step : Event P → List (ℕ × Result P) × UdpHopPacketConn P
  | .hop => ([], u.hop)
  | .setReadDeadline t => ([], u.setReadDeadline t)
  | .packet conn p => if u.recvLoop conn = .reading then u.send (.data p) else ([], u)
  | .fail conn timeout =>
    ([], if u.recvLoop conn = .reading ∧
        (timeout = true → (u.deadline conn).any (· ≤ u.now) = true)
      then u.setLoop conn (.failed timeout) else u)
  | .handle conn drop =>
    match u.recvLoop conn with
    | .failed timeout =>
      if u.connStillLive conn then ([], u.setLoop conn (.pausing (u.now + retryPause)))
      else (u.setLoop conn .exited).handleRecvError timeout drop
    | _ => ([], u)
  | .resume conn =>
    ([], match u.recvLoop conn with
      | .pausing till => if till ≤ u.now ∨ u.closed = true then u.setLoop conn .reading else u
      | _ => u)
  | .read more preferClose => u.read more preferClose
  | .close => u.close
  | .tick d => ([], { u with now := u.now + d })

/-- A datagram, or a timeout of a socket that a hop retired between the failed read and its
handling. -/
def wakes : Event P → Bool
  | .packet conn _ => decide (u.recvLoop conn = .reading)
  | .handle conn _ => decide (u.recvLoop conn = .failed true) && !u.connStillLive conn
  | _ => false

def wakeUps : UdpHopPacketConn P → List (Event P) → ℕ
  | _, [] => 0
  | u, e :: es => (u.wakes e).toNat + wakeUps (u.step e).2 es

/-- What an event does while the calls `call :: rest` wait. -/
inductive Serves (u : UdpHopPacketConn P) (call : ℕ) (rest : List ℕ) :
    Event P → List (ℕ × Result P) × UdpHopPacketConn P → Prop
  | close (v : UdpHopPacketConn P) : Serves u call rest .close
      ((call :: rest).map fun c => (c, ⟨[], some .closed⟩), v)
  | wake (e : Event P) (r : Result P) (v : UdpHopPacketConn P) (hwakes : u.wakes e = true)
      (hv : v.recvQueue = .awaited rest) : Serves u call rest e ([(call, r)], v)
  | stay (e : Event P) (v : UdpHopPacketConn P) (more : List ℕ) (hne : e ≠ .close)
      (hwakes : u.wakes e = false) (hv : v.recvQueue = .awaited (call :: rest ++ more)) :
      Serves u call rest e ([], v)

variable {u} {call : ℕ}

theorem step_serves {rest : List ℕ} (hq : u.recvQueue = .awaited (call :: rest)) (e : Event P) :
    Serves u call rest e (u.step e) := by
  have hstay {e : Event P} {v : UdpHopPacketConn P} (hne : e ≠ .close) (hwakes : u.wakes e = false)
      (hv : v.recvQueue = u.recvQueue) : Serves u call rest e ([], v) :=
    .stay e v [] hne hwakes (by rw [hv, hq, append_nil])
  have hsend (e : Event P) (v : UdpHopPacketConn P) (p : UdpPacket P) (hwakes : u.wakes e = true)
      (hv : v.recvQueue = u.recvQueue) : Serves u call rest e (v.send p) := by
    rw [send, hv, hq]
    exact .wake _ _ _ hwakes rfl
  cases e with
  | hop =>
    refine hstay nofun rfl ?_
    unfold hop
    split_ifs <;> rfl
  | packet conn p =>
    rw [step]
    split_ifs with hr
    · exact hsend (.packet conn p) u _ (decide_eq_true hr) rfl
    · exact hstay nofun (decide_eq_false hr) rfl
  | fail conn timeout =>
    refine hstay nofun rfl ?_
    split_ifs <;> rfl
  | handle conn drop =>
    rw [step]
    cases hr : u.recvLoop conn with
    | failed timeout =>
      dsimp only
      split_ifs with hlive
      · exact hstay nofun (by simp [wakes, hlive]) rfl
      · cases timeout with
        | true =>
          have hopen : (u.setLoop conn .exited).closed = false := by simp [closed, setLoop, hq]
          rw [handleRecvError, hopen]
          exact hsend (.handle conn drop) _ _ (by simp [wakes, hr, hlive]) rfl
        | false => exact hstay nofun (by simp [wakes, hr]) rfl
    | _ => exact hstay nofun (by simp [wakes, hr]) rfl
  | resume conn =>
    refine hstay nofun rfl ?_
    split
    · split_ifs <;> rfl
    · rfl
  | read more preferClose =>
    rw [step, read, hq]
    exact .stay _ _ [u.calls] nofun rfl rfl
  | close =>
    rw [step, close, hq]
    exact .close _
  | _ => exact hstay nofun rfl rfl

theorem returns_iff {calls : List ℕ} (hq : u.recvQueue = .awaited calls) (hcall : call ∈ calls)
    (es : List (Event P)) : (∃ r, (call, r) ∈ (Run.answers step u es).flatten) ↔
      .close ∈ es ∨ calls.idxOf call < wakeUps u es := by
  induction es generalizing u calls with
  | nil => simp [Run.answers, wakeUps]
  | cons e es ih =>
    obtain ⟨first, rest, rfl⟩ := exists_cons_of_ne_nil (ne_nil_of_mem hcall)
    have hserves := step_serves hq e
    rw [Run.answers, wakeUps, flatten_cons]
    generalize u.step e = out at hserves ⊢
    cases hserves with
    | close v =>
      refine iff_of_true ⟨⟨[], some .closed⟩, mem_append_left _ ?_⟩ (.inl mem_cons_self)
      exact mem_map.mpr ⟨call, hcall, rfl⟩
    | wake _ r v hwakes hv =>
      have hne : Event.close ≠ e := by
        rintro rfl
        simp [wakes] at hwakes
      rw [hwakes, mem_cons, or_iff_right hne, Bool.toNat_true, Nat.add_comm 1]
      by_cases hfirst : first = call
      · subst hfirst
        refine iff_of_true ⟨r, by simp⟩ (.inr ?_)
        rw [idxOf_cons_self]
        omega
      · have hiff := ih hv ((mem_cons.mp hcall).resolve_left (Ne.symm hfirst))
        rw [idxOf_cons_ne _ hfirst, Nat.succ_lt_succ_iff]
        simpa [Ne.symm hfirst] using hiff
    | stay _ v more hne hwakes hv =>
      have hiff := ih hv (mem_append_left _ hcall)
      rw [idxOf_append_of_mem hcall] at hiff
      simpa [hwakes, or_iff_right (Ne.symm hne)] using hiff

variable (u)

/-- Time passes only while no read of a socket is past its deadline, no failed read awaits its
handling and no pause is over. -/
def Timely : Event P → Prop
  | .tick d => ∀ conn ≤ u.currentConn, match u.recvLoop conn with
    | .reading => ∀ t, u.deadline conn = some t → u.now + d ≤ max u.now t
    | .failed _ => d = 0
    | .pausing till => u.now + d ≤ max u.now till
    | .exited => True
  | _ => True

end UdpHopPacketConn

end Outbound.Hysteria2.Udphop
