import Outbound.Lib.Run
import Outbound.Transport.Grpc.WriteSide

/-! Any number of gRPC tunnels over one pool of requests. -/
namespace Outbound.Transport.Grpc

open Lib Function Deadline.Superseded

inductive Direction where
  | read
  | write
deriving DecidableEq

structure Conn where
  read : ReadSide
  write : WriteSide
  readDeadline : Deadline
  writeDeadline : Deadline
  closed : Bool

namespace Conn

def new : Conn := ⟨.new, .new, .new, .new, false⟩

variable (conn : Conn)

def deadline : Direction → Deadline
  | .read => conn.readDeadline
  | .write => conn.writeDeadline

def withDeadline (d : Deadline) : Direction → Conn
  | .read => { conn with readDeadline := d }
  | .write => { conn with writeDeadline := d }

/-- The part of `Close` under the lock of the deadlines. -/
def stopTimers : Conn :=
  { conn with readDeadline := conn.readDeadline.stop, writeDeadline := conn.writeDeadline.stop }

def cancel : Conn := { conn with closed := true, write := conn.write.closer }

end Conn

structure System where
  conns : ℕ → Conn
  reqs : Requests

/-- What can happen: a step of a half, a deadline set in one direction, a timer's callback, and the
two parts of `Close`. `SetDeadline` sets both directions. -/
inductive Event where
  | read (c : ℕ) (e : ReadEvent)
  | write (c : ℕ) (e : WriteEvent)
  | set (c : ℕ) (dir : Direction) (w : When)
  | fire (c : ℕ) (dir : Direction) (timer : ℕ)
  | stopTimers (c : ℕ)
  | cancel (c : ℕ)
deriving DecidableEq

namespace System

def new : System := ⟨fun _ => .new, .new⟩

variable (s : System)

def setConn (c : ℕ) (conn : Conn) : System :=
  { s with conns := update s.conns c conn }

@[simp] theorem setConn_self (c : ℕ) (conn : Conn) :
    (s.setConn c conn).conns c = conn := update_self ..

theorem setConn_of_ne {c c' : ℕ} (h : c' ≠ c) (conn : Conn) :
    (s.setConn c conn).conns c' = s.conns c' := update_of_ne h ..

def step : Event → System
  | .read c e =>
    let conn := s.conns c
    s.setConn c { conn with read := conn.read.step conn.readDeadline conn.closed e }
  | .write c e =>
    let conn := s.conns c
    let out := conn.write.step c conn.writeDeadline conn.closed s.reqs e
    { s.setConn c { conn with write := out.1 } with reqs := out.2 }
  | .set c dir w =>
    s.setConn c ((s.conns c).withDeadline (((s.conns c).deadline dir).setDeadlineLocked w) dir)
  | .fire c dir timer =>
    s.setConn c ((s.conns c).withDeadline (((s.conns c).deadline dir).fire timer) dir)
  | .stopTimers c => s.setConn c (s.conns c).stopTimers
  | .cancel c => s.setConn c (s.conns c).cancel

def run (events : List Event) : System := Run.exec (fun s e => ((), s.step e)) new events

end System

structure Conn.Sound (c : ℕ) (reqs : Requests) (conn : Conn) : Prop where
  read : conn.read.Sound conn.readDeadline conn.closed
  write : conn.write.Sound c reqs

namespace System

variable {s : System}

def Sound (s : System) : Prop := ∀ c, (s.conns c).Sound c s.reqs

theorem sound_new : new.Sound := fun _ => ⟨ReadSide.sound_new, WriteSide.sound_new⟩

variable {c : ℕ}

theorem Sound.setConn (h : s.Sound) {conn : Conn} (hconn : conn.Sound c s.reqs) :
    (s.setConn c conn).Sound := by
  intro c'
  by_cases heq : c' = c
  · subst heq
    rwa [setConn_self]
  · rw [setConn_of_ne s heq]
    exact h c'

theorem Sound.write (h : s.Sound) (c : ℕ) (e : WriteEvent) : (s.step (.write c e)).Sound := by
  have hown := h c
  intro c'
  by_cases heq : c' = c
  · subst heq
    simp only [System.step, System.setConn, update_self]
    exact ⟨hown.read, (WriteSide.step_moves e).sound hown.write⟩
  · simp only [System.step, System.setConn, update_of_ne heq]
    refine ⟨(h c').read, (h c').write.frame fun q hq => ?_⟩
    exact ((WriteSide.step_moves e).touches hown.write).keeps heq hq

theorem Sound.step (h : s.Sound) (e : Event) : (s.step e).Sound := by
  cases e with
  | read c e => exact h.setConn ⟨(h c).read.step e, (h c).write⟩
  | write c e => exact h.write c e
  | set c dir w =>
    cases dir with
    | read =>
      exact h.setConn ⟨(h c).read.mono (Deadline.cancelled_subset_set _ w) id, (h c).write⟩
    | write => exact h.setConn ⟨(h c).read, (h c).write⟩
  | fire c dir timer =>
    cases dir with
    | read =>
      exact h.setConn ⟨(h c).read.mono (Deadline.cancelled_subset_fire _ timer) id, (h c).write⟩
    | write => exact h.setConn ⟨(h c).read, (h c).write⟩
  | stopTimers c =>
    exact h.setConn ⟨(h c).read.mono (List.Subset.refl _) id, (h c).write⟩
  | cancel c =>
    exact h.setConn ⟨(h c).read.mono (List.Subset.refl _) fun _ => rfl, (h c).write.closer⟩

theorem sound_run (events : List Event) : (run events).Sound := by
  apply Run.exec_invariant (fun (s : System) (e : Event) => ((), s.step e)) Sound
  · exact fun s e h => h.step e
  · exact sound_new

theorem run_append (events later : List Event) :
    run (events ++ later) = Run.exec (fun (s : System) (e : Event) => ((), s.step e))
      (run events) later :=
  Run.exec_append _ _ _ _

/-- While a tunnel's receive pump runs every byte from the stream is returned or waiting; one read
holds its lock at most, one write the other, and no request of the pool is filled, queued or being
sent by two tunnels. -/
theorem tunnels_exclusive (events : List Event) (c : ℕ) :
    let conn := (run events).conns c
    (conn.read.pump ≠ .stopped → conn.read.delivered ++ conn.read.pending = conn.read.received) ∧
      (∀ i j ctx len ctx' len', conn.read.reads i = .holding ctx len →
        conn.read.reads j = .holding ctx' len' → i = j) ∧
      (∀ i j, (conn.write.writes i).inside = true → (conn.write.writes j).inside = true → i = j) ∧
      ∀ c' q, conn.write.Sends q → ((run events).conns c').write.Sends q → c = c' := by
  obtain ⟨hread, hwrite⟩ := sound_run events c
  refine ⟨hread.running, fun i j ctx len ctx' len' hi hj => ?_, fun i j hi hj => ?_,
    fun c' q hq hq' => ?_⟩
  · exact Option.some.inj ((hread.holder i ctx len hi).symm.trans (hread.holder j ctx' len' hj))
  · exact Option.some.inj ((hwrite.inside i hi).symm.trans (hwrite.inside j hj))
  · have hother := (sound_run events c').write.place_of_sends hq'
    exact Place.of_unique (hwrite.place_of_sends hq) hother

/-- The timers of a direction below `n` have been replaced. -/
def Superseded (c : ℕ) (dir : Direction) (n : ℕ) (s : System) : Prop :=
  ((s.conns c).deadline dir).Superseded n

variable {dir : Direction} {n : ℕ}

theorem superseded_setConn {c' : ℕ} {conn : Conn}
    (h : s.Superseded c dir n) (hconn : c' = c → (conn.deadline dir).Superseded n) :
    (s.setConn c' conn).Superseded c dir n := by
  unfold Superseded
  by_cases heq : c = c'
  · subst heq
    simpa using hconn rfl
  · rwa [setConn_of_ne s heq]

theorem deadline_withDeadline (conn : Conn) (d : Deadline) (dir dir' : Direction) :
    (conn.withDeadline d dir').deadline dir = if dir' = dir then d else conn.deadline dir := by
  cases dir <;> cases dir' <;> rfl

theorem Superseded.step (h : s.Superseded c dir n) (e : Event) : (s.step e).Superseded c dir n := by
  cases e with
  | read c' e =>
    apply superseded_setConn h
    rintro rfl
    cases dir <;> exact h
  | write c' e =>
    have hset : (s.setConn c' { s.conns c' with write := ((s.conns c').write.step c'
        (s.conns c').writeDeadline (s.conns c').closed s.reqs e).1 }).Superseded c dir n := by
      apply superseded_setConn h
      rintro rfl
      cases dir <;> exact h
    exact hset
  | set c' dir' w =>
    apply superseded_setConn h
    rintro rfl
    rw [deadline_withDeadline]
    split_ifs with heq
    · subst heq
      exact set h w
    · exact h
  | fire c' dir' timer =>
    apply superseded_setConn h
    rintro rfl
    rw [deadline_withDeadline]
    split_ifs with heq
    · subst heq
      exact fire h timer
    · exact h
  | stopTimers c' =>
    apply superseded_setConn h
    rintro rfl
    cases dir with
    | read => exact stop h
    | write => exact stop h
  | cancel c' =>
    apply superseded_setConn h
    rintro rfl
    cases dir <;> exact h

theorem Superseded.exec (h : s.Superseded c dir n) (later : List Event) :
    (Run.exec (fun (s : System) (e : Event) => ((), s.step e)) s later).Superseded c dir n :=
  Run.exec_invariant _ (Superseded c dir n) (fun _ e h => Superseded.step h e) s h later

theorem Superseded.fire_eq {timer : ℕ} (h : s.Superseded c dir n)
    (htimer : timer < n) : s.step (.fire c dir timer) = s := by
  have hfire : ((s.conns c).deadline dir).fire timer = (s.conns c).deadline dir :=
    Deadline.Superseded.fire_eq h htimer
  have hsame : (s.conns c).withDeadline ((s.conns c).deadline dir) dir = s.conns c := by
    cases dir <;> rfl
  simp [System.step, hfire, hsame, setConn]

def Replaces (c : ℕ) (dir : Direction) (e : Event) : Prop :=
  (∃ w, e = .set c dir w) ∨ e = .stopTimers c

theorem superseded_of_replaces {e : Event} (h : Replaces c dir e) :
    (s.step e).Superseded c dir ((s.conns c).deadline dir).timers.length := by
  rcases h with ⟨w, rfl⟩ | rfl
  · rw [Superseded, step, setConn_self, deadline_withDeadline, if_pos rfl]
    exact Deadline.set_superseded _ w
  · rw [Superseded, step, setConn_self]
    cases dir with
    | read => exact Deadline.stop_superseded _
    | write => exact Deadline.stop_superseded _

end System

end Outbound.Transport.Grpc
