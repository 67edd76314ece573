import Outbound.Lib.Bytes
import Outbound.Lib.Run
import Outbound.Lib.Sink

/-! The connection that gathers the records of a TLS layer and writes them to the socket at once. -/
namespace Outbound.Coalesce

open Lib List

abbrev UnixNano := ℤ

inductive Err where
  | deadlineExceeded
  | socket (text : String)
deriving DecidableEq

def bufHardLimit : ℕ := 131072

/-- A connection. What the socket took and what was passed to `Write` are kept for the statements. -/
structure Conn where
  buf : Bytes
  wdNano : UnixNano
  sent : Bytes
  written : Bytes
deriving DecidableEq

def new : Conn := ⟨[], 0, [], []⟩

namespace Conn

def expired (c : Conn) (now : UnixNano) : Bool := c.wdNano != 0 && !decide (now < c.wdNano)

def append (c : Conn) (p : Bytes) : Conn := { c with buf := c.buf ++ p, written := c.written ++ p }

def drop (c : Conn) : Conn := { c with buf := [] }

def send (c : Conn) (p : Bytes) : Conn := { c with sent := c.sent ++ p }

/-- A flush at the time `now`, with the end of the socket write that it may make. Whatever happens,
nothing stays in the buffer. -/
def flush (c : Conn) (now : UnixNano) (w : WriteEnd Err) : Option Err × Conn :=
  if c.buf = [] then (none, c)
  else if c.expired now then (some .deadlineExceeded, c.drop)
  else (w.err, (c.send (w.taken c.buf)).drop)

/-- `Write` reports full success; a flush that it makes because the buffer is too long is not
reported. -/
def write (c : Conn) (p : Bytes) (now : UnixNano) (w : WriteEnd Err) : ℕ × Conn :=
  let c := c.append p
  (p.length, if bufHardLimit < c.buf.length then (c.flush now w).2 else c)

def setWriteDeadline (c : Conn) (t : Option UnixNano) : Conn := { c with wdNano := t.getD 0 }

def read (c : Conn) (now : UnixNano) (w : WriteEnd Err) : Option Err × Conn :=
  if c.buf.length ≠ 0 then c.flush now w else (none, c)

def closeWrite (c : Conn) (now : UnixNano) (w : WriteEnd Err) : Option Err × Conn := c.flush now w

inductive Call where
  | write (p : Bytes) (now : UnixNano) (w : WriteEnd Err)
  | flush (now : UnixNano) (w : WriteEnd Err)
  | read (now : UnixNano) (w : WriteEnd Err)
  | setWriteDeadline (t : Option UnixNano)
  | closeWrite (now : UnixNano) (w : WriteEnd Err)

def step (c : Conn) : Call → Option Err × Conn
  | .write p now w => (none, (c.write p now w).2)
  | .flush now w => c.flush now w
  | .read now w => c.read now w
  | .setWriteDeadline t => (none, c.setWriteDeadline t)
  | .closeWrite now w => c.closeWrite now w

/-- Everything that was passed to `Write` was taken by the socket or is still in the buffer. -/
def Intact (c : Conn) : Prop := c.sent ++ c.buf = c.written

instance (c : Conn) : Decidable c.Intact := inferInstanceAs (Decidable (_ = _))

def Call.payload : Call → Bytes
  | .write p _ _ => p
  | .flush _ _ | .read _ _ | .setWriteDeadline _ | .closeWrite _ _ => []

/-- The time of the flush that a call makes, and the end of the socket write there. -/
def flushOf (c : Conn) : Call → Option (UnixNano × WriteEnd Err)
  | .write p now w => if bufHardLimit < (c.append p).buf.length then some (now, w) else none
  | .setWriteDeadline _ => none
  | .flush now w | .read now w | .closeWrite now w => some (now, w)

/-- A flush that drops its records or gets only a part of them to the socket. -/
def Short (c : Conn) (now : UnixNano) (w : WriteEnd Err) : Prop :=
  c.buf ≠ [] ∧ (c.expired now = true ∨ w.taken c.buf ≠ c.buf)

instance (c : Conn) (now : UnixNano) (w : WriteEnd Err) : Decidable (c.Short now w) :=
  inferInstanceAs (Decidable (_ ∧ _))

def Fails (c : Conn) (call : Call) : Prop :=
  ∃ f ∈ c.flushOf call, (c.append call.payload).Short f.1 f.2

instance (c : Conn) (call : Call) : Decidable (c.Fails call) :=
  inferInstanceAs (Decidable (∃ f ∈ c.flushOf call, (c.append call.payload).Short f.1 f.2))

/-- The deadline is over when the call flushes, or the socket takes no byte of whatever it is
given. -/
def Shut (c : Conn) (call : Call) : Prop :=
  ∀ f ∈ c.flushOf call, c.expired f.1 = true ∨ ∃ e, f.2 = .fail 0 e

/-- From the next record on every flush meets a deadline that is over or a socket that refuses. -/
def Stops (c : Conn) : List Call → Prop
  | [] => True
  | call :: later =>
    if call.payload = [] then Stops (step c call).2 later
    else Run.Along step Shut c (call :: later)

/-- No later flush goes better than the first that fails: the deadline stays in the past, or the
socket refuses what comes after. -/
def Heeds (c : Conn) : List Call → Prop
  | [] => True
  | call :: later =>
    if c.Fails call then Stops (step c call).2 later else Heeds (step c call).2 later

variable {c : Conn} {call : Call} {now : UnixNano} {w : WriteEnd Err}

theorem append_nil (c : Conn) : c.append [] = c := by
  simp [append]

theorem read_eq_flush (c : Conn) (now : UnixNano) (w : WriteEnd Err) :
    c.read now w = c.flush now w := by
  unfold read
  split_ifs with hbuf
  · rfl
  · have hnil : c.buf = [] := eq_nil_of_length_eq_zero (not_not.mp hbuf)
    rw [flush, if_pos hnil]

/-- A call adds its bytes to the buffer. Then it flushes, or it leaves all but the deadline. -/
theorem step_cases (c : Conn) (call : Call) :
    (∃ f, c.flushOf call = some f ∧
        (step c call).2 = ((c.append call.payload).flush f.1 f.2).2) ∨
      (c.flushOf call = none ∧ ∃ d, (step c call).2 = { c.append call.payload with wdNano := d }) := by
  cases call with
  | write p now w =>
    by_cases hlimit : bufHardLimit < (c.append p).buf.length
    · exact .inl ⟨(now, w), if_pos hlimit, if_pos hlimit⟩
    · exact .inr ⟨if_neg hlimit, c.wdNano, if_neg hlimit⟩
  | setWriteDeadline t => exact .inr ⟨rfl, t.getD 0, by rw [Call.payload, append_nil]; rfl⟩
  | read now w =>
    exact .inl ⟨(now, w), rfl, by rw [step, read_eq_flush, Call.payload, append_nil]⟩
  | flush now w | closeWrite now w =>
    exact .inl ⟨(now, w), rfl, by rw [Call.payload, append_nil]; rfl⟩

theorem flush_written (c : Conn) (now : UnixNano) (w : WriteEnd Err) :
    (c.flush now w).2.written = c.written := by
  unfold flush
  split_ifs <;> rfl

theorem flush_buf (c : Conn) (now : UnixNano) (w : WriteEnd Err) : (c.flush now w).2.buf = [] := by
  unfold flush
  split_ifs with hbuf
  · exact hbuf
  · rfl
  · rfl

theorem flush_of_not_short (h : ¬ c.Short now w) : (c.flush now w).2.sent = c.sent ++ c.buf := by
  unfold flush
  split_ifs with hbuf hexpired
  · simp [hbuf]
  · exact absurd ⟨hbuf, .inl hexpired⟩ h
  · have htaken : w.taken c.buf = c.buf := by
      by_contra htaken
      exact h ⟨hbuf, .inr htaken⟩
    change c.sent ++ w.taken c.buf = _
    rw [htaken]

theorem Intact.append (h : c.Intact) (p : Bytes) : (c.append p).Intact := by
  change c.sent ++ (c.buf ++ p) = c.written ++ p
  rw [← append_assoc, h]

theorem Intact.sent_prefix (h : c.Intact) : c.sent <+: c.written := by
  rw [← h]
  exact prefix_append _ _

theorem flush_sent_of_intact (h : c.Intact) (now : UnixNano) (w : WriteEnd Err) :
    (c.flush now w).2.sent <+: c.written := by
  unfold flush
  split_ifs
  · exact h.sent_prefix
  · exact h.sent_prefix
  · rw [← h]
    exact (prefix_append_right_inj _).mpr (w.taken_prefix c.buf)

theorem step_written (c : Conn) (call : Call) :
    (step c call).2.written = c.written ++ call.payload := by
  rcases step_cases c call with ⟨f, -, hstep⟩ | ⟨-, d, hstep⟩
  · rw [hstep, flush_written]
    rfl
  · rw [hstep]
    rfl

theorem step_intact (h : c.Intact) (hwhole : ¬ c.Fails call) : (step c call).2.Intact := by
  have happend := h.append call.payload
  rcases step_cases c call with ⟨f, hf, hstep⟩ | ⟨-, d, hstep⟩
  · have hsent := flush_of_not_short fun hshort => hwhole ⟨f, hf, hshort⟩
    rw [hstep, Intact, hsent, flush_buf, flush_written, List.append_nil]
    exact happend
  · rw [hstep]
    exact happend

theorem step_sent_of_intact (h : c.Intact) (call : Call) :
    (step c call).2.sent <+: (step c call).2.written := by
  have happend := h.append call.payload
  rcases step_cases c call with ⟨f, -, hstep⟩ | ⟨-, d, hstep⟩
  · rw [hstep, flush_written]
    exact flush_sent_of_intact happend f.1 f.2
  · rw [hstep]
    exact happend.sent_prefix

theorem buf_of_fails (h : c.Fails call) : (step c call).2.buf = [] := by
  obtain ⟨f, hf, -⟩ := h
  rcases step_cases c call with ⟨g, -, hstep⟩ | ⟨hnone, -⟩
  · rw [hstep]
    exact flush_buf _ _ _
  · rw [hnone] at hf
    cases hf

theorem step_of_nothing (hbuf : c.buf = []) (hpayload : call.payload = []) :
    (step c call).2.sent = c.sent ∧ (step c call).2.buf = [] := by
  rcases step_cases c call with ⟨f, -, hstep⟩ | ⟨-, d, hstep⟩
  · rw [hstep, hpayload, append_nil, flush, if_pos hbuf]
    exact ⟨rfl, hbuf⟩
  · rw [hstep, hpayload, append_nil]
    exact ⟨rfl, hbuf⟩

theorem step_sent_of_shut (h : c.Shut call) : (step c call).2.sent = c.sent := by
  rcases step_cases c call with ⟨f, hf, hstep⟩ | ⟨-, d, hstep⟩
  · rw [hstep]
    unfold flush
    split_ifs with hbuf hexpired
    · rfl
    · rfl
    · rcases h f hf with hpast | ⟨e, hrefused⟩
      · exact absurd hpast hexpired
      · change c.sent ++ f.2.taken _ = c.sent
        simp [hrefused]
  · rw [hstep]
    rfl

variable {calls later : List Call}

theorem written_grows (c : Conn) (calls : List Call) :
    c.written <+: (Run.exec step c calls).written :=
  Run.exec_invariant step (fun d => c.written <+: d.written)
    (fun d call h => h.trans ⟨call.payload, (step_written d call).symm⟩) c (prefix_refl _) calls

theorem sent_of_shut (h : Run.Along step Shut c calls) : (Run.exec step c calls).sent = c.sent :=
  Run.exec_invariant_along (fun d => d.sent = c.sent)
    (fun _ _ hsent hshut => (step_sent_of_shut hshut).trans hsent) rfl h

theorem sent_of_stops (hbuf : c.buf = []) (h : Stops c calls) :
    (Run.exec step c calls).sent = c.sent := by
  induction calls generalizing c with
  | nil => rfl
  | cons call calls ih =>
    unfold Stops at h
    split_ifs at h with hpayload
    · obtain ⟨hsent, hbuf'⟩ := step_of_nothing hbuf hpayload
      exact (ih hbuf' h).trans hsent
    · exact sent_of_shut h

theorem Stops.left (h : Stops c (calls ++ later)) : Stops c calls := by
  induction calls generalizing c with
  | nil => trivial
  | cons call calls ih =>
    rw [cons_append] at h
    unfold Stops at h ⊢
    split_ifs at h ⊢ with hpayload
    · exact ih h
    · exact (Run.along_append.mp h).1

theorem sent_prefix_written (hintact : c.Intact) (h : Heeds c calls) :
    (Run.exec step c calls).sent <+: (Run.exec step c calls).written := by
  induction calls generalizing c with
  | nil => exact hintact.sent_prefix
  | cons call calls ih =>
    unfold Heeds at h
    split_ifs at h with hfails
    · rw [Run.exec_cons, sent_of_stops (buf_of_fails hfails) h]
      exact (step_sent_of_intact hintact call).trans (written_grows _ calls)
    · exact ih (step_intact hintact hfails) h

theorem sent_of_not_intact (hintact : c.Intact) (h : Heeds c (calls ++ later))
    (hlost : ¬ (Run.exec step c calls).Intact) :
    (Run.exec step c (calls ++ later)).sent = (Run.exec step c calls).sent := by
  induction calls generalizing c with
  | nil => exact absurd hintact hlost
  | cons call calls ih =>
    rw [cons_append] at h
    unfold Heeds at h
    split_ifs at h with hfails
    · have hbuf := buf_of_fails hfails
      exact (sent_of_stops hbuf h).trans (sent_of_stops hbuf h.left).symm
    · exact ih (step_intact hintact hfails) h hlost

end Conn

def after (calls : List Conn.Call) : Conn := Run.exec Conn.step new calls

/-- The record stream has no gap as long as the deadline and the socket keep to the first failure.
The connection does not: a flush that loses bytes leaves nothing behind that later ones could
see. -/
theorem records_gap_free {calls : List Conn.Call} (hheeds : Conn.Heeds new calls) :
    (after calls).sent <+: (after calls).written ∧
      ∀ before later, calls = before ++ later → ¬ (after before).Intact →
        (after calls).sent = (after before).sent := by
  constructor
  · exact Conn.sent_prefix_written rfl hheeds
  · rintro before later rfl hlost
    exact Conn.sent_of_not_intact rfl hheeds hlost

theorem records_gap_free_expired :
    let calls := [Conn.Call.write [1] 0 .ok, .setWriteDeadline (some 5), .flush 9 .ok,
      .write [2] 9 .ok, .read 9 .ok]
    Conn.Heeds new calls ∧ (after calls).sent <+: (after calls).written := by
  intro calls
  have hheeds : Conn.Heeds new calls := by
    refine ⟨?_, ?_, trivial⟩
    · intro f hf
      exact absurd hf (Option.not_mem_none f)
    · rintro f ⟨⟩
      exact .inl (by decide)
  exact ⟨hheeds, (records_gap_free hheeds).1⟩

/-- The first record is dropped by a flush after the deadline. The deadline is cleared, and the
second record goes out alone. -/
theorem record_sent_after_loss :
    let calls := [Conn.Call.write [1] 0 .ok, .setWriteDeadline (some 5), .flush 9 .ok,
      .setWriteDeadline none, .write [2] 9 .ok, .flush 9 .ok]
    (after calls).sent = [2] ∧ (after calls).written = [1, 2] ∧
      ¬ (after calls).sent <+: (after calls).written := by
  decide

end Outbound.Coalesce
