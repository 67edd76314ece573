import Outbound.Lib.Pooled
import Outbound.Transport.Httpheader

/-! Connections that read through a pooled buffer: the buffered connection itself, and the one behind
an HTTP header, which has the same life cycle around its reads. -/
namespace Outbound.Netproxy

open Lib Zeroalloc.Bufio Option Transport.Httpheader
open Transport.Httpheader (newConn)
open Pooled (run sound_run)

def defaultReadBufferSize : ℕ := 32768

def bufferedReader : Pooled.Reader Reader ℕ UInt8 ReadErr where
  read r l :=
    let out := r.read l
    some (out.1, out.1.err.filter isTerminalReadErr, out.2)
  window := Reader.window
  closed := .closed

variable (feed : Feed UInt8 ReadErr)

/-- `ForceBufferedReaderConn` over the results of the underlying reads. -/
def newBufferedReaderConn (size : ℕ) : Reader :=
  newReaderSize feed (if size = 0 then defaultReadBufferSize else size)

def total (r : Reader) : Bytes := r.window ++ r.feed.rest

theorem total_read (r : Reader) (l : ℕ) : total r = (r.read l).1.data ++ total (r.read l).2 := by
  have hcopy : ∀ r : Reader, total r = (r.copyOut l).1.data ++ total (r.copyOut l).2 := by
    intro r
    change r.window ++ r.feed.rest = r.window.take l ++ (r.window.drop l ++ r.feed.rest)
    rw [← List.append_assoc, List.take_append_drop]
  unfold Reader.read
  by_cases hl : l = 0
  · split_ifs
    · rfl
    · rfl
  rw [if_neg hl]
  by_cases hwindow : r.window = []
  · rw [if_pos hwindow]
    cases r.err with
    | some e => rfl
    | none =>
      dsimp only
      by_cases hlarge : r.size ≤ l
      · rw [if_pos hlarge]
        change r.window ++ r.feed.rest = _ ++ (r.window ++ (r.feed.read .eof l).2.rest)
        rw [hwindow]
        exact Feed.rest_read .eof r.feed l
      · have hread := Feed.rest_read .eof r.feed r.size
        split_ifs with hnone
        · change r.window ++ r.feed.rest = [] ++ (r.window ++ (r.feed.read .eof r.size).2.rest)
          rw [hnone] at hread
          simp [hread]
        · rw [← hcopy]
          change r.window ++ r.feed.rest = (r.feed.read .eof r.size).1.data ++ _
          rwa [hwindow]
  · rw [if_neg hwindow]
    exact hcopy r

/-- The read of the connection behind an HTTP header, between its start and its exit. The error that
it records is handed to the life cycle. -/
def headerReader : Pooled.Reader Transport.Httpheader.Conn ℕ UInt8 Transport.Httpheader.ConnErr where
  read c l := (if c.headerRead then some (c.readBody l) else c.readHeader l).map fun out =>
    (out.1, out.2.termErr, { out.2 with termErr := none })
  window c := c.reader.window
  closed := .plain .closed

/-- After the release every read reports the error that was recorded then. -/
def ReportsAfterRelease {σ ε : Type} (m : Pooled.Reader σ ℕ UInt8 ε) (s : σ)
    (events : List (Pooled.Event ℕ)) : Prop :=
  ∀ before later, events = before ++ later → (run m s before).released = true →
    ∃ outs, (run m s events).returned = (run m s before).returned ++ outs ∧
      ∀ out ∈ outs, out = ⟨[], (run m s before).termErr⟩

theorem reportsAfterRelease {σ ε : Type} (m : Pooled.Reader σ ℕ UInt8 ε) (s : σ)
    (events : List (Pooled.Event ℕ)) : ReportsAfterRelease m s events := by
  rintro before later rfl hreleased
  exact Pooled.run_of_released s before later hreleased

/-- The bytes of the underlying connection are, in order, those that were returned, those that a read
has got, those in the window and those that were not obtained yet. -/
def KeepsBytes (c : Pooled.Conn Reader ℕ UInt8 ReadErr) : Prop :=
  feed.rest = received c.returned ++ (c.phase.held ++ (c.reader.window ++ c.reader.feed.rest))

/-- A read that returned an error that ends the read side. -/
def EndsReadSide (out : Read) : Prop := ∃ e, out.err = some e ∧ isTerminalReadErr e = true

/-- The errors that end the read side behind an HTTP header: those of the header that cannot be
retried, and those of the body that are terminal. -/
def isTerminalConnErr : ConnErr → Bool
  | .plain cause => isTerminalReadErr cause
  | e => !isRetryableHeaderErr e

def EndsBody (out : ConnRead) : Prop := ∃ e, out.err = some e ∧ isTerminalConnErr e = true

theorem tells_bufferedReader : bufferedReader.Tells EndsReadSide fun _ => False := by
  rintro r l out terminal r' hout (⟨e, he, hterminal⟩ | hnot)
  · obtain ⟨rfl, hrest⟩ := Prod.mk.inj (some.inj hout)
    cases hrest
    simp [he, hterminal]
  · exact hnot.elim

variable (c : Transport.Httpheader.Conn)

theorem recordTerminalErr_spec (e : ConnErr) :
    (c.recordTerminalErr e).readErr = c.readErr ∧ (c.recordTerminalErr e).termErr ≠ none := by
  unfold Conn.recordTerminalErr
  split_ifs with hnone
  · exact ⟨rfl, some_ne_none e⟩
  · exact ⟨rfl, hnone⟩

theorem recordIfTerminal_spec (err : Option ReadErr) :
    (c.recordIfTerminal err).readErr = c.readErr ∧
      (∀ e, err = some e → isTerminalReadErr e = true → (c.recordIfTerminal err).termErr ≠ none) := by
  cases err with
  | none => exact ⟨rfl, fun e he => absurd he.symm (some_ne_none e)⟩
  | some e =>
    unfold Conn.recordIfTerminal
    dsimp only
    split_ifs with hterminal
    · obtain ⟨hkeeps, hset⟩ := recordTerminalErr_spec c (.plain e)
      exact ⟨hkeeps, fun _ _ _ => hset⟩
    · refine ⟨rfl, fun e' he' hyes => ?_⟩
      cases he'
      exact absurd hyes hterminal

theorem readBody_spec (l : ℕ) :
    (c.readBody l).2.readErr = c.readErr ∧
      (EndsBody (c.readBody l).1 → (c.readBody l).2.termErr ≠ none ∨ c.readErr ≠ none) := by
  unfold Conn.readBody
  cases hsticky : c.readErr with
  | some e => exact ⟨hsticky, fun _ => .inr (some_ne_none e)⟩
  | none =>
    obtain ⟨hkeeps, hset⟩ :=
      recordIfTerminal_spec (c.setReader (c.reader.read l).2) (c.reader.read l).1.err
    refine ⟨hkeeps.trans hsticky, ?_⟩
    rintro ⟨e, he, hterminal⟩
    obtain ⟨cause, hcause, rfl⟩ := map_eq_some_iff.mp he
    exact .inl (hset cause hcause hterminal)

/-- An error of the header is kept for the later reads when it is recorded. -/
theorem tells_headerReader : headerReader.Tells EndsBody fun c => c.readErr ≠ none := by
  intro c l out terminal c' hout hends
  obtain ⟨⟨out', c''⟩, hread, heq⟩ := map_eq_some_iff.mp hout
  cases heq
  have hbody : ∀ b : Transport.Httpheader.Conn, b.readErr = c.readErr → (out', c'') = b.readBody l →
      c''.termErr ≠ none ∨ c.readErr ≠ none := by
    intro b hb hout'
    obtain ⟨hkeeps, htells⟩ := readBody_spec b l
    rw [← hout', hb] at hkeeps htells
    exact hends.elim htells fun hover => .inr (hkeeps ▸ hover)
  split at hread
  · exact hbody c rfl (some.inj hread).symm
  · obtain ⟨⟨err, r⟩, -, hread⟩ := bind_eq_some_iff.mp hread
    cases err with
    | none => exact hbody (c.setReader r).endHeader rfl (some.inj hread).symm
    | some e =>
      obtain ⟨rfl, rfl⟩ := Prod.mk.inj (some.inj hread)
      split_ifs at hends ⊢ with hretry
      · refine hends.elim ?_ .inr
        rintro ⟨e', he', hterminal⟩
        cases he'
        cases e <;> simp_all [isTerminalConnErr, isRetryableHeaderErr, isTerminalReadErr]
      · exact .inl (recordTerminalErr_spec _ e).2

/-- The pooled buffer loses no byte and goes to the pool once, drained and with no read under way,
whatever the underlying connection returns and wherever a close comes in between. -/
theorem pooled_buffer_life_cycle (size : ℕ) (events : List (Pooled.Event ℕ)) :
    KeepsBytes feed (run bufferedReader (newBufferedReaderConn feed size) events) ∧
      (run bufferedReader (newBufferedReaderConn feed size) events).Sound bufferedReader ∧
      (.close ∈ events ∨ (∃ out ∈ (run bufferedReader (newBufferedReaderConn feed size)
          events).returned, EndsReadSide out) →
        (run bufferedReader (newBufferedReaderConn feed size) events).termErr ≠ none) ∧
      ReportsAfterRelease bufferedReader (newBufferedReaderConn feed size) events ∧
      (run headerReader (newConn feed) events).Sound headerReader ∧
      (.close ∈ events ∨ (∃ out ∈ (run headerReader (newConn feed)
          events).returned, EndsBody out) →
        (run headerReader (newConn feed) events).termErr ≠ none) ∧
      ReportsAfterRelease headerReader (newConn feed) events := by
  have hread : ∀ r l out terminal r', bufferedReader.read r l = some (out, terminal, r') →
      total r = out.data ++ total r' := by
    intro r l out terminal r' hout
    obtain ⟨rfl, hrest⟩ := Prod.mk.inj (some.inj hout)
    cases hrest
    exact total_read r l
  have hcontents := Pooled.contents_run hread (newBufferedReaderConn feed size) events
  exact ⟨hcontents.symm, sound_run _ events,
    Pooled.termErr_of_ends tells_bufferedReader id, reportsAfterRelease _ _ events,
    sound_run _ events,
    Pooled.termErr_of_ends tells_headerReader fun hover => hover rfl, reportsAfterRelease _ _ events⟩

end Outbound.Netproxy
