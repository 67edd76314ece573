import Outbound.Lib.Bytes
import Outbound.Transport.Grpc.Deadline

/-! The receiving half of a gRPC tunnel: the receive pump and the reads. -/
namespace Outbound.Transport.Grpc

open Lib List Function Option

/-- The errors of a stream: a status with its code, or any other. -/
inductive Err where
  | eof
  | status (code : ℕ)
  | other (text : String)
deriving DecidableEq

def codesOutOfRange : ℕ := 11

def codesUnavailable : ℕ := 14

/-- A stream that ended or went away is the end of the connection. -/
def streamErr : Err → Err
  | .status code => if code = codesUnavailable ∨ code = codesOutOfRange then .eof else .status code
  | err => err

inductive RecvResp where
  | hunk (data : Bytes)
  | err (e : Err)
deriving DecidableEq

def RecvResp.data : RecvResp → Bytes
  | .hunk data => data
  | .err _ => []

inductive Pump where
  | off
  | receiving
  | offering (resp : RecvResp)
  | stopped
deriving DecidableEq

def Pump.data : Pump → Bytes
  | .offering resp => resp.data
  | _ => []

/-- The case of a `select` that is taken: the deadline's context, the connection's, or the way
on. -/
inductive Arm where
  | deadline
  | closed
  | go
deriving DecidableEq

/-- What a read returned; a deadline with the context that was found cancelled. -/
inductive ReadResult where
  | data (bytes : Bytes)
  | stream (e : Err)
  | deadline (ctx : ℕ)
  | closed
deriving DecidableEq

/-- Where a read is: it has the context, is past the first `select`, or holds the lock. -/
inductive ReadPhase where
  | fresh
  | snapped (ctx len : ℕ)
  | queued (len : ℕ)
  | holding (ctx len : ℕ)
  | returned
deriving DecidableEq

def ReadResult.bytes : ReadResult → Bytes
  | .data bytes => bytes
  | _ => []

/-- The receiving half. `received` are the bytes the stream gave, `log` what the reads returned in
the order they did. -/
structure ReadSide where
  pump : Pump
  recvCh : Option RecvResp
  buf : Option Bytes
  offset : ℕ
  recvErr : Option Err
  muReading : Option ℕ
  reads : ℕ → ReadPhase
  received : Bytes
  log : List ReadResult

inductive ReadEvent where
  | snapshot (i len : ℕ)
  | check (i : ℕ) (arm : Arm)
  | lock (i : ℕ)
  | select (i : ℕ) (arm : Arm)
  | recv (resp : RecvResp)
  | offer
  | stop
deriving DecidableEq

namespace ReadSide

def new : ReadSide := ⟨.off, none, none, 0, none, none, fun _ => .fresh, [], []⟩

variable (d : Deadline) (closed : Bool) (s : ReadSide) (i len : ℕ)

def delivered : Bytes := s.log.flatMap ReadResult.bytes

def setPhase (phase : ReadPhase) : ReadSide :=
  { s with reads := update s.reads i phase }

/-- The read `i` returns, and leaves the lock if it has it. -/
def finish (res : ReadResult) : ReadSide :=
  { s.setPhase i .returned with log := s.log ++ [res] }

def ensureRecvPump : ReadSide :=
  match s.pump with
  | .off => { s with pump := .receiving }
  | _ => s

def snapshot : ReadSide :=
  match s.reads i with
  | .fresh => s.ensureRecvPump.setPhase i (.snapped d.ctx len)
  | _ => s

def check (arm : Arm) : ReadSide :=
  match s.reads i with
  | .snapped ctx len =>
    match arm with
    | .deadline => if ctx ∈ d.cancelled then s.finish i (.deadline ctx) else s
    | .closed => if closed then s.finish i .closed else s
    | .go => if ctx ∈ d.cancelled ∨ closed = true then s else s.setPhase i (.queued len)
  | _ => s

/-- What is left of the hunk before goes first. -/
def readBuf (b : Bytes) : ReadSide :=
  let out := (b.drop s.offset).take len
  { s with
    offset := s.offset + out.length
    buf := if s.offset + out.length = b.length then none else some b }.finish i (.data out)

/-- The read has the lock: the error of the stream is sticky, and the deadline is looked at
again. -/
def lock : ReadSide :=
  match s.reads i with
  | .queued len =>
    match s.muReading with
    | some _ => s
    | none =>
      match s.recvErr with
      | some e => s.finish i (.stream e)
      | none =>
        match s.buf with
        | some b => s.readBuf i len b
        | none => { s.setPhase i (.holding d.ctx len) with muReading := some i }
  | _ => s

def receive : RecvResp → ReadSide
  | .err e =>
    { s with recvCh := none, muReading := none, recvErr := some (streamErr e) }.finish i
      (.stream (streamErr e))
  | .hunk data =>
    let rest := data.drop len
    { s with
      recvCh := none
      muReading := none
      buf := if rest = [] then s.buf else some rest
      offset := if rest = [] then s.offset else 0 }.finish i (.data (data.take len))

def select (arm : Arm) : ReadSide :=
  match s.reads i with
  | .holding ctx len =>
    match arm with
    | .deadline =>
      if ctx ∈ d.cancelled then { s with muReading := none }.finish i (.deadline ctx) else s
    | .closed => if closed then { s with muReading := none }.finish i .closed else s
    | .go =>
      match s.recvCh with
      | none => s
      | some resp => s.receive i len resp
  | _ => s

def offer : ReadSide :=
  match s.pump, s.recvCh with
  | .offering (.hunk data), none => { s with pump := .receiving, recvCh := some (.hunk data) }
  | .offering (.err e), none => { s with pump := .stopped, recvCh := some (.err e) }
  | _, _ => s

def recv (resp : RecvResp) : ReadSide :=
  match s.pump with
  | .receiving => { s with pump := .offering resp, received := s.received ++ resp.data }
  | _ => s

def stop : ReadSide :=
  match s.pump with
  | .offering _ => if closed then { s with pump := .stopped } else s
  | _ => s

/-- The receiving half takes a step, under the deadline and the context of the connection. A step
that is not possible changes nothing. -/
def step : ReadEvent → ReadSide
  | .snapshot i len => s.snapshot d i len
  | .check i arm => s.check d closed i arm
  | .lock i => s.lock d i
  | .select i arm => s.select d closed i arm
  | .recv resp => s.recv resp
  | .offer => s.offer
  | .stop => s.stop closed

def pending : Bytes :=
  (s.buf.map (drop s.offset)).getD [] ++
    ((s.recvCh.map RecvResp.data).getD [] ++ s.pump.data)

end ReadSide

/-- After an error of the stream a read returns that error, unless it finds its deadline expired or
the connection closed. -/
def ReadResult.Follows (a b : ReadResult) : Prop :=
  ∀ e, a = .stream e → b = .stream e ∨ (∃ ctx, b = .deadline ctx) ∨ b = .closed

structure LogSound (d : Deadline) (closed : Bool) (recvErr : Option Err) (log : List ReadResult) :
    Prop where
  sticky : log.Pairwise ReadResult.Follows
  stream : ∀ e, .stream e ∈ log → recvErr = some e
  deadline : ∀ ctx, .deadline ctx ∈ log → ctx ∈ d.cancelled
  closed : .closed ∈ log → closed = true

namespace LogSound

variable {d : Deadline} {closed : Bool} {recvErr : Option Err} {log : List ReadResult}

theorem append {res : ReadResult} (h : LogSound d closed recvErr log) {recvErr' : Option Err}
    (hkeeps : ∀ e, recvErr = some e → recvErr' = some e)
    (hfollows : ∀ e, recvErr = some e → res = .stream e ∨ (∃ ctx, res = .deadline ctx) ∨ res = .closed)
    (hstream : ∀ e, res = .stream e → recvErr' = some e)
    (hdeadline : ∀ ctx, res = .deadline ctx → ctx ∈ d.cancelled)
    (hclosed : res = .closed → closed = true) : LogSound d closed recvErr' (log ++ [res]) where
  sticky := by
    rw [pairwise_append]
    refine ⟨h.sticky, pairwise_singleton _ _, fun a ha b hb e he => ?_⟩
    rw [mem_singleton.mp hb]
    exact hfollows e (h.stream e (he ▸ ha))
  stream e he := by
    rcases mem_append.mp he with he | he
    · exact hkeeps e (h.stream e he)
    · exact hstream e (mem_singleton.mp he).symm
  deadline ctx hctx := by
    rcases mem_append.mp hctx with hctx | hctx
    · exact h.deadline ctx hctx
    · exact hdeadline ctx (mem_singleton.mp hctx).symm
  closed hc := by
    rcases mem_append.mp hc with hc | hc
    · exact h.closed hc
    · exact hclosed (mem_singleton.mp hc).symm

theorem data (h : LogSound d closed none log) (bytes : Bytes) :
    LogSound d closed none (log ++ [.data bytes]) := by
  apply h.append
  · exact fun e he => he
  · exact fun e he => nomatch he
  · exact fun e he => nomatch he
  · exact fun ctx hctx => nomatch hctx
  · exact fun hc => nomatch hc

section

variable (h : LogSound d closed recvErr log)

include h

theorem error {e : Err} (hsame : recvErr = none ∨ recvErr = some e) :
    LogSound d closed (some e) (log ++ [.stream e]) := by
  have heq : ∀ e', recvErr = some e' → e' = e := by
    rintro e' rfl
    rcases hsame with hnone | hsome
    · exact nomatch hnone
    · exact some.inj hsome
  apply h.append
  · exact fun e' he' => congrArg some (heq e' he').symm
  · exact fun e' he' => .inl (congrArg ReadResult.stream (heq e' he').symm)
  · exact fun e' he' => congrArg some (ReadResult.stream.inj he')
  · exact fun ctx hctx => nomatch hctx
  · exact fun hc => nomatch hc

theorem expired {ctx : ℕ} (hctx : ctx ∈ d.cancelled) :
    LogSound d closed recvErr (log ++ [.deadline ctx]) := by
  apply h.append
  · exact fun e he => he
  · exact fun e _ => .inr (.inl ⟨ctx, rfl⟩)
  · exact fun e he => nomatch he
  · exact fun ctx' hctx' => ReadResult.deadline.inj hctx' ▸ hctx
  · exact fun hc => nomatch hc

theorem close (hclosed : closed = true) : LogSound d closed recvErr (log ++ [.closed]) := by
  apply h.append
  · exact fun e he => he
  · exact fun e _ => .inr (.inr rfl)
  · exact fun e he => nomatch he
  · exact fun ctx hctx => nomatch hctx
  · exact fun _ => hclosed

end

end LogSound

namespace ReadSide

variable {d : Deadline} {closed : Bool} {s : ReadSide}

structure Sound (d : Deadline) (closed : Bool) (s : ReadSide) : Prop where
  bytes : ∃ lost, s.delivered ++ (s.pending ++ lost) = s.received ∧
    (lost ≠ [] → s.pump = .stopped)
  holder : ∀ i ctx len, s.reads i = .holding ctx len → s.muReading = some i
  free : s.muReading ≠ none → s.recvErr = none ∧ s.buf = none
  log : LogSound d closed s.recvErr s.log

theorem sound_new : new.Sound d closed where
  bytes := ⟨[], rfl, fun h => absurd rfl h⟩
  holder _ _ _ h := nomatch h
  free h := absurd rfl h
  log := ⟨List.Pairwise.nil, fun _ h => (nomatch h), fun _ h => (nomatch h), fun h => (nomatch h)⟩

/-- Time passes: contexts are cancelled and the connection closed, never the other way. -/
theorem Sound.mono (h : s.Sound d closed) {d' : Deadline} {closed' : Bool}
    (hd : d.cancelled ⊆ d'.cancelled) (hclosed : closed = true → closed' = true) :
    s.Sound d' closed' where
  __ := h
  log := ⟨h.log.sticky, h.log.stream, fun ctx hctx => hd (h.log.deadline ctx hctx),
    fun hc => hclosed (h.log.closed hc)⟩

theorem Sound.setPhase (h : s.Sound d closed) (i : ℕ) {phase : ReadPhase}
    (hphase : ∀ ctx len, phase ≠ .holding ctx len) : (s.setPhase i phase).Sound d closed where
  __ := h
  holder j ctx len hj := by
    by_cases heq : j = i
    · subst heq
      simp only [ReadSide.setPhase, update_self] at hj
      exact absurd hj (hphase ctx len)
    · simp only [ReadSide.setPhase, update_of_ne heq] at hj
      exact h.holder j ctx len hj

variable {res : ReadResult}

theorem sound_finish {i : ℕ}
    (hbytes : ∃ lost, s.delivered ++ res.bytes ++ (s.pending ++ lost) = s.received ∧
      (lost ≠ [] → s.pump = .stopped))
    (hholder : ∀ j ctx len, j ≠ i → s.reads j = .holding ctx len → s.muReading = some j)
    (hfree : s.muReading ≠ none → s.recvErr = none ∧ s.buf = none)
    (hlog : LogSound d closed s.recvErr (s.log ++ [res])) : (s.finish i res).Sound d closed where
  bytes := by
    obtain ⟨lost, hbytes, hlost⟩ := hbytes
    refine ⟨lost, ?_, hlost⟩
    have hdelivered : (s.finish i res).delivered = s.delivered ++ res.bytes := by
      unfold delivered ReadSide.finish
      simp
    rwa [hdelivered]
  holder j ctx len hj := by
    by_cases heq : j = i
    · subst heq
      simp [finish, ReadSide.setPhase] at hj
    · simp only [finish, ReadSide.setPhase, update_of_ne heq] at hj
      exact hholder j ctx len heq hj
  free := hfree
  log := hlog

section

variable (h : s.Sound d closed)

include h

theorem Sound.noBytes (hres : res.bytes = []) :
    ∃ lost, s.delivered ++ res.bytes ++ (s.pending ++ lost) = s.received ∧
      (lost ≠ [] → s.pump = .stopped) := by
  rw [hres, append_nil]
  exact h.bytes

theorem Sound.finish {i : ℕ} (hres : res.bytes = [])
    (hlog : LogSound d closed s.recvErr (s.log ++ [res])) : (s.finish i res).Sound d closed :=
  sound_finish (h.noBytes hres) (fun j ctx len _ => h.holder j ctx len) h.free hlog

theorem Sound.alone {i ctx len : ℕ} (hi : s.reads i = .holding ctx len) :
    ∀ j ctx len, j ≠ i → s.reads j = .holding ctx len → (none : Option ℕ) = some j := by
  intro j ctx' len' hne hj
  have hsame := (h.holder i ctx len hi).symm.trans (h.holder j ctx' len' hj)
  exact absurd (some.inj hsame).symm hne

theorem Sound.check (i : ℕ) (arm : Arm) : (s.check d closed i arm).Sound d closed := by
  unfold ReadSide.check
  cases s.reads i with
  | snapped ctx len =>
    cases arm with
    | deadline =>
      dsimp only
      split_ifs with hctx
      · exact h.finish rfl (h.log.expired hctx)
      · exact h
    | closed =>
      split_ifs with hclosed
      · exact h.finish rfl (h.log.close hclosed)
      · exact h
    | go =>
      dsimp only
      split_ifs
      · exact h
      · exact h.setPhase i fun _ _ hnot => nomatch hnot
  | _ => exact h

end

theorem drop_readBuf (b : Bytes) (offset len : ℕ) :
    b.drop offset = (b.drop offset).take len ++
      ((if offset + ((b.drop offset).take len).length = b.length then none else some b).map
        (drop (offset + ((b.drop offset).take len).length))).getD [] := by
  have hdrop : b.drop (offset + ((b.drop offset).take len).length) = (b.drop offset).drop len := by
    rw [← drop_drop, length_take]
    rcases Nat.le_total len (b.drop offset).length with hle | hle
    · rw [Nat.min_eq_left hle]
    · rw [Nat.min_eq_right hle, drop_length, drop_eq_nil_of_le hle]
  split_ifs with hall
  · rw [hall, drop_length] at hdrop
    change b.drop offset = (b.drop offset).take len ++ []
    rw [hdrop, take_append_drop]
  · change b.drop offset = (b.drop offset).take len ++ b.drop _
    rw [hdrop, take_append_drop]

section

variable (h : s.Sound d closed)

include h

theorem Sound.lock (i : ℕ) : (s.lock d i).Sound d closed := by
  unfold ReadSide.lock
  cases hphase : s.reads i with
  | queued len =>
    cases hmu : s.muReading with
    | some j => exact h
    | none =>
      cases herr : s.recvErr with
      | some e =>
        apply h.finish rfl
        rw [herr]
        exact h.log.error (.inr herr)
      | none =>
        cases hbuf : s.buf with
        | some b =>
          obtain ⟨lost, hbytes, hlost⟩ := h.bytes
          apply sound_finish
          · refine ⟨lost, ?_, hlost⟩
            have hrest : s.pending =
                b.drop s.offset ++ ((s.recvCh.map RecvResp.data).getD [] ++ s.pump.data) := by
              simp [pending, hbuf]
            rw [← hbytes, hrest]
            conv_rhs => rw [drop_readBuf b s.offset len]
            change s.delivered ++ (b.drop s.offset).take len ++ _ = _
            simp [pending]
          · exact fun j ctx len _ hj => h.holder j ctx len hj
          · exact fun hnot => absurd hmu hnot
          · have hlog := h.log
            rw [herr] at hlog
            rw [herr]
            exact hlog.data _
        | none =>
          refine ⟨h.bytes, fun j ctx len' hj => ?_, fun _ => ⟨herr, hbuf⟩, h.log⟩
          by_cases heq : j = i
          · rw [heq]
          · simp only [ReadSide.setPhase, update_of_ne heq] at hj
            exact nomatch hmu.symm.trans (h.holder j ctx len' hj)
  | _ => exact h

theorem Sound.receive {i ctx len : ℕ}
    (hphase : s.reads i = .holding ctx len) (resp : RecvResp) (hch : s.recvCh = some resp) :
    (s.receive i len resp).Sound d closed := by
  obtain ⟨lost, hbytes, hlost⟩ := h.bytes
  obtain ⟨herr, hbuf⟩ := h.free (by rw [h.holder i ctx len hphase]; exact some_ne_none i)
  have hpending : s.pending = resp.data ++ s.pump.data := by
    rw [pending, hbuf, hch]
    rfl
  have hlog := h.log
  rw [herr] at hlog
  rw [hpending] at hbytes
  cases resp with
  | err e =>
    apply sound_finish
    · refine ⟨lost, ?_, hlost⟩
      rw [← hbytes, pending, hbuf]
      change s.delivered ++ [] ++ _ = _
      rw [append_nil]
      rfl
    · exact h.alone hphase
    · exact fun hnot => absurd rfl hnot
    · exact hlog.error (.inl rfl)
  | hunk data =>
    apply sound_finish
    · refine ⟨lost, ?_, hlost⟩
      have hrest : (((if data.drop len = [] then s.buf else some (data.drop len)).map
          (drop (if data.drop len = [] then s.offset else 0))).getD []) = data.drop len := by
        split_ifs with hnil
        · simp [hbuf, hnil]
        · rfl
      rw [← hbytes, pending, hrest]
      change s.delivered ++ data.take len ++ (data.drop len ++ ([] ++ s.pump.data) ++ lost) =
        s.delivered ++ (data ++ s.pump.data ++ lost)
      nth_rewrite 3 [← take_append_drop len data]
      simp only [append_assoc, nil_append]
    · exact h.alone hphase
    · exact fun hnot => absurd rfl hnot
    · rw [herr]
      exact hlog.data _

theorem Sound.select (i : ℕ) (arm : Arm) : (s.select d closed i arm).Sound d closed := by
  unfold ReadSide.select
  cases hphase : s.reads i with
  | holding ctx len =>
    cases arm with
    | deadline =>
      dsimp only
      split_ifs with hctx
      · exact sound_finish (h.noBytes rfl) (h.alone hphase) (fun hnot => absurd rfl hnot)
          (h.log.expired hctx)
      · exact h
    | closed =>
      split_ifs with hclosed
      · exact sound_finish (h.noBytes rfl) (h.alone hphase) (fun hnot => absurd rfl hnot)
          (h.log.close hclosed)
      · exact h
    | go =>
      cases hch : s.recvCh with
      | none => exact h
      | some resp => exact h.receive hphase resp hch
  | _ => exact h

theorem Sound.running (hpump : s.pump ≠ .stopped) : s.delivered ++ s.pending = s.received := by
  obtain ⟨lost, hbytes, hlost⟩ := h.bytes
  have hnil : lost = [] := by
    by_contra hne
    exact hpump (hlost hne)
  rwa [hnil, append_nil] at hbytes

theorem Sound.movePump (hrunning : s.pump ≠ .stopped) (pump : Pump)
    (recvCh : Option RecvResp) (more lost : Bytes)
    (hmoved : (s.recvCh.map RecvResp.data).getD [] ++ s.pump.data ++ more =
      (recvCh.map RecvResp.data).getD [] ++ pump.data ++ lost)
    (hlost : lost ≠ [] → pump = .stopped) :
    Sound d closed { s with pump, recvCh, received := s.received ++ more } where
  bytes := by
    refine ⟨lost, ?_, hlost⟩
    rw [← h.running hrunning]
    simp only [pending, append_assoc] at hmoved ⊢
    rw [hmoved]
    rfl
  __ := h

theorem Sound.ensureRecvPump : s.ensureRecvPump.Sound d closed := by
  unfold ReadSide.ensureRecvPump
  cases hpump : s.pump with
  | off =>
    have hrunning : s.pump ≠ .stopped := by rw [hpump]; exact Pump.noConfusion
    have hmove := h.movePump hrunning .receiving s.recvCh [] [] (by rw [hpump]; rfl)
      fun hnot => absurd rfl hnot
    rwa [append_nil] at hmove
  | _ => exact h

theorem Sound.offer : s.offer.Sound d closed := by
  unfold ReadSide.offer
  cases hpump : s.pump with
  | offering resp =>
    have hrunning : s.pump ≠ .stopped := by rw [hpump]; exact Pump.noConfusion
    cases hch : s.recvCh with
    | some queued => cases resp <;> exact h
    | none =>
      cases resp with
      | hunk data =>
        have hmove := h.movePump hrunning .receiving (some (.hunk data)) [] []
          (by rw [hpump, hch]; exact congrArg (· ++ []) (append_nil data).symm)
          fun hnot => absurd rfl hnot
        rwa [append_nil] at hmove
      | err e =>
        have hmove := h.movePump hrunning .stopped (some (.err e)) [] []
          (by rw [hpump, hch]; rfl) fun _ => rfl
        rwa [append_nil] at hmove
  | _ => exact h

theorem Sound.recv (resp : RecvResp) : (s.recv resp).Sound d closed := by
  unfold ReadSide.recv
  cases hpump : s.pump with
  | receiving =>
    have hrunning : s.pump ≠ .stopped := by rw [hpump]; exact Pump.noConfusion
    apply h.movePump hrunning (.offering resp) s.recvCh resp.data []
    · rw [hpump, append_nil, append_assoc]
      rfl
    · exact fun hnot => absurd rfl hnot
  | _ => exact h

theorem Sound.stop : (s.stop closed).Sound d closed := by
  unfold ReadSide.stop
  cases hpump : s.pump with
  | offering resp =>
    split_ifs
    · have hrunning : s.pump ≠ .stopped := by rw [hpump]; exact Pump.noConfusion
      have hmove := h.movePump hrunning .stopped s.recvCh [] resp.data
        (by rw [hpump, append_nil]; exact congrArg (· ++ resp.data) (append_nil _).symm)
        fun _ => rfl
      rwa [append_nil] at hmove
    · exact h
  | _ => exact h

theorem Sound.snapshot (i len : ℕ) : (s.snapshot d i len).Sound d closed := by
  unfold ReadSide.snapshot
  cases s.reads i with
  | fresh => exact h.ensureRecvPump.setPhase i fun _ _ hnot => nomatch hnot
  | _ => exact h

theorem Sound.step (e : ReadEvent) : (s.step d closed e).Sound d closed := by
  cases e with
  | snapshot i len => exact h.snapshot i len
  | check i arm => exact h.check i arm
  | lock i => exact h.lock i
  | select i arm => exact h.select i arm
  | recv resp => exact h.recv resp
  | offer => exact h.offer
  | stop => exact h.stop

theorem Sound.delivered_prefix : s.delivered <+: s.received := by
  obtain ⟨lost, hbytes, -⟩ := h.bytes
  exact ⟨s.pending ++ lost, hbytes⟩

end

end ReadSide

end Outbound.Transport.Grpc
