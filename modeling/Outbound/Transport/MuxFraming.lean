import Mathlib.Data.List.Forall2
import Outbound.Transport.Mux

/-! Runs of one multiplexed session: what its reads return while writes come in between, and what
its writes send while reads come in between. -/
namespace Outbound.Transport.Mux

open Lib Conn List Option Prod

namespace Conn

def Answer.data : Answer → Bytes
  | .read out => out.data
  | .wrote _ => []

def Op.isRead : Op → Bool
  | .read _ => true
  | .write _ _ _ => false

def Op.payload : Op → Option Bytes
  | .read _ => none
  | .write b _ _ => some b

def Op.Roomy : Op → Prop
  | .read l => 0 < l
  | .write _ _ _ => True

/-- A write that the format has room for, and that the underlying connection takes. -/
def Op.Taken : Op → Prop
  | .read _ => True
  | .write b sub frame => b.length ≤ 65535 ∧ sub = .ok ∧ frame = .ok

end Conn

def returned (answers : List Answer) : Bytes := answers.flatMap Answer.data

def payloads (ops : List Op) : List Bytes := ops.filterMap Op.payload

/-- The incoming frames, cut into chunks in any way. -/
structure Incoming (frames : List Frame) where
  feed : Feed UInt8 MuxErr
  clean : feed.Clean
  bytes : feed.rest = wire frames

variable (id : Octets 2) (b : Bytes) (f : Frame)

def IsKeepData : Prop :=
  f.id = id ∧ f.status = sessionStatusKeep ∧ f.opts = optionData ∧ f.extra = [] ∧ f.payload = some b

def keepData (h : b.length ≤ 65535) : Frame where
  id := id
  status := sessionStatusKeep
  opts := optionData
  extra := []
  payload := some b
  metaLen := by decide
  flagged := rfl
  short := by
    rintro d ⟨⟩
    exact h

namespace Conn

variable {c : Conn} {frames : List Frame} {o : MuxOption} {parseIP : Bytes → Option Ip}

theorem keepFrame_eq (c : Conn) (b : Bytes) (h : b.length ≤ 65535) :
    c.keepFrame b = (keepData c.id b h).encode := by
  simp [keepFrame, Frame.encode, Frame.payloadBytes, keepData]

theorem write_readSide (c : Conn) (b : Bytes) (sub frame : WriteEnd MuxErr) :
    (c.write b sub frame).2.feed = c.feed ∧ (c.write b sub frame).2.remain = c.remain ∧
      (c.write b sub frame).2.headersAt = c.headersAt ∧ (c.write b sub frame).2.id = c.id := by
  have hframe : ∀ c : Conn, (c.writeFrame b frame).2.feed = c.feed ∧
      (c.writeFrame b frame).2.remain = c.remain ∧
      (c.writeFrame b frame).2.headersAt = c.headersAt ∧ (c.writeFrame b frame).2.id = c.id := by
    intro c
    unfold writeFrame
    split_ifs
    · exact ⟨rfl, rfl, rfl, rfl⟩
    · exact ⟨rfl, rfl, rfl, rfl⟩
  unfold write
  cases c.otb with
  | none => exact hframe c
  | some otb =>
    cases sub.err with
    | none => exact hframe _
    | some e => exact ⟨rfl, rfl, rfl, rfl⟩

theorem write_taken (c : Conn) {b : Bytes} (h : b.length ≤ 65535) :
    (c.write b .ok .ok).2 =
      { c with otb := none, sent := c.sent ++ (c.otb.getD [] ++ c.keepFrame b) } := by
  have hnot : ¬ 65535 < b.length := by omega
  unfold write
  cases hotb : c.otb with
  | none =>
    rw [writeFrame, if_neg hnot]
    simp [send, hotb]
  | some otb =>
    dsimp only [WriteEnd.err_ok]
    rw [writeFrame, if_neg hnot]
    simp [send, keepFrame]

theorem read_on (hplain : ∀ f ∈ frames, f.Plain) {cur : Bytes} {fs : List Frame}
    (hfs : fs <:+ frames) (h : c.Stands cur fs) (l : ℕ) :
    ∃ out c', c.read l = some (out, c') ∧ c.ReadsOn cur fs out c' ∧
      (0 < l → c'.feed.rest.length < c.feed.rest.length ∨ c.feed.rest = []) := by
  unfold read
  by_cases hcur : cur = []
  · subst hcur
    obtain ⟨out, c', hread, hon, hlt⟩ := readLoop_on
      (fun f hf => hplain f (hfs.subset hf)) h (c.feed.rest.length + 1)
      (by rw [h.rest, nil_append]; exact Nat.lt_succ_self _) l
    rw [if_neg (by rw [h.remain]; exact not_not.mpr rfl)]
    exact ⟨out, c', hread, hon, fun _ => hlt⟩
  · have hremain : c.remain ≠ 0 := by
      rw [h.remain]
      exact fun hzero => hcur (eq_nil_of_length_eq_zero hzero)
    obtain ⟨hon, hlt⟩ := readRemain_on h hcur l
    rw [if_pos hremain]
    exact ⟨_, _, rfl, hon, fun hl => .inl (hlt hl)⟩

def dataOf (past : List (Op × Answer)) : Bytes := past.flatMap fun x => x.2.data

structure Reading (frames : List Frame) (c : Conn) (past : List (Op × Answer)) : Prop where
  stands : ∃ cur fs, fs <:+ frames ∧ c.Stands cur fs ∧
    content frames = dataOf past ++ (cur ++ content fs)
  headersAt : ∀ k ∈ c.headersAt, ∃ gs, gs <:+ frames ∧ k = (wire gs).length
  -- every read with room takes bytes off the stream until there are none
  progress : (∀ x ∈ past, x.1.Roomy) →
    past.countP (fun x => x.1.isRead) + c.feed.rest.length ≤ (wire frames).length ∨ c.feed.rest = []

variable {past : List (Op × Answer)}

theorem Reading.read (hplain : ∀ f ∈ frames, f.Plain) (h : Reading frames c past) (l : ℕ) :
    ∃ out c', c.read l = some (out, c') ∧
      Reading frames c' (past ++ [(.read l, .read out)]) ∧
      c'.sent = c.sent ∧ c'.otb = c.otb ∧ (∀ f, c.HasRead frames f → c'.HasRead frames f) ∧
      (c'.id = c.id ∨ ∃ f, c'.HasRead frames f ∧ c'.id = f.id) := by
  obtain ⟨cur, fs, hfs, hstands, hdata⟩ := h.stands
  obtain ⟨out, c', hread, hon, hlt⟩ := read_on hplain hfs hstands l
  refine ⟨out, c', hread, ⟨?_, fun k hk => ?_, fun hroomy => ?_⟩, hon.sent, hon.otb, ?_, ?_⟩
  · obtain ⟨cur', fs', hfs', hstands', hdata'⟩ := hon.stands
    refine ⟨cur', fs', hfs'.trans hfs, hstands', ?_⟩
    rw [hdata, hdata', dataOf, dataOf, flatMap_append, append_assoc]
    simp [Answer.data]
  · rcases hon.headersAt k hk with hk | ⟨gs, hgs, hlen⟩
    · exact h.headersAt k hk
    · exact ⟨gs, hgs.trans hfs, hlen⟩
  · have hl : 0 < l := hroomy (.read l, .read out) (by simp)
    have hle := hon.le
    have hcount : (past ++ [(Op.read l, Answer.read out)]).countP (fun x => x.1.isRead) =
        past.countP (fun x => x.1.isRead) + 1 := by
      rw [countP_append]
      rfl
    rcases h.progress (fun x hx => hroomy x (mem_append_left _ hx)) with hmore | hend
    · rcases hlt hl with hlt | hend
      · left
        omega
      · right
        rw [hend] at hle
        exact eq_nil_of_length_eq_zero (Nat.le_zero.mp hle)
    · right
      rw [hend] at hle
      exact eq_nil_of_length_eq_zero (Nat.le_zero.mp hle)
  · rintro f ⟨gs, hgs, hless⟩
    exact ⟨gs, hgs, Nat.lt_of_le_of_lt hon.le hless⟩
  · rcases hon.id with hid | ⟨f, ⟨gs, hgs, hless⟩, hid⟩
    · exact .inl hid
    · exact .inr ⟨f, ⟨gs, hgs.trans hfs, hless⟩, hid⟩

theorem Reading.write (h : Reading frames c past) (b : Bytes) (sub frame : WriteEnd MuxErr) :
    Reading frames (c.write b sub frame).2
      (past ++ [(.write b sub frame, .wrote (c.write b sub frame).1)]) := by
  obtain ⟨hfeed, hremain, hheaders, -⟩ := write_readSide c b sub frame
  obtain ⟨cur, fs, hfs, hstands, hdata⟩ := h.stands
  refine ⟨⟨cur, fs, hfs, ⟨?_, ?_, ?_⟩, ?_⟩, ?_, fun hroomy => ?_⟩
  · rw [hfeed]
    exact hstands.clean
  · rw [hfeed]
    exact hstands.rest
  · rw [hremain]
    exact hstands.remain
  · rw [hdata, dataOf, dataOf, flatMap_append]
    simp [Answer.data]
  · rw [hheaders]
    exact h.headersAt
  · rw [hfeed, countP_append]
    exact h.progress fun x hx => hroomy x (mem_append_left _ hx)

variable (parseIP)

theorem Reading.new (o : MuxOption) (x : Incoming frames) :
    Reading frames (newConn parseIP o x.feed) [] where
  stands := ⟨[], frames, suffix_refl _, ⟨x.clean, x.bytes, rfl⟩, rfl⟩
  headersAt := fun k hk => absurd hk not_mem_nil
  progress := by
    intro
    left
    change 0 + x.feed.rest.length ≤ _
    simp [x.bytes]

def SentFor (o : MuxOption) (bs : List Bytes) (sent : Bytes) : Prop :=
  bs = [] ∧ sent = [] ∨
    bs ≠ [] ∧ ∃ fs, List.Forall₂ (IsKeepData o.id) bs fs ∧
      sent = subConnection parseIP o ++ wire fs

structure Writing (o : MuxOption) (c : Conn) (past : List (Op × Answer)) : Prop where
  id : c.id = o.id
  otb : c.otb = if payloads (past.map fst) = [] then some (subConnection parseIP o) else none
  sent : SentFor parseIP o (payloads (past.map fst)) c.sent

variable {parseIP}

theorem payloads_concat (past : List (Op × Answer)) (op : Op) (a : Answer) :
    payloads ((past ++ [(op, a)]).map fst) =
      payloads (past.map fst) ++ op.payload.toList := by
  rw [payloads, map_append, filterMap_append]
  cases op <;> rfl

theorem Writing.read (h : Writing parseIP o c past) {c' : Conn}
    (hsent : c'.sent = c.sent) (hotb : c'.otb = c.otb) (hid : c'.id = o.id) (l : ℕ)
    (out : MuxRead) : Writing parseIP o c' (past ++ [(.read l, .read out)]) := by
  have hpayloads := payloads_concat past (.read l) (.read out)
  rw [show (Op.read l).payload.toList = [] from rfl, append_nil] at hpayloads
  refine ⟨hid, ?_, ?_⟩
  · rw [hpayloads, hotb]
    exact h.otb
  · rw [hpayloads, hsent]
    exact h.sent

theorem Writing.write (h : Writing parseIP o c past) {b : Bytes}
    (hb : b.length ≤ 65535) (a : Answer) :
    Writing parseIP o (c.write b .ok .ok).2 (past ++ [(.write b .ok .ok, a)]) := by
  have hpayloads := payloads_concat past (.write b .ok .ok) a
  rw [show (Op.write b .ok .ok).payload.toList = [b] from rfl] at hpayloads
  have hne : payloads (past.map fst) ++ [b] ≠ [] := by simp
  have hkeep : IsKeepData o.id b (keepData o.id b hb) := ⟨rfl, rfl, rfl, rfl, rfl⟩
  rw [write_taken c hb]
  refine ⟨h.id, ?_, ?_⟩
  · rw [hpayloads, if_neg hne]
  · rw [hpayloads]
    right
    refine ⟨hne, ?_⟩
    rw [keepFrame_eq c b hb, h.id, h.otb]
    rcases h.sent with ⟨hnone, hsent⟩ | ⟨hsome, fs, hfs, hsent⟩
    · refine ⟨[keepData o.id b hb], ?_, ?_⟩
      · rw [hnone]
        exact .cons hkeep .nil
      · rw [hsent, if_pos hnone]
        simp [wire]
    · refine ⟨fs ++ [keepData o.id b hb], rel_append hfs (.cons hkeep .nil), ?_⟩
      rw [hsent, if_neg hsome]
      simp [wire]

theorem Writing.new (parseIP : Bytes → Option Ip) (o : MuxOption) (feed : Feed UInt8 MuxErr) :
    Writing parseIP o (newConn parseIP o feed) [] where
  id := rfl
  otb := rfl
  sent := .inl ⟨rfl, rfl⟩

end Conn

def run (parseIP : Bytes → Option Ip) (o : MuxOption) {frames : List Frame} (x : Incoming frames)
    (ops : List Op) : Option (List Answer × Conn) :=
  Run.answersM step (newConn parseIP o x.feed) ops

/-- The reads of a run return the data of the frames: always a front of it, and all of it after
enough reads. Headers are taken off the stream only where a frame begins. -/
def ReadsContent (frames : List Frame) (ops : List Op) (result : Option (List Answer × Conn)) :
    Prop :=
  ∃ answers c, result = some (answers, c) ∧ returned answers <+: content frames ∧
    ((∀ op ∈ ops, op.Roomy) → (wire frames).length < ops.countP Op.isRead →
      returned answers = content frames) ∧
    ∀ k ∈ c.headersAt, ∃ gs, gs <:+ frames ∧ k = (wire gs).length

/-- A write reports no more than it was given, and all of it when it succeeds. -/
def ReportsCount (w : Written) : Prop := w.n ≤ b.length ∧ (w.err = none → w.n = b.length)

theorem keep_ne_keepAlive : sessionStatusKeep ≠ sessionStatusKeepAlive := by decide

theorem reportsCount_iff (c : Conn) {b : Bytes} (hb : b.length ≤ 65535) (sub frame : WriteEnd MuxErr) :
    ReportsCount b (c.write b sub frame).1 ↔
      (c.otb ≠ none ∧ sub.err ≠ none) ∨ ∃ k e, frame = .fail k e ∧ k ≤ b.length := by
  have hframe : ∀ c : Conn, ReportsCount b (c.writeFrame b frame).1 ↔
      ∃ k e, frame = .fail k e ∧ k ≤ b.length := by
    intro c
    have hlen : (c.keepFrame b).length = b.length + 8 := by
      rw [keepFrame_eq c b hb, Frame.Plain.length_encode ⟨rfl, fun _ => ⟨keep_ne_keepAlive, rfl⟩⟩]
      simp [Frame.payloadBytes, keepData]
      omega
    rw [writeFrame, if_neg (by omega), ReportsCount]
    cases frame with
    | ok =>
      simp only [WriteEnd.taken_ok, hlen]
      constructor
      · intro h
        omega
      · rintro ⟨k, e, hok, -⟩
        cases hok
    | fail k e =>
      simp only [WriteEnd.taken_fail, WriteEnd.err_fail, length_take, hlen]
      constructor
      · intro h
        exact ⟨k, e, rfl, by omega⟩
      · rintro ⟨k', e', heq, hk⟩
        cases heq
        exact ⟨by omega, fun hnone => absurd hnone (some_ne_none _)⟩
  unfold write
  cases hotb : c.otb with
  | none =>
    rw [hframe c]
    simp
  | some otb =>
    cases hsub : sub.err with
    | none =>
      rw [hframe _]
      simp
    | some e =>
      refine iff_of_true ⟨Nat.zero_le _, fun hnone => absurd hnone (some_ne_none _)⟩ ?_
      exact .inl ⟨some_ne_none _, some_ne_none _⟩

variable {ops : List Op} {answers : List Answer}

theorem dataOf_zip (h : answers.length = ops.length) :
    dataOf (ops.zip answers) = returned answers := by
  have hzip : (ops.zip answers).map snd = answers := map_snd_zip (Nat.le_of_eq h)
  calc dataOf (ops.zip answers) = returned ((ops.zip answers).map snd) := by
        rw [dataOf, returned, flatMap_map]
    _ = returned answers := by rw [hzip]

theorem map_fst_zip (h : answers.length = ops.length) :
    (ops.zip answers).map fst = ops := List.map_fst_zip (Nat.le_of_eq h.symm)

variable {frames : List Frame}

theorem run_reads (parseIP : Bytes → Option Ip) (o : MuxOption)
    (x : Incoming frames) (hplain : ∀ f ∈ frames, f.Plain) (ops : List Op) :
    ReadsContent frames ops (run parseIP o x ops) := by
  have hstep : ∀ c past, ∀ op ∈ ops, Reading frames c past →
      ∃ a c', step c op = some (a, c') ∧ Reading frames c' (past ++ [(op, a)]) := by
    intro c past op _ h
    cases op with
    | read l =>
      obtain ⟨out, c', hread, hreading, -⟩ := h.read hplain l
      refine ⟨.read out, c', ?_, hreading⟩
      rw [step, hread]
      rfl
    | write b sub frame => exact ⟨_, _, rfl, h.write b sub frame⟩
  obtain ⟨answers, c, hrun, h⟩ := Run.answersM_invariant step (Reading frames) ops hstep
    (Reading.new parseIP o x)
  have hlen := Run.length_answersM hrun
  rw [nil_append] at h
  obtain ⟨cur, fs, -, hstands, hcontent⟩ := h.stands
  rw [dataOf_zip hlen] at hcontent
  refine ⟨answers, c, hrun, ?_, fun hroomy hcount => ?_, h.headersAt⟩
  · rw [hcontent]
    exact prefix_append _ _
  · have hreads : (ops.zip answers).countP (fun x => x.1.isRead) = ops.countP Op.isRead := by
      calc (ops.zip answers).countP (fun x => x.1.isRead)
          = ((ops.zip answers).map fst).countP Op.isRead := by rw [countP_map]; rfl
        _ = ops.countP Op.isRead := by rw [map_fst_zip hlen]
    have hend : c.feed.rest = [] := by
      rcases h.progress (fun y hy => hroomy y.1 (of_mem_zip hy).1) with hle | hend
      · omega
      · exact hend
    -- nothing is left, neither of a payload nor of the frames
    rw [hstands.rest] at hend
    obtain ⟨rfl, hfs⟩ := append_eq_nil_iff.mp hend
    have hnone : fs = [] := by
      cases fs with
      | nil => rfl
      | cons f fs =>
        have hpos : 0 < f.encode.length := by
          rw [Frame.encode, length_append, length_beBytes]
          omega
        rw [wire_cons] at hfs
        rw [(append_eq_nil_iff.mp hfs).1] at hpos
        exact absurd hpos (Nat.lt_irrefl 0)
    subst hnone
    rw [hcontent]
    simp [content]

theorem run_sends (parseIP : Bytes → Option Ip) (o : MuxOption)
    (x : Incoming frames) (hplain : ∀ f ∈ frames, f.Plain) (hops : ∀ op ∈ ops, op.Taken) :
    ∃ answers c, run parseIP o x ops = some (answers, c) ∧ Reading frames c (ops.zip answers) ∧
      ((∀ f, c.HasRead frames f → f.id = o.id) → SentFor parseIP o (payloads ops) c.sent) := by
  have hstep : ∀ c past, ∀ op ∈ ops, Reading frames c past ∧
      ((∀ f, c.HasRead frames f → f.id = o.id) → Writing parseIP o c past) →
      ∃ a c', step c op = some (a, c') ∧ Reading frames c' (past ++ [(op, a)]) ∧
        ((∀ f, c'.HasRead frames f → f.id = o.id) → Writing parseIP o c' (past ++ [(op, a)])) := by
    rintro c past op hop ⟨hreading, hwriting⟩
    cases op with
    | read l =>
      obtain ⟨out, c', hread, hreading', hsent, hotb, hmore, hid⟩ := hreading.read hplain l
      refine ⟨.read out, c', ?_, hreading', fun hids => ?_⟩
      · rw [step, hread]
        rfl
      · have hold := hwriting fun f hf => hids f (hmore f hf)
        have hid' : c'.id = o.id := by
          rcases hid with hid | ⟨f, hf, hid⟩
          · exact hid.trans hold.id
          · exact hid.trans (hids f hf)
        exact hold.read hsent hotb hid' l out
    | write b sub frame =>
      obtain ⟨hb, rfl, rfl⟩ := hops _ hop
      have hfeed := (write_readSide c b .ok .ok).1
      refine ⟨_, _, rfl, hreading.write b .ok .ok, fun hids => (hwriting fun f hf => ?_).write hb _⟩
      obtain ⟨fs, hfs, hless⟩ := hf
      exact hids f ⟨fs, hfs, hfeed ▸ hless⟩
  obtain ⟨answers, c, hrun, hreading, h⟩ := Run.answersM_invariant step
    (fun c past => Reading frames c past ∧
      ((∀ f, c.HasRead frames f → f.id = o.id) → Writing parseIP o c past)) ops hstep
    ⟨Reading.new parseIP o x, fun _ => Writing.new parseIP o x.feed⟩
  rw [nil_append] at hreading
  refine ⟨answers, c, hrun, hreading, fun hids => ?_⟩
  have hsent := (h hids).sent
  rwa [nil_append, map_fst_zip (Run.length_answersM hrun)] at hsent

/-- Reads send nothing. -/
theorem run_later (hplain : ∀ f ∈ frames, f.Plain) {c : Conn} {past : List (Op × Answer)}
    (h : Reading frames c past) (hreads : payloads ops = []) :
    ∃ answers c', Run.answersM step c ops = some (answers, c') ∧ c'.sent = c.sent := by
  have hstep : ∀ d past, ∀ op ∈ ops, Reading frames d past ∧ d.sent = c.sent →
      ∃ a d', step d op = some (a, d') ∧ Reading frames d' (past ++ [(op, a)]) ∧
        d'.sent = c.sent := by
    rintro d past op hop ⟨hreading, hsent⟩
    cases op with
    | read l =>
      obtain ⟨out, d', hread, hreading', hsent', -⟩ := hreading.read hplain l
      refine ⟨.read out, d', ?_, hreading', hsent'.trans hsent⟩
      rw [step, hread]
      rfl
    | write b sub frame => exact absurd (filterMap_eq_nil_iff.mp hreads _ hop) (some_ne_none b)
  obtain ⟨answers, c', hrun, -, hsent⟩ := Run.answersM_invariant step
    (fun d past => Reading frames d past ∧ d.sent = c.sent) ops hstep ⟨h, rfl⟩
  exact ⟨answers, c', hrun, hsent⟩

/-- When a session does what its framing promises. A write also counts the eight bytes around its
payload, a read overwrites the session id that writes use, and metadata behind the options, and the
data of a frame that keeps the connection alive, are taken for a header. -/
theorem session_framing (parseIP : Bytes → Option Ip) (o : MuxOption) :
    (∀ (c : Conn) (b : Bytes) (sub frame : WriteEnd MuxErr), b.length ≤ 65535 →
      (ReportsCount b (c.write b sub frame).1 ↔
        (c.otb ≠ none ∧ sub.err ≠ none) ∨ ∃ k e, frame = .fail k e ∧ k ≤ b.length)) ∧
    (∀ (frames : List Frame) (x : Incoming frames) (ops : List Op),
      (∀ f ∈ frames, f.Plain) → ReadsContent frames ops (run parseIP o x ops)) ∧
    (∀ (frames : List Frame) (x : Incoming frames) (ops later : List Op),
      (∀ f ∈ frames, f.Plain) → (∀ op ∈ ops, op.Taken) → payloads later = [] →
        (∀ answers c, run parseIP o x ops = some (answers, c) →
          ∀ f, c.HasRead frames f → f.id = o.id) →
        ∃ answers c, run parseIP o x (ops ++ later) = some (answers, c) ∧
          SentFor parseIP o (payloads ops) c.sent) := by
  refine ⟨?_, ?_, ?_⟩
  · intro c b sub frame hb
    exact reportsCount_iff c hb sub frame
  · intro frames x ops hplain
    exact run_reads parseIP o x hplain ops
  · intro frames x ops later hplain hops hlater hids
    obtain ⟨answers, c, hrun, hreading, hsends⟩ := run_sends parseIP o x hplain hops
    obtain ⟨answers', c', hrun', hsent⟩ := run_later hplain hreading hlater
    refine ⟨answers ++ answers', c', ?_, hsent ▸ hsends (hids answers c hrun)⟩
    rw [run, Run.answersM_append, show Run.answersM _ _ ops = _ from hrun, bind_some, hrun']
    rfl

def sampleParseIP : Bytes → Option Ip := fun _ => some (.v4 (.ofBytes 4 [127, 0, 0, 1]))

def sampleOption : MuxOption := ⟨.ofBytes 2 [0, 0], 0, [], ""⟩

def otherId : Octets 2 := .ofBytes 2 [0, 1]

def sampleFrame (status : UInt8) (extra : Bytes) (h : 4 + extra.length ≤ 512) : Frame where
  id := id
  status := status
  opts := optionData
  extra := extra
  payload := some [5]
  metaLen := h
  flagged := rfl
  short := by
    rintro d ⟨⟩
    decide

theorem clean_encode : Feed.Clean [(⟨f.encode, none⟩ : Arrival UInt8 MuxErr)] := by
  intro x hx
  rw [mem_singleton.mp hx]
  refine ⟨?_, rfl⟩
  apply ne_nil_of_length_pos
  rw [Frame.encode, length_append, length_beBytes]
  omega

theorem rest_encode : Feed.rest [(⟨f.encode, none⟩ : Arrival UInt8 MuxErr)] = wire [f] := by
  rw [Feed.rest_cons, Feed.rest_nil, wire_cons]
  rfl

def oneFrame : Incoming [f] := ⟨[⟨f.encode, none⟩], clean_encode f, rest_encode f⟩

theorem session_framing_sample :
    ReportsCount [7] ((newConn sampleParseIP sampleOption []).write [7] (.fail 3 .eof) .ok).1 ∧
    ReadsContent [sampleFrame sampleOption.id sessionStatusKeep [] (by decide)]
      [.read 1, .write [7] .ok .ok] (run sampleParseIP sampleOption
        (oneFrame (sampleFrame sampleOption.id sessionStatusKeep [] (by decide)))
        [.read 1, .write [7] .ok .ok]) ∧
    ∃ answers c, run sampleParseIP sampleOption
        (oneFrame (sampleFrame sampleOption.id sessionStatusKeep [] (by decide)))
        ([.read 1, .write [7] .ok .ok] ++ [.read 1]) = some (answers, c) ∧
      SentFor sampleParseIP sampleOption [[7]] c.sent := by
  have hplain : ∀ f ∈ [sampleFrame sampleOption.id sessionStatusKeep [] (by decide)],
      f.Plain ∧ f.id = sampleOption.id := by
    intro f hf
    rw [mem_singleton.mp hf]
    exact ⟨⟨rfl, fun _ => ⟨keep_ne_keepAlive, rfl⟩⟩, rfl⟩
  have hops : ∀ op ∈ [Op.read 1, .write [7] .ok .ok], op.Taken := by
    exact forall_mem_cons.mpr ⟨trivial, forall_mem_singleton.mpr ⟨by decide, rfl, rfl⟩⟩
  obtain ⟨hcount, hreads, hsends⟩ := session_framing sampleParseIP sampleOption
  refine ⟨(hcount _ [7] (.fail 3 .eof) .ok (by decide)).mpr (.inl ⟨?_, ?_⟩), ?_, ?_⟩
  · exact some_ne_none _
  · exact some_ne_none _
  · exact hreads _ _ _ fun f hf => (hplain f hf).1
  · refine hsends _ _ _ [.read 1] (fun f hf => (hplain f hf).1) hops rfl fun _ _ _ f hf => ?_
    obtain ⟨fs, hfs, -⟩ := hf
    exact (hplain f (hfs.subset mem_cons_self)).2

theorem sentFor_one {parseIP : Bytes → Option Ip} {o : MuxOption} {b sent : Bytes}
    (hb : b.length ≤ 65535) (h : SentFor parseIP o [b] sent) :
    sent = subConnection parseIP o ++ (keepData o.id b hb).encode := by
  rcases h with ⟨hnil, -⟩ | ⟨-, fs, hfs, hsent⟩
  · exact absurd hnil (cons_ne_nil b [])
  · cases hfs with
    | cons hf hrest =>
      cases hrest
      obtain ⟨hid, hstatus, hopts, hextra, hpayload⟩ := hf
      rw [hsent]
      simp [wire, Frame.encode, Frame.payloadBytes, keepData, hid, hstatus, hopts, hextra, hpayload]

/-- A write of one byte reports nine. A frame with another id that is read in between changes the id
of the next write. The length of the data is read from metadata, and a byte of the length field is
returned for the data. Behind a header that keeps the connection alive, the data is taken for the
next header. -/
theorem session_framing_fails :
    ¬ ReportsCount [7] ((newConn sampleParseIP sampleOption []).write [7] .ok .ok).1 ∧
    (∀ answers c, run sampleParseIP sampleOption
        (oneFrame (sampleFrame otherId sessionStatusKeep [] (by decide)))
        [.read 1, .write [7] .ok .ok] = some (answers, c) →
      ¬ SentFor sampleParseIP sampleOption [[7]] c.sent) ∧
    ¬ ReadsContent [sampleFrame sampleOption.id sessionStatusKeep [0, 1] (by decide)] [.read 4]
      (run sampleParseIP sampleOption
        (oneFrame (sampleFrame sampleOption.id sessionStatusKeep [0, 1] (by decide))) [.read 4]) ∧
    ¬ ReadsContent [sampleFrame sampleOption.id sessionStatusKeepAlive [] (by decide)] [.read 4]
      (run sampleParseIP sampleOption
        (oneFrame (sampleFrame sampleOption.id sessionStatusKeepAlive [] (by decide))) [.read 4]) := by
  refine ⟨?_, ?_, ?_, ?_⟩
  · rintro ⟨hle, -⟩
    exact absurd hle (by decide +kernel)
  · intro answers c hrun hsent
    have hvalue : (run sampleParseIP sampleOption
        (oneFrame (sampleFrame otherId sessionStatusKeep [] (by decide)))
        [.read 1, .write [7] .ok .ok]).map (fun r => r.2.sent) =
        some (subConnection sampleParseIP sampleOption ++ [0, 4, 0, 1, 2, 1, 0, 1, 7]) := by
      decide +kernel
    rw [hrun] at hvalue
    have hone := sentFor_one (by decide) hsent
    rw [show c.sent = _ from some.inj hvalue] at hone
    exact absurd hone (by decide +kernel)
  · rintro ⟨answers, c, hrun, hfront, -⟩
    have hvalue : (run sampleParseIP sampleOption
        (oneFrame (sampleFrame sampleOption.id sessionStatusKeep [0, 1] (by decide)))
        [.read 4]).map (fun r => returned r.1) = some [0] := by decide +kernel
    rw [hrun] at hvalue
    rw [show returned answers = _ from some.inj hvalue] at hfront
    exact absurd hfront (by decide +kernel)
  · rintro ⟨answers, c, hrun, -, -, hheaders⟩
    have hvalue : (run sampleParseIP sampleOption
        (oneFrame (sampleFrame sampleOption.id sessionStatusKeepAlive [] (by decide)))
        [.read 4]).map (fun r => r.2.headersAt) = some [9, 3] := by decide +kernel
    rw [hrun] at hvalue
    obtain ⟨gs, hgs, hlen⟩ := hheaders 3 (by
      rw [show c.headersAt = _ from some.inj hvalue]
      decide)
    -- the stream ends or begins at a frame, with nothing or nine bytes left
    rcases suffix_cons_iff.mp hgs with rfl | hgs
    · exact absurd hlen (by decide +kernel)
    · rw [suffix_nil.mp hgs] at hlen
      cases hlen

end Outbound.Transport.Mux
