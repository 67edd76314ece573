import Outbound.Anytls.Session

/-! Padding is transparent: over every run of padded writes and scheme updates the connection
carries the frames it was given, in order, with frames of padding between them. -/
namespace Outbound.Anytls

open Lib List

/-- `out` is `fs` with frames of padding put in. -/
inductive Padded : List Frame → List Frame → Prop
  | nil : Padded [] []
  | keep (f : Frame) {fs out : List Frame} (h : Padded fs out) : Padded (f :: fs) (f :: out)
  | waste (w : Frame) (hw : w.cmd = cmdWaste) {fs out : List Frame} (h : Padded fs out) :
    Padded fs (w :: out)

namespace Padded

theorem of_wastes {ws : List Frame} (h : Wastes ws) : Padded [] ws := by
  induction ws with
  | nil => exact .nil
  | cons w ws ih => exact .waste w (h w (by simp)).1 (ih fun w' hw' => h w' (by simp [hw']))

theorem append {fs out gs out' : List Frame} (h : Padded fs out) (h' : Padded gs out') :
    Padded (fs ++ gs) (out ++ out') := by
  induction h with
  | nil => exact h'
  | keep f _ ih => exact .keep f ih
  | waste w hw _ ih => exact .waste w hw ih

theorem refl (fs : List Frame) : Padded fs fs := by
  induction fs with
  | nil => exact .nil
  | cons f fs ih => exact .keep f ih

theorem filter_eq {fs out : List Frame} (h : Padded fs out) (hfs : ∀ f ∈ fs, f.cmd ≠ cmdWaste) :
    out.filter (fun f => f.cmd ≠ cmdWaste) = fs := by
  induction h with
  | nil => rfl
  | keep f _ ih =>
    rw [filter_cons_of_pos (by simpa using hfs f (by simp)), ih fun g hg => hfs g (by simp [hg])]
  | waste w hw _ ih => rw [filter_cons_of_neg (by simpa using hw), ih hfs]

end Padded

/-- What is done to a session: frames are handed to its padded write, in one string, or the server
sends a padding scheme. -/
inductive Call where
  | write (frames : List Frame) (rnd : ℕ → ℕ)
  | update (order : MapOrder) (rawScheme : Bytes)

inductive Answer where
  | panicked
  | wrote (r : Reply)
  | updated
deriving DecidableEq

variable (s : Session) (sid : UInt32)

def Session.step : Call → Answer × Session
  | .write frames rnd =>
    match s.writeConnLocked (encodeFrames frames) rnd with
    | none => (.panicked, s)
    | some (r, s') => (.wrote r, s')
  | .update order rawScheme =>
    match newPaddingFactory order rawScheme with
    | none => (.updated, s)
    | some padding => (.updated, { s with padding })

def Call.frames : Call → List Frame
  | .write frames _ => frames
  | .update _ _ => []

def Call.owed : Call → Answer
  | .write frames _ => .wrote ⟨(encodeFrames frames).length, none⟩
  | .update _ _ => .updated

section

variable (hroom : s.conn.room = none)

include hroom

theorem Session.writeConnLocked_padded
    (frames : List Frame) (hfits : ∀ f ∈ frames, f.Fits) (rnd : ℕ → ℕ) :
    ∃ s' out, s.writeConnLocked (encodeFrames frames) rnd =
        some (⟨(encodeFrames frames).length, none⟩, s') ∧
      s'.conn.room = none ∧ Padded frames out ∧ (∀ f ∈ out, f.Fits) ∧
      s'.conn.sent = s.conn.sent ++ encodeFrames out := by
  obtain ⟨r, s', hr, hout, _⟩ := s.writeConnLocked_outcome (encodeFrames frames) rnd
  obtain ⟨sent, ws, hws, hsent, _, hall, hn⟩ := hout.parts
  obtain ⟨herr, hroom'⟩ := hout.room hroom
  have hsent' := hall herr
  subst hsent'
  have hlen : r.n = (encodeFrames frames).length := by
    rw [hn, length_append]
    omega
  refine ⟨s', frames ++ ws, ?_, hroom', ?_, ?_, ?_⟩
  · rw [hr, ← hlen, ← herr]
  · have hpad := (Padded.refl frames).append (Padded.of_wastes hws)
    rwa [append_nil] at hpad
  · intro f hf
    rcases mem_append.mp hf with hmem | hmem
    · exact hfits f hmem
    · exact (hws f hmem).2
  · rw [hsent, encodeFrames_append]

theorem Session.step_padded (call : Call) (hfits : ∀ f ∈ call.frames, f.Fits) :
    (s.step call).1 = call.owed ∧ (s.step call).2.conn.room = none ∧
      ∃ out, Padded call.frames out ∧ (∀ f ∈ out, f.Fits) ∧
        (s.step call).2.conn.sent = s.conn.sent ++ encodeFrames out := by
  cases call with
  | write frames rnd =>
    obtain ⟨s', out, hr, hroom', hpad, hout, hsent⟩ :=
      s.writeConnLocked_padded hroom frames hfits rnd
    simp only [step, hr]
    exact ⟨rfl, hroom', out, hpad, hout, hsent⟩
  | update order rawScheme =>
    simp only [step]
    cases newPaddingFactory order rawScheme with
    | none => exact ⟨rfl, hroom, [], .nil, by simp, by simp⟩
    | some padding => exact ⟨rfl, hroom, [], .nil, by simp, by simp⟩

theorem Session.run_padded (calls : List Call) (hfits : ∀ f ∈ calls.flatMap Call.frames, f.Fits) :
    Run.answers step s calls = calls.map Call.owed ∧
      ∃ out, Padded (calls.flatMap Call.frames) out ∧ (∀ f ∈ out, f.Fits) ∧
        (Run.exec step s calls).conn.sent = s.conn.sent ++ encodeFrames out := by
  induction calls generalizing s with
  | nil => exact ⟨rfl, [], .nil, by simp, by simp⟩
  | cons call calls ih =>
    obtain ⟨hans, hroom', out, hpad, hout, hsent⟩ :=
      s.step_padded hroom call fun f hf => hfits f (by simp [hf])
    obtain ⟨hanss, outs, hpads, houts, hsents⟩ :=
      ih (s.step call).2 hroom' fun f hf => hfits f (by
        simpa using mem_append_right _ hf)
    refine ⟨?_, out ++ outs, ?_, ?_, ?_⟩
    · rw [Run.answers, hans, hanss, map_cons]
    · exact hpad.append hpads
    · intro f hf
      rcases mem_append.mp hf with hmem | hmem
      · exact hout f hmem
      · exact houts f hmem
    · rw [Run.exec_cons, hsents, hsent, encodeFrames_append, append_assoc]

/-- For every padding scheme, packet counter and sequence of writes of whole frames the connection
carries the frames written, in order, with frames of padding put in. Every write reports the length
of its input. No size of the scheme is negative, and none makes a write panic. -/
theorem padded_writes_transparent (calls : List Call)
    (hfits : ∀ f ∈ calls.flatMap Call.frames, f.Fits) :
    Run.answers Session.step s calls = calls.map Call.owed ∧
      (∃ sent out, (Run.exec Session.step s calls).conn.sent = s.conn.sent ++ sent ∧
        wholeFrames sent = some out ∧ Padded (calls.flatMap Call.frames) out ∧
        ((∀ f ∈ calls.flatMap Call.frames, f.cmd ≠ cmdWaste) →
          out.filter (fun f => f.cmd ≠ cmdWaste) = calls.flatMap Call.frames)) ∧
      ∀ order rawScheme padding, newPaddingFactory order rawScheme = some padding →
        ∀ pkt rnd, ∃ sizes, padding.generateRecordPayloadSizes pkt rnd = some sizes ∧
          ∀ l ∈ sizes, l = checkMark ∨ 0 < l := by
  obtain ⟨hans, out, hpad, hout, hsent⟩ := s.run_padded hroom calls hfits
  refine ⟨hans, ⟨encodeFrames out, out, hsent, ?_, hpad, hpad.filter_eq⟩, ?_⟩
  · exact wholeFrames_encodeFrames out hout
  · intro order rawScheme padding _
    exact padding.exists_generateRecordPayloadSizes

end

def sampleScheme : Bytes :=
  [115, 116, 111, 112, 61, 56, 10, 49, 61, 57, 45, 52, 48, 44, 99, 44, 55, 45, 55]

def sampleOrder : MapOrder := ⟨id, fun _ => .refl _⟩

def sampleSession : Session where
  sendPadding := true
  pktCounter := 0
  padding := (newPaddingFactory sampleOrder sampleScheme).get rfl
  conn := ⟨[], none, .errorf "write"⟩

theorem padded_writes_transparent_sample :
    sampleSession.conn.room = none ∧
      Run.answers Session.step sampleSession
        [.write [⟨cmdPSH, 1, [1, 2, 3]⟩, ⟨cmdPSH, 2, []⟩] (fun _ => 30), .update sampleOrder []] =
        [.wrote ⟨17, none⟩, .updated] := by
  constructor
  · rfl
  · exact (padded_writes_transparent sampleSession rfl
      [.write [⟨cmdPSH, 1, [1, 2, 3]⟩, ⟨cmdPSH, 2, []⟩] (fun _ => 30), .update sampleOrder []]
      (by decide)).1

example : (Run.exec Session.step sampleSession
      [.write [⟨cmdPSH, 1, [1, 2, 3]⟩] (fun _ => 10)]).conn.sent =
    [2, 0, 0, 0, 1, 0, 3, 1, 2, 3] ++ [0, 0, 0, 0, 0, 0, 2, 0, 0] := by
  decide

variable (data : Bytes) (rnd : ℕ → ℕ → ℕ)

def dataFrame (written size : ℕ) : Frame :=
  ⟨cmdPSH, sid, (data.drop written).take size⟩

def dataFrames : List Frame :=
  cutLoop maxFramePayloadSize data.length
    (fun written size frames => frames ++ [dataFrame sid data written size]) data.length 0 []

/-- `writeFrame`: a frame that is too large is refused before anything is written. -/
def Session.writeFrame (f : Frame) (rnd : ℕ → ℕ) : Option (Reply × Session) :=
  match encodedFrameSize f with
  | .error err => some (⟨0, some err⟩, s)
  | .ok _ =>
    match s.writeConnLocked (encodeFrame f) rnd with
    | none => none
    | some (r, s') => some (if r.err = none then ⟨f.data.length, none⟩ else ⟨0, r.err⟩, s')

def Session.writeDataFrame (written size : ℕ)
    (st : Option (Reply × Session)) : Option (Reply × Session) :=
  match st with
  | none => none
  | some (r, s) =>
    if r.err ≠ none then some (r, s)
    else
      match s.writeFrame (dataFrame sid data written size) (rnd written) with
      | none => none
      | some (w, s') => some (if w.err = none then ⟨written + size, none⟩ else ⟨written, w.err⟩, s')

/-- `writeDataFrames`, with a padded write for every frame. -/
def Session.writeDataFrames : Option (Reply × Session) :=
  cutLoop maxFramePayloadSize data.length (writeDataFrame sid data rnd) data.length 0
    (some (⟨0, none⟩, s))

theorem Session.writeFrame_padded (hroom : s.conn.room = none) (f : Frame)
    (hsize : f.data.length ≤ maxFramePayloadSize) (rnd : ℕ → ℕ) :
    ∃ s' out, s.writeFrame f rnd = some (⟨f.data.length, none⟩, s') ∧ s'.conn.room = none ∧
      Padded [f] out ∧ (∀ g ∈ out, g.Fits) ∧ s'.conn.sent = s.conn.sent ++ encodeFrames out := by
  have hfits : ∀ g ∈ [f], g.Fits := by
    intro g hg
    rw [mem_singleton] at hg
    subst hg
    exact hsize.trans_lt (by decide)
  obtain ⟨s', out, hwrite, hroom', hpad, hout, hsent⟩ := s.writeConnLocked_padded hroom [f] hfits rnd
  rw [encodeFrames_cons, encodeFrames_nil, append_nil] at hwrite
  refine ⟨s', out, ?_, hroom', hpad, hout, hsent⟩
  simp only [writeFrame, encodedFrameSize, if_neg (Nat.not_lt.mpr hsize), hwrite]
  rfl

theorem dataFrame_eq (j : ℕ) :
    dataFrame sid data (j * maxFramePayloadSize)
        (min maxFramePayloadSize (data.length - j * maxFramePayloadSize)) =
      ⟨cmdPSH, sid, chunk maxFramePayloadSize data j⟩ := by
  rw [dataFrame, take_window]

theorem dataFrames_eq :
    dataFrames sid data =
      (range (chunkCount maxFramePayloadSize data.length)).map fun j =>
        ⟨cmdPSH, sid, chunk maxFramePayloadSize data j⟩ := by
  have hloop := cutLoop_eq_foldl (show 0 < maxFramePayloadSize by decide) data.length
    (fun written size frames => frames ++ [dataFrame sid data written size]) data.length 0 []
    (by omega) (by omega)
  rw [Nat.zero_mul, Nat.min_zero, Nat.sub_zero, ← range_eq_range'] at hloop
  unfold dataFrames
  rw [hloop]
  simp only [dataFrame_eq]
  rw [foldl_append_eq_append, nil_append, ← flatMap_def, ← map_eq_flatMap]

theorem of_mem_dataFrames {sid : UInt32} {data : Bytes} {f : Frame} (h : f ∈ dataFrames sid data) :
    f.cmd = cmdPSH ∧ f.sid = sid ∧ f.data.length ≤ maxFramePayloadSize := by
  rw [dataFrames_eq] at h
  obtain ⟨j, _, rfl⟩ := mem_map.mp h
  exact ⟨rfl, rfl, length_chunk_le _ data j⟩

theorem dataFrames_carry :
    (dataFrames sid data).flatMap Frame.data = data ∧ ∀ f ∈ dataFrames sid data, f.Fits := by
  constructor
  · rw [dataFrames_eq, flatMap_map, flatMap_def]
    exact flatten_chunks (show 0 < maxFramePayloadSize by decide) data
  · intro f hf
    exact (of_mem_dataFrames hf).2.2.trans_lt (by decide)

theorem Session.foldl_writeDataFrame (hroom : s.conn.room = none) (sid : UInt32)
    (data : Bytes) (rnd : ℕ → ℕ → ℕ) (n : ℕ) (hn : n ≤ chunkCount maxFramePayloadSize data.length) :
    ∃ s' out, (range n).foldl
        (fun st j => writeDataFrame sid data rnd (j * maxFramePayloadSize)
          (min maxFramePayloadSize (data.length - j * maxFramePayloadSize)) st)
        (some (⟨0, none⟩, s)) = some (⟨min data.length (n * maxFramePayloadSize), none⟩, s') ∧
      s'.conn.room = none ∧
      Padded ((range n).map fun j => ⟨cmdPSH, sid, chunk maxFramePayloadSize data j⟩) out ∧
      (∀ f ∈ out, f.Fits) ∧ s'.conn.sent = s.conn.sent ++ encodeFrames out := by
  induction n with
  | zero => exact ⟨s, [], by simp, hroom, .nil, by simp, by simp⟩
  | succ n ih =>
    obtain ⟨s₁, out₁, hfold, hroom₁, hpad₁, hfits₁, hsent₁⟩ := ih (by omega)
    have hlt := (lt_chunkCount_iff (show 0 < maxFramePayloadSize by decide) data.length n).mp hn
    obtain ⟨s₂, out₂, hwrite, hroom₂, hpad₂, hfits₂, hsent₂⟩ :=
      s₁.writeFrame_padded hroom₁ ⟨cmdPSH, sid, chunk maxFramePayloadSize data n⟩
        (length_chunk_le _ data n) (rnd (n * maxFramePayloadSize))
    refine ⟨s₂, out₁ ++ out₂, ?_, hroom₂, ?_, ?_, ?_⟩
    · rw [range_succ, foldl_append, hfold]
      simp only [foldl_cons, foldl_nil, writeDataFrame, dataFrame_eq, hwrite]
      have hwritten : n * maxFramePayloadSize +
          min maxFramePayloadSize (data.length - n * maxFramePayloadSize) =
            min data.length ((n + 1) * maxFramePayloadSize) := by
        rw [Nat.succ_mul]
        omega
      simp [hwritten]
    · rw [range_succ, map_append]
      exact hpad₁.append hpad₂
    · intro f hf
      rcases mem_append.mp hf with hmem | hmem
      · exact hfits₁ f hmem
      · exact hfits₂ f hmem
    · rw [hsent₂, hsent₁, encodeFrames_append, append_assoc]

/-- A payload of any length goes out as frames of its stream that carry it in order, with padding
between them, and is reported in full. -/
theorem Session.writeDataFrames_padded (hroom : s.conn.room = none) (sid : UInt32)
    (data : Bytes) (rnd : ℕ → ℕ → ℕ) :
    ∃ s' out, s.writeDataFrames sid data rnd = some (⟨data.length, none⟩, s') ∧
      s'.conn.room = none ∧ Padded (dataFrames sid data) out ∧ (∀ f ∈ out, f.Fits) ∧
      s'.conn.sent = s.conn.sent ++ encodeFrames out := by
  have hk : 0 < maxFramePayloadSize := by decide
  have hloop := cutLoop_eq_foldl hk data.length (writeDataFrame sid data rnd) data.length 0
    (some (⟨0, none⟩, s)) (by omega) (by omega)
  rw [Nat.zero_mul, Nat.min_zero, Nat.sub_zero, ← range_eq_range'] at hloop
  obtain ⟨s', out, hfold, hroom', hpad, hfits, hsent⟩ :=
    s.foldl_writeDataFrame hroom sid data rnd _ le_rfl
  rw [Nat.min_eq_left (le_chunkCount_mul hk data.length)] at hfold
  refine ⟨s', out, hloop.trans hfold, hroom', ?_, hfits, hsent⟩
  rwa [dataFrames_eq]

end Outbound.Anytls
