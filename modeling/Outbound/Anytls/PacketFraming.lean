import Outbound.Anytls.PacketStream

/-! The datagrams of a packet stream on the wire, and as they are read back. -/
namespace Outbound.Anytls

open Lib List BatchItem

/-! ## Sending -/

inductive Send where
  | writeTo (p : Bytes) (addr : String) (rnd : ℕ → ℕ → ℕ)
  | writeBatch (items : List BatchItem) (rnd : ℕ → ℕ)

namespace Send

def datagrams : Send → List Bytes
  | .writeTo p _ _ => [p]
  | .writeBatch items _ => items.map data

def owed : Send → Reply
  | .writeTo p _ _ => ⟨p.length, none⟩
  | .writeBatch items _ => ⟨items.length, none⟩

def Targets (parseAddr : String → Except Error Bytes) (c : Sender) (tgtAddr : Bytes) : Send → Prop
  | .writeTo _ addr _ => parseAddr addr = .ok tgtAddr
  | .writeBatch items _ => ∀ first ∈ items.head?, parseAddr (c.firstAddr first) = .ok tgtAddr

end Send

def Sender.send (parseAddr : String → Except Error Bytes) (c : Sender) :
    Send → Option (Reply × Sender)
  | .writeTo p addr rnd => c.writeTo parseAddr p addr rnd
  | .writeBatch items rnd => c.writeBatch parseAddr items rnd

/-- The bytes of a stream for the given datagrams: the header in front, where it is not out yet. -/
def streamOf (announced : Bool) (tgtAddr : Bytes) (ds : List Bytes) : Bytes :=
  (if announced || ds.isEmpty then [] else [1] ++ tgtAddr) ++ ds.flatMap datagram

def streamBytes (sid : UInt32) (fs : List Frame) : Bytes :=
  (fs.filter fun f => f.cmd == cmdPSH && f.sid == sid).flatMap Frame.data

theorem streamOf_append (announced : Bool) (tgtAddr : Bytes) (ds ds' : List Bytes) :
    streamOf announced tgtAddr (ds ++ ds') =
      streamOf announced tgtAddr ds ++ streamOf (announced || !ds.isEmpty) tgtAddr ds' := by
  cases announced with
  | true => simp [streamOf]
  | false =>
    cases ds with
    | nil => simp [streamOf]
    | cons d ds => simp [streamOf]

@[simp] theorem streamOf_singleton_true (tgtAddr p : Bytes) :
    streamOf true tgtAddr [p] = datagram p := by
  simp [streamOf]

@[simp] theorem streamOf_singleton_false (tgtAddr p : Bytes) :
    streamOf false tgtAddr [p] = connected tgtAddr p := by
  simp [streamOf, connected]

theorem Padded.filter_psh {fs out : List Frame} (h : Padded fs out) (sid : UInt32) :
    out.filter (fun f => f.cmd == cmdPSH && f.sid == sid) =
      fs.filter fun f => f.cmd == cmdPSH && f.sid == sid := by
  induction h with
  | nil => rfl
  | keep f _ ih => rw [filter_cons, filter_cons, ih]
  | waste w hw _ ih =>
    have hnot : (w.cmd == cmdPSH && w.sid == sid) = false := by
      rw [hw]
      rfl
    simp [hnot, ih]

structure Carry (sid : UInt32) (fs : List Frame) (bytes : Bytes) : Prop where
  stream : ∀ f ∈ fs, f.cmd = cmdPSH ∧ f.sid = sid
  bytes : fs.flatMap Frame.data = bytes

variable {sid : UInt32}

theorem Carry.streamBytes_padded {fs out : List Frame} {bytes : Bytes}
    (h : Carry sid fs bytes) (hpad : Padded fs out) : streamBytes sid out = bytes := by
  have hall : fs.filter (fun f => f.cmd == cmdPSH && f.sid == sid) = fs := by
    apply filter_eq_self.mpr
    intro f hf
    obtain ⟨hcmd, hsid⟩ := h.stream f hf
    simp [hcmd, hsid]
  rw [streamBytes, hpad.filter_psh, hall, h.bytes]

theorem Carry.append {fs gs : List Frame} {a b : Bytes} (hf : Carry sid fs a)
    (hg : Carry sid gs b) : Carry sid (fs ++ gs) (a ++ b) where
  stream := by
    intro f hmem
    rcases mem_append.mp hmem with hmem | hmem
    · exact hf.stream f hmem
    · exact hg.stream f hmem
  bytes := by simp [hf.bytes, hg.bytes]

variable (sid)

theorem carry_dataFrames (data : Bytes) : Carry sid (dataFrames sid data) data where
  stream := fun _ hf => ⟨(of_mem_dataFrames hf).1, (of_mem_dataFrames hf).2.1⟩
  bytes := (dataFrames_carry sid data).1

theorem carry_flatMap (datas : List Bytes) :
    Carry sid (datas.flatMap (dataFrames sid)) datas.flatten := by
  induction datas with
  | nil => exact ⟨fun f hf => absurd hf not_mem_nil, rfl⟩
  | cons data datas ih =>
    simpa using (carry_dataFrames sid data).append ih

structure Wrote (s s' : Session) (bytes : Bytes) : Prop where
  room : s'.conn.room = none
  frames : ∃ fs out, Carry sid fs bytes ∧ Padded fs out ∧ (∀ f ∈ out, f.Fits) ∧
    s'.conn.sent = s.conn.sent ++ encodeFrames out

theorem Wrote.refl {s : Session} (hroom : s.conn.room = none) : Wrote sid s s [] where
  room := hroom
  frames := ⟨[], [], ⟨fun _ hf => absurd hf not_mem_nil, rfl⟩, .nil,
    fun _ hf => absurd hf not_mem_nil, (append_nil _).symm⟩

variable {sid}

theorem Wrote.trans {s₁ s₂ s₃ : Session} {a b : Bytes} (h : Wrote sid s₁ s₂ a)
    (h' : Wrote sid s₂ s₃ b) : Wrote sid s₁ s₃ (a ++ b) where
  room := h'.room
  frames := by
    obtain ⟨fs, out, hcarry, hpad, hfits, hsent⟩ := h.frames
    obtain ⟨fs', out', hcarry', hpad', hfits', hsent'⟩ := h'.frames
    refine ⟨fs ++ fs', out ++ out', hcarry.append hcarry', hpad.append hpad', ?_, ?_⟩
    · intro f hmem
      rcases mem_append.mp hmem with hmem | hmem
      · exact hfits f hmem
      · exact hfits' f hmem
    · simp [hsent', hsent, encodeFrames_append]

theorem mapM_encodedFrameSize {fs : List Frame}
    (h : ∀ f ∈ fs, f.data.length ≤ maxFramePayloadSize) :
    ∃ sizes, fs.mapM encodedFrameSize = .ok sizes := by
  induction fs with
  | nil => exact ⟨[], rfl⟩
  | cons f fs ih =>
    obtain ⟨sizes, hsizes⟩ := ih fun g hg => h g (mem_cons_of_mem f hg)
    have hone : encodedFrameSize f = .ok (headerOverHeadSize + f.data.length) :=
      if_neg (Nat.not_lt.mpr (h f mem_cons_self))
    refine ⟨(headerOverHeadSize + f.data.length) :: sizes, ?_⟩
    rw [mapM_cons, hone, hsizes]
    rfl

theorem Session.wrote_writeDataFramesBatch (s : Session) (hroom : s.conn.room = none)
    (sid : UInt32) (datas : List Bytes) (rnd : ℕ → ℕ) :
    ∃ n s', s.writeDataFramesBatch sid datas rnd = some (⟨n, none⟩, s') ∧
      Wrote sid s s' datas.flatten := by
  have hof : ∀ f ∈ datas.flatMap (dataFrames sid), f.data.length ≤ maxFramePayloadSize := by
    intro f hf
    obtain ⟨data, _, hmem⟩ := mem_flatMap.mp hf
    exact (of_mem_dataFrames hmem).2.2
  obtain ⟨sizes, hsizes⟩ := mapM_encodedFrameSize hof
  have hcarry := carry_flatMap sid datas
  unfold writeDataFramesBatch
  dsimp only
  rw [hsizes]
  split_ifs with hempty
  · have hnil : datas.flatten = [] := by
      rw [← hcarry.bytes, isEmpty_iff.mp hempty]
      rfl
    rw [hnil]
    exact ⟨0, s, rfl, .refl sid hroom⟩
  · obtain ⟨s', out, hwrite, hroom', hpad, hfits, hsent⟩ :=
      s.writeConnLocked_padded hroom (datas.flatMap (dataFrames sid))
        (fun f hf => (hof f hf).trans_lt (by decide)) rnd
    rw [hwrite]
    exact ⟨_, s', rfl, hroom', _, out, hcarry, hpad, hfits, hsent⟩

structure Sender.Ready (c : Sender) : Prop where
  room : c.session.conn.room = none
  opened : c.ps.closed = false

def PacketStream.after (ps : PacketStream) (ds : List Bytes) : PacketStream :=
  { ps with udpWriteAddr := ps.udpWriteAddr || !ds.isEmpty }

theorem flatten_batchDatas (tgtAddr : Option Bytes) (items : List BatchItem) :
    (Sender.batchDatas tgtAddr items).flatten =
      streamOf tgtAddr.isNone (tgtAddr.getD []) (items.map data) := by
  cases items with
  | nil => cases tgtAddr <;> rfl
  | cons item items =>
    have htail : (items.map fun item => datagram item.data).flatten =
        (items.map data).flatMap datagram := by
      rw [flatMap_map]
      rfl
    cases tgtAddr with
    | none => simp [Sender.batchDatas, streamOf, htail]
    | some tgtAddr => simp [Sender.batchDatas, streamOf, connected, htail]

variable {ps : PacketStream}

theorem PacketStream.after_of_announced (h : ps.udpWriteAddr = true)
    (ds : List Bytes) : ps.after ds = ps := by
  cases ps
  cases h
  rfl

theorem PacketStream.after_cons (d : Bytes) (ds : List Bytes) :
    ps.after (d :: ds) = { ps with udpWriteAddr := true } := by
  unfold after
  simp

theorem PacketStream.after_nil (ps : PacketStream) : ps.after [] = ps := by
  unfold after
  simp

theorem Sender.finish_some (c : Sender) (n m : ℕ) (s : Session) :
    c.finish n (some (⟨m, none⟩, s)) = some (⟨n, none⟩, ⟨c.ps, s⟩) := rfl

variable {tgtAddr : Bytes} {c : Sender}

section

variable (parseAddr : String → Except Error Bytes)

include parseAddr

theorem Sender.writeTo_wrote (h : c.Ready)
    {p : Bytes} {addr : String} (rnd : ℕ → ℕ → ℕ) (hsize : p.length ≤ maxUDPPayloadSize)
    (hparse : parseAddr addr = .ok tgtAddr) :
    ∃ s', c.writeTo parseAddr p addr rnd = some (⟨p.length, none⟩, ⟨c.ps.after [p], s'⟩) ∧
      Wrote c.ps.id c.session s' (streamOf c.ps.udpWriteAddr tgtAddr [p]) := by
  obtain ⟨s', out, hwrite, hroom, hpad, hfits, hsent⟩ := c.session.writeDataFrames_padded h.room
    c.ps.id (streamOf c.ps.udpWriteAddr tgtAddr [p]) rnd
  refine ⟨s', ?_, hroom, _, out, carry_dataFrames _ _, hpad, hfits, hsent⟩
  unfold writeTo
  rw [h.opened, if_neg Bool.false_ne_true, if_neg (Nat.not_lt.mpr hsize)]
  cases hann : c.ps.udpWriteAddr with
  | true =>
    rw [hann, streamOf_singleton_true] at hwrite
    rw [if_pos rfl, hwrite, finish_some, PacketStream.after_of_announced hann]
  | false =>
    rw [hann, streamOf_singleton_false] at hwrite
    rw [if_neg Bool.false_ne_true, hparse]
    dsimp only
    rw [hwrite, finish_some, PacketStream.after_cons]
    rfl

theorem Sender.writeBatch_wrote (h : c.Ready) {items : List BatchItem} (rnd : ℕ → ℕ)
    (hsize : ∀ item ∈ items, item.data.length ≤ maxUDPPayloadSize)
    (hparse : ∀ first ∈ items.head?, parseAddr (c.firstAddr first) = .ok tgtAddr) :
    ∃ s', c.writeBatch parseAddr items rnd =
        some (⟨items.length, none⟩, ⟨c.ps.after (items.map data), s'⟩) ∧
      Wrote c.ps.id c.session s'
        (streamOf c.ps.udpWriteAddr tgtAddr (items.map data)) := by
  cases items with
  | nil =>
    refine ⟨c.session, ?_, ?_⟩
    · rw [map_nil, PacketStream.after_nil]
      rfl
    · have hnone : streamOf c.ps.udpWriteAddr tgtAddr ([].map data) = [] := by
        simp [streamOf]
      rw [hnone]
      exact .refl c.ps.id h.room
  | cons first items =>
    have hfind : (first :: items).find? (fun item => maxUDPPayloadSize < item.data.length) =
        none := by
      apply find?_eq_none.mpr
      intro item hitem
      simpa using Nat.not_lt.mpr (hsize item hitem)
    have hfirst : parseAddr (c.firstAddr first) = .ok tgtAddr := hparse first rfl
    -- the address stands in front of the first payload when the stream has not announced it
    obtain ⟨n, s', hwrite, hwrote⟩ := c.session.wrote_writeDataFramesBatch h.room c.ps.id
      (batchDatas (if c.ps.udpWriteAddr then none else some tgtAddr) (first :: items)) rnd
    refine ⟨s', ?_, ?_⟩
    · unfold writeBatch
      rw [hfind]
      dsimp only
      rw [h.opened, if_neg Bool.false_ne_true]
      cases hann : c.ps.udpWriteAddr with
      | true =>
        rw [hann, if_pos rfl] at hwrite
        rw [if_pos rfl, hwrite, finish_some, PacketStream.after_of_announced hann]
      | false =>
        rw [hann, if_neg Bool.false_ne_true] at hwrite
        rw [if_neg Bool.false_ne_true, hfirst]
        dsimp only
        rw [hwrite, finish_some, map_cons, PacketStream.after_cons]
        rfl
    · rw [flatten_batchDatas] at hwrote
      cases hann : c.ps.udpWriteAddr with
      | true =>
        rw [hann] at hwrote
        simpa [streamOf] using hwrote
      | false =>
        rw [hann] at hwrote
        simpa [streamOf] using hwrote

theorem Sender.send_wrote (h : c.Ready)
    {call : Send} (hsize : ∀ d ∈ call.datagrams, d.length ≤ maxUDPPayloadSize)
    (htarget : call.Targets parseAddr c tgtAddr) :
    ∃ s', c.send parseAddr call = some (call.owed, ⟨c.ps.after call.datagrams, s'⟩) ∧
      Wrote c.ps.id c.session s' (streamOf c.ps.udpWriteAddr tgtAddr call.datagrams) := by
  cases call with
  | writeTo p addr rnd =>
    exact Sender.writeTo_wrote parseAddr h rnd (hsize p mem_cons_self) htarget
  | writeBatch items rnd =>
    apply Sender.writeBatch_wrote parseAddr h rnd _ htarget
    intro item hitem
    exact hsize item.data (mem_map_of_mem hitem)

end

/-- However datagrams are grouped into calls, the stream carries the header once, in front of them,
and then the datagrams with their lengths. -/
theorem Sender.sends_wrote (parseAddr : String → Except Error Bytes) (h : c.Ready)
    (calls : List Send) (hsize : ∀ call ∈ calls, ∀ d ∈ call.datagrams, d.length ≤ maxUDPPayloadSize)
    (htarget : ∀ call ∈ calls, call.Targets parseAddr c tgtAddr) :
    ∃ c', Run.answersM (Sender.send parseAddr) c calls = some (calls.map Send.owed, c') ∧
      Wrote c.ps.id c.session c'.session
        (streamOf c.ps.udpWriteAddr tgtAddr (calls.flatMap Send.datagrams)) := by
  induction calls generalizing c with
  | nil =>
    refine ⟨c, rfl, ?_⟩
    have hnone : streamOf c.ps.udpWriteAddr tgtAddr (([] : List Send).flatMap Send.datagrams) =
        [] := by simp [streamOf]
    rw [hnone]
    exact .refl c.ps.id h.room
  | cons call calls ih =>
    obtain ⟨s', hsend, hwrote⟩ := Sender.send_wrote parseAddr h
      (hsize call mem_cons_self) (htarget call mem_cons_self)
    obtain ⟨c'', hrun, hwrote'⟩ := @ih ⟨c.ps.after call.datagrams, s'⟩ ⟨hwrote.room, h.opened⟩
      (fun call' hcall' => hsize call' (mem_cons_of_mem call hcall'))
      (fun call' hcall' => htarget call' (mem_cons_of_mem call hcall'))
    refine ⟨c'', ?_, ?_⟩
    · simp [Run.answersM, hsend, hrun]
    · rw [flatMap_cons, streamOf_append]
      exact hwrote.trans hwrote'

end Outbound.Anytls
