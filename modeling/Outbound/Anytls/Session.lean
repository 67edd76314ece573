import Outbound.Anytls.Padding
import Outbound.Lib.Fragments
import Outbound.Lib.Run
import Outbound.Netproxy

/-! Frames of a session and its padded write, which slices what it is given by the sizes of the
padding scheme and puts frames of padding behind it. -/
namespace Outbound.Anytls

open Lib List

def headerOverHeadSize : ℕ := 1 + 4 + 2

def maxFramePayloadSize : ℕ := 32768

def cmdWaste : UInt8 := 0

def cmdPSH : UInt8 := 2

structure Frame where
  cmd : UInt8
  sid : UInt32
  data : Bytes
deriving DecidableEq

variable (f : Frame) (b : Bytes) (fs : List Frame)

def Frame.Fits : Prop := f.data.length < 2 ^ 16

instance : Decidable f.Fits := inferInstanceAs (Decidable (_ < _))

def encodedFrameSize : Except Error ℕ :=
  let dataLen := f.data.length
  if dataLen > maxFramePayloadSize then
    .error (.errorf s!"anytls frame payload too large: {dataLen} > {maxFramePayloadSize}")
  else .ok (headerOverHeadSize + dataLen)

def encodeFrame : Bytes :=
  [f.cmd] ++ (beBytes 4 f.sid.toNat ++ (beBytes 2 f.data.length ++ f.data))

def encodeFrames : Bytes := fs.flatMap encodeFrame

@[simp] theorem encodeFrames_nil : encodeFrames [] = [] := rfl

@[simp] theorem encodeFrames_cons :
    encodeFrames (f :: fs) = encodeFrame f ++ encodeFrames fs := rfl

@[simp] theorem encodeFrames_append (gs : List Frame) :
    encodeFrames (fs ++ gs) = encodeFrames fs ++ encodeFrames gs :=
  flatMap_append

theorem length_encodeFrame : (encodeFrame f).length = headerOverHeadSize + f.data.length := by
  simp only [encodeFrame, headerOverHeadSize, length_append, length_singleton, length_beBytes]
  omega

/-- The frame at the front of a stream, and what follows it; the header is read in full and then
as many bytes as it tells. -/
def readFrame : Option (Frame × Bytes) :=
  if b.length < headerOverHeadSize then none
  else
    let length := beNat ((b.drop 5).take 2)
    let rest := b.drop headerOverHeadSize
    if rest.length < length then none
    else
      some (⟨b.headD 0, .ofNat (beNat ((b.drop 1).take 4)), rest.take length⟩, rest.drop length)

theorem readFrame_encodeFrame (h : f.Fits) (rest : Bytes) :
    readFrame (encodeFrame f ++ rest) = some (f, rest) := by
  have hlen : ¬(encodeFrame f ++ rest).length < headerOverHeadSize := by
    rw [length_append, length_encodeFrame]
    omega
  have hsid : ((encodeFrame f ++ rest).drop 1).take 4 = beBytes 4 f.sid.toNat := by
    show (beBytes 4 f.sid.toNat ++ (beBytes 2 f.data.length ++ f.data) ++ rest).take 4 = _
    simp
  have hfield : (encodeFrame f ++ rest).drop 5 = beBytes 2 f.data.length ++ (f.data ++ rest) := by
    simp only [encodeFrame, ← append_assoc]
    simp
  have hdata : (encodeFrame f ++ rest).drop headerOverHeadSize = f.data ++ rest := by
    rw [show headerOverHeadSize = 5 + 2 from rfl, ← drop_drop, hfield]
    exact drop_left' (length_beBytes 2 _)
  have hlength : beNat (((encodeFrame f ++ rest).drop 5).take 2) = f.data.length := by
    simpa [hfield] using beNat_beBytes_of_lt h
  have hnat : beNat (beBytes 4 f.sid.toNat) = f.sid.toNat := beNat_beBytes_of_lt f.sid.toNat_lt
  unfold readFrame
  rw [if_neg hlen]
  simp only [hlength, hdata, hsid, hnat]
  rw [if_neg (by simp), take_left, drop_left, UInt32.ofNat_toNat]
  rfl

/-- The whole frames a stream is made of; `none` when it ends inside one. -/
def parseFrames : ℕ → Bytes → Option (List Frame)
  | _, [] => some []
  | 0, _ :: _ => none
  | fuel + 1, b =>
    match readFrame b with
    | none => none
    | some (f, rest) => (parseFrames fuel rest).map (f :: ·)

def wholeFrames : Option (List Frame) := parseFrames b.length b

theorem parseFrames_encodeFrames (h : ∀ f ∈ fs, f.Fits) (fuel : ℕ)
    (hfuel : (encodeFrames fs).length ≤ fuel) : parseFrames fuel (encodeFrames fs) = some fs := by
  induction fs generalizing fuel with
  | nil => cases fuel <;> rfl
  | cons f fs ih =>
    rw [encodeFrames_cons, length_append, length_encodeFrame] at hfuel
    have hheader : headerOverHeadSize = 7 := rfl
    obtain ⟨fuel, rfl⟩ : ∃ k, fuel = k + 1 := ⟨fuel - 1, by omega⟩
    have hread := readFrame_encodeFrame f (h f (by simp)) (encodeFrames fs)
    have htail : parseFrames fuel (encodeFrames fs) = some fs :=
      ih (fun g hg => h g (by simp [hg])) fuel (by omega)
    obtain ⟨x, xs, hcons⟩ : ∃ x xs, encodeFrame f ++ encodeFrames fs = x :: xs := ⟨_, _, rfl⟩
    rw [encodeFrames_cons, hcons, parseFrames, ← hcons, hread]
    · simp [htail]
    · simp

theorem wholeFrames_encodeFrames (h : ∀ f ∈ fs, f.Fits) : wholeFrames (encodeFrames fs) = some fs :=
  parseFrames_encodeFrames fs h _ le_rfl

/-- `fillWasteFrame` over a slice of `size` bytes. -/
def fillWasteFrame (size payloadLen : ℕ) : Bytes :=
  [cmdWaste] ++
    (beBytes 4 0 ++ (beBytes 2 payloadLen ++ replicate (size - headerOverHeadSize) 0))

def wasteFrame (payloadLen : ℕ) : Frame := ⟨cmdWaste, 0, replicate payloadLen 0⟩

/-- The connection under a session: what it was given, and how many more bytes it takes before its
writes fail with `failure`; `none` for one that does not fail. -/
structure Conn where
  sent : Bytes
  room : Option ℕ
  failure : Error

structure Written where
  n : ℕ
  err : Option Error
  conn : Conn

def Conn.writeFull (c : Conn) (b : Bytes) : Written :=
  match c.room with
  | none => ⟨b.length, none, { c with sent := c.sent ++ b }⟩
  | some r =>
    if b.length ≤ r then
      ⟨b.length, none, { c with sent := c.sent ++ b, room := some (r - b.length) }⟩
    else ⟨r, some c.failure, { c with sent := c.sent ++ b.take r, room := some 0 }⟩

theorem Conn.writeFull_cases (c : Conn) (b : Bytes) :
    ((c.writeFull b).err = none ∧ (c.writeFull b).n = b.length ∧
        (c.writeFull b).conn.sent = c.sent ++ b ∧
        (c.room = none → (c.writeFull b).conn.room = none)) ∨
      (∃ err, (c.writeFull b).err = some err ∧ (c.writeFull b).n < b.length ∧
        (c.writeFull b).conn.sent = c.sent ++ b.take (c.writeFull b).n ∧ c.room ≠ none) := by
  unfold writeFull
  cases hroom : c.room with
  | none => exact .inl ⟨rfl, rfl, rfl, fun _ => rfl⟩
  | some r =>
    by_cases hfits : b.length ≤ r
    · simp [hfits]
    · dsimp only
      rw [if_neg hfits]
      exact .inr ⟨c.failure, rfl, Nat.lt_of_not_le hfits, rfl, by simp⟩

theorem Conn.writeFull_n_le (c : Conn) (b : Bytes) : (c.writeFull b).n ≤ b.length := by
  rcases c.writeFull_cases b with ⟨_, hn, _⟩ | ⟨_, _, hn, _⟩ <;> omega

structure Progress where
  b : Bytes
  n : ℕ
  conn : Conn

/-- How a round of the loop ends: with the next one, with a `break`, or with an error. -/
inductive Round where
  | next (p : Progress)
  | stop (p : Progress)
  | fail (n : ℕ) (err : Error) (conn : Conn)

def advance (w : Written) (n : ℕ) (b : Bytes) : Round :=
  match w.err with
  | none => .next ⟨b, n, w.conn⟩
  | some err => .fail n err w.conn

/-- The round for one size; `none` is the panic of a slice with a negative bound. -/
def padRound (l : ℤ) (p : Progress) : Option Round :=
  let remainPayloadLen := p.b.length
  if l = checkMark then
    if remainPayloadLen = 0 then some (.stop p) else some (.next p)
  else if (remainPayloadLen : ℤ) > l then
    -- this packet is all payload
    if l < 0 then none
    else
      let w := p.conn.writeFull (p.b.take l.toNat)
      some (advance w (p.n + w.n) (p.b.drop l.toNat))
  else if remainPayloadLen > 0 then
    -- this packet contains padding and the last part of payload
    let paddingLen := l - remainPayloadLen - headerOverHeadSize
    if paddingLen > 0 then
      let paddingLen := (min paddingLen maxFramePayloadSize).toNat
      let combined := p.b ++ fillWasteFrame (headerOverHeadSize + paddingLen) paddingLen
      let w := p.conn.writeFull combined
      some (advance w (p.n + min w.n remainPayloadLen) [])
    else
      let w := p.conn.writeFull p.b
      some (advance w (p.n + w.n) [])
  else
    -- this packet is all padding
    let l := (min l maxFramePayloadSize).toNat
    let w := p.conn.writeFull (fillWasteFrame (headerOverHeadSize + l) l)
    some (advance w p.n [])

def padLoop : List ℤ → Progress → Option Round
  | [], p => some (.stop p)
  | l :: pktSizes, p =>
    match padRound l p with
    | some (.next p') => padLoop pktSizes p'
    | r => r

structure Session where
  sendPadding : Bool
  pktCounter : UInt32
  padding : PaddingFactory
  conn : Conn

structure Reply where
  n : ℕ
  err : Option Error
deriving DecidableEq

namespace Session

def writeRest (s : Session) (c : Conn) (n : ℕ) (b : Bytes) : Reply × Session :=
  let w := c.writeFull b
  (⟨n + w.n, w.err⟩, { s with conn := w.conn })

def afterLoop (s : Session) : Round → Reply × Session
  | .fail n err conn => (⟨n, some err⟩, { s with conn })
  | .next p | .stop p =>
    if p.b.length = 0 then (⟨p.n, none⟩, { s with conn := p.conn })
    else s.writeRest p.conn p.n p.b

/-- The padded write; `rnd` are the draws of its random sizes, and `none` is a panic. -/
def writeConnLocked (s : Session) (b : Bytes) (rnd : ℕ → ℕ) : Option (Reply × Session) :=
  if s.sendPadding then
    let pkt := s.pktCounter + 1
    let s := { s with pktCounter := pkt }
    if pkt < s.padding.stop then
      match s.padding.generateRecordPayloadSizes pkt rnd with
      | none => none
      | some pktSizes => (padLoop pktSizes ⟨b, 0, s.conn⟩).map s.afterLoop
    else some ({ s with sendPadding := false }.writeRest s.conn 0 b)
  else some (s.writeRest s.conn 0 b)

end Session

def Wastes (ws : List Frame) : Prop := ∀ w ∈ ws, w.cmd = cmdWaste ∧ w.Fits

theorem wastes_nil : Wastes [] := by simp [Wastes]

theorem Wastes.append {ws ws' : List Frame} (h : Wastes ws) (h' : Wastes ws') :
    Wastes (ws ++ ws') := by
  intro w hw
  rcases mem_append.mp hw with hmem | hmem
  · exact h w hmem
  · exact h' w hmem

theorem wastes_wasteFrame (l : ℤ) : Wastes [wasteFrame (min l maxFramePayloadSize).toNat] := by
  intro w hw
  rw [mem_singleton] at hw
  subst hw
  refine ⟨rfl, ?_⟩
  have hmax : maxFramePayloadSize = 32768 := rfl
  show (replicate _ _).length < 2 ^ 16
  rw [length_replicate]
  omega

/-- The loop has written a front of the input, and behind the whole input frames of padding. -/
structure Ahead (input : Bytes) (c : Conn) (p : Progress) : Prop where
  parts : ∃ front ws, input = front ++ p.b ∧ p.n = front.length ∧ Wastes ws ∧
    p.conn.sent = c.sent ++ (front ++ encodeFrames ws) ∧ (ws ≠ [] → p.b = [])
  room : c.room = none → p.conn.room = none

/-- A failed write has sent a front of the input with its padding, and reports how much of the input
is in it. -/
structure Cut (input : Bytes) (c : Conn) (n : ℕ) (conn : Conn) : Prop where
  parts : ∃ sent ws, Wastes ws ∧ conn.sent = c.sent ++ sent ∧
    sent <+: input ++ encodeFrames ws ∧ n = min sent.length input.length
  room : c.room ≠ none

def Round.Good (input : Bytes) (c : Conn) : Round → Prop
  | .next p | .stop p => Ahead input c p
  | .fail n _ conn => Cut input c n conn

variable {input : Bytes} {p : Progress} {c : Conn}

theorem advance_good (h : Ahead input c p)
    {x b : Bytes} (hx : p.b = x ++ b) {ws : List Frame} (hws : Wastes ws) (hb : ws ≠ [] → b = [])
    {n : ℕ} (hn : n = p.n + min (p.conn.writeFull (x ++ encodeFrames ws)).n x.length) :
    (advance (p.conn.writeFull (x ++ encodeFrames ws)) n b).Good input c := by
  obtain ⟨front, ws₀, hinput, hfront, hws₀, hsent, hempty⟩ := h.parts
  have hxb : ws₀ ≠ [] → x = [] ∧ b = [] := fun hne =>
    append_eq_nil_iff.mp (hx.symm.trans (hempty hne))
  have hall : ws₀ ++ ws ≠ [] → b = [] := by
    intro hne
    by_cases hnil : ws = []
    · exact (hxb (by simpa [hnil] using hne)).2
    · exact hb hnil
  -- The padding in front of `x` is empty, or `x` is.
  have hmid : encodeFrames ws₀ ++ (x ++ encodeFrames ws) = x ++ encodeFrames (ws₀ ++ ws) := by
    by_cases hnil : ws₀ = []
    · simp [hnil]
    · simp [(hxb hnil).1]
  rcases p.conn.writeFull_cases (x ++ encodeFrames ws) with
    ⟨herr, hwn, hwsent, hroom⟩ | ⟨err, herr, hwn, hwsent, hroom⟩
  · rw [advance, herr]
    constructor
    · refine ⟨front ++ x, ws₀ ++ ws, ?_, ?_, hws₀.append hws, ?_, hall⟩
      · simp [hinput, hx]
      · show n = (front ++ x).length
        rw [hn, hwn, hfront, length_append, length_append]
        omega
      · simp [hwsent, hsent, hmid]
    · exact fun hc => hroom (h.room hc)
  · rw [advance, herr]
    generalize (p.conn.writeFull (x ++ encodeFrames ws)).n = k at hn hwn hwsent
    constructor
    · refine ⟨front ++ (encodeFrames ws₀ ++ (x ++ encodeFrames ws).take k), ws₀ ++ ws,
        hws₀.append hws, ?_, ?_, ?_⟩
      · simp [hwsent, hsent]
      · have hcut : encodeFrames ws₀ ++ (x ++ encodeFrames ws).take k <+:
            x ++ encodeFrames (ws₀ ++ ws) := by
          rw [← hmid]
          exact (prefix_append_right_inj _).mpr (List.take_prefix _ _)
        have hrest : x ++ encodeFrames (ws₀ ++ ws) <+: x ++ (b ++ encodeFrames (ws₀ ++ ws)) := by
          by_cases hnil : ws₀ ++ ws = []
          · simp [hnil]
          · simp [hall hnil]
        rw [hinput, hx, append_assoc, append_assoc]
        exact (prefix_append_right_inj _).mpr (hcut.trans hrest)
      · have hlen₀ : (encodeFrames ws₀).length = 0 ∨ (x.length = 0 ∧ b.length = 0) := by
          by_cases hnil : ws₀ = []
          · simp [hnil]
          · simp [hxb hnil]
        have hlen : (encodeFrames ws).length = 0 ∨ b.length = 0 := by
          by_cases hnil : ws = []
          · simp [hnil]
          · simp [hb hnil]
        rw [hn, hfront, hinput, hx]
        simp only [length_append, length_take]
        omega
    · exact fun hc => hroom (h.room hc)

theorem advance_plain_good (h : Ahead input c p) {x b : Bytes} (hx : p.b = x ++ b) :
    (advance (p.conn.writeFull x) (p.n + (p.conn.writeFull x).n) b).Good input c := by
  have hgood := advance_good h hx wastes_nil (fun hne => absurd rfl hne) rfl
  rwa [encodeFrames_nil, append_nil, Nat.min_eq_left (p.conn.writeFull_n_le x)] at hgood

theorem padRound_good (h : Ahead input c p) {l : ℤ}
    (hl : GoodSize l) : ∃ r, padRound l p = some r ∧ r.Good input c := by
  unfold padRound
  by_cases hmark : l = checkMark
  · by_cases hdone : p.b.length = 0
    · exact ⟨.stop p, by simp [hmark, hdone], h⟩
    · exact ⟨.next p, by simp [hmark, hdone], h⟩
  have hpos : 0 < l := hl.resolve_left hmark
  have hfill (n : ℕ) : fillWasteFrame (headerOverHeadSize + n) n = encodeFrame (wasteFrame n) := by
    simp [fillWasteFrame, encodeFrame, wasteFrame]
  simp only [if_neg hmark, hfill]
  split_ifs with hmore hneg hsome hpad
  · omega
  · exact ⟨_, rfl, advance_plain_good h (take_append_drop l.toNat p.b).symm⟩
  · refine ⟨_, rfl, ?_⟩
    have hgood := advance_good h (append_nil p.b).symm
      (wastes_wasteFrame (l - p.b.length - headerOverHeadSize)) (fun _ => rfl) rfl
    rwa [encodeFrames_cons, encodeFrames_nil, append_nil] at hgood
  · exact ⟨_, rfl, advance_plain_good h (append_nil p.b).symm⟩
  · have hnil : p.b = [] ++ [] := eq_nil_of_length_eq_zero (by omega)
    refine ⟨_, rfl, ?_⟩
    have hgood := advance_good h hnil (wastes_wasteFrame l) (fun _ => rfl) rfl
    rwa [encodeFrames_cons, encodeFrames_nil, append_nil, nil_append, length_nil,
      Nat.min_zero, Nat.add_zero] at hgood

theorem padLoop_good (pktSizes : List ℤ)
    (hsizes : ∀ l ∈ pktSizes, GoodSize l) (h : Ahead input c p) :
    ∃ r, padLoop pktSizes p = some r ∧ r.Good input c := by
  induction pktSizes generalizing p with
  | nil => exact ⟨.stop p, rfl, h⟩
  | cons l pktSizes ih =>
    obtain ⟨r, hr, hgood⟩ := padRound_good h (hsizes l (by simp))
    rw [padLoop, hr]
    cases r with
    | next p' => exact ih (fun l' hl' => hsizes l' (by simp [hl'])) hgood
    | _ => exact ⟨_, rfl, hgood⟩

/-- What a padded write of `b` does to the connection and reports: a front of the input with padding
behind it is sent, all of it unless an error is reported, and the bytes of the input in it are
counted. -/
structure Outcome (c : Conn) (b : Bytes) (r : Reply) (c' : Conn) : Prop where
  parts : ∃ sent ws, Wastes ws ∧ c'.sent = c.sent ++ sent ∧ sent <+: b ++ encodeFrames ws ∧
    (r.err = none → sent = b ++ encodeFrames ws) ∧ r.n = min sent.length b.length
  room : c.room = none → r.err = none ∧ c'.room = none

theorem Ahead.outcome (h : Ahead input c p)
    (hdone : p.b = []) : Outcome c input ⟨p.n, none⟩ p.conn := by
  obtain ⟨front, ws, hinput, hn, hws, hsent, _⟩ := h.parts
  rw [hdone, append_nil] at hinput
  subst hinput
  constructor
  · refine ⟨input ++ encodeFrames ws, ws, hws, hsent, prefix_rfl, fun _ => rfl, ?_⟩
    show p.n = _
    rw [hn, length_append]
    omega
  · exact fun hc => ⟨rfl, h.room hc⟩

theorem Cut.outcome {conn : Conn} {n : ℕ} (h : Cut input c n conn) (err : Error) :
    Outcome c input ⟨n, some err⟩ conn := by
  obtain ⟨sent, ws, hws, hsent, hfront, hn⟩ := h.parts
  constructor
  · refine ⟨sent, ws, hws, hsent, hfront, ?_, hn⟩
    intro hnone
    cases hnone
  · exact fun hc => absurd hc h.room

namespace Session

variable (s : Session)

theorem writeRest_outcome {input : Bytes} {c : Conn} {p : Progress} (h : Ahead input c p) :
    Outcome c input (s.writeRest p.conn p.n p.b).1 (s.writeRest p.conn p.n p.b).2.conn := by
  have hgood := advance_plain_good h (append_nil p.b).symm
  unfold writeRest
  dsimp only
  cases herr : (p.conn.writeFull p.b).err with
  | none =>
    rw [advance, herr] at hgood
    exact hgood.outcome rfl
  | some err =>
    rw [advance, herr] at hgood
    exact hgood.outcome err

theorem afterLoop_outcome {input : Bytes} {c : Conn} {r : Round}
    (h : r.Good input c) : Outcome c input (s.afterLoop r).1 (s.afterLoop r).2.conn := by
  -- The loop leaves off the same way by its last size and by a check mark.
  have hend : ∀ p, Ahead input c p →
      Outcome c input (s.afterLoop (.stop p)).1 (s.afterLoop (.stop p)).2.conn := by
    intro p hp
    rw [afterLoop]
    split_ifs with hdone
    · exact hp.outcome (eq_nil_of_length_eq_zero hdone)
    · exact s.writeRest_outcome hp
  cases r with
  | next p => exact hend p h
  | stop p => exact hend p h
  | fail n err conn => exact h.outcome err

theorem padding_afterLoop (r : Round) : (s.afterLoop r).2.padding = s.padding := by
  cases r with
  | fail n err conn => rfl
  | _ => simp only [afterLoop]; split_ifs <;> rfl

theorem writeConnLocked_outcome (b : Bytes) (rnd : ℕ → ℕ) :
    ∃ r s', s.writeConnLocked b rnd = some (r, s') ∧ Outcome s.conn b r s'.conn ∧
      s'.padding = s.padding := by
  have hstart : Ahead b s.conn ⟨b, 0, s.conn⟩ :=
    ⟨⟨[], [], rfl, rfl, wastes_nil, by simp, fun hne => absurd rfl hne⟩, fun h => h⟩
  unfold writeConnLocked
  split_ifs with hsend
  · dsimp only
    split_ifs with hstop
    · obtain ⟨sizes, hsizes, hall⟩ :=
        s.padding.exists_generateRecordPayloadSizes (s.pktCounter + 1) rnd
      obtain ⟨r, hr, hgood⟩ := padLoop_good sizes hall hstart
      rw [hsizes]
      dsimp only
      rw [hr]
      exact ⟨_, _, rfl, afterLoop_outcome _ hgood, padding_afterLoop _ r⟩
    · exact ⟨_, _, rfl, writeRest_outcome _ hstart, rfl⟩
  · exact ⟨_, _, rfl, writeRest_outcome s hstart, rfl⟩

end Session

end Outbound.Anytls
