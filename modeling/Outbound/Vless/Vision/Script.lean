import Outbound.Vless.Vision.Conn

/-! What a Vision writer has put on the wire, as a sequence of frames with a tail, and that every
write extends it by its payload. -/
namespace Outbound.Vless.Vision

open Lib List Bool

structure Piece where
  content : Bytes
  pad : Bytes
  content_le : content.length ≤ 65535
  pad_le : pad.length ≤ 65535

/-- How a stream goes on after its frames: not at all yet, without frames inside the outer TLS, or
beside it. -/
inductive Tail where
  | more
  | ended (p : Piece) (rest : Bytes)
  | direct (p : Piece) (rest : Bytes)

structure Script where
  frames : List Piece
  tail : Tail

namespace Tail

def overlay (userUUID : Bytes) : Tail → Bytes
  | more => []
  | ended p rest => frame userUUID commandPaddingEnd p.content p.pad ++ rest
  | direct p _ => frame userUUID commandPaddingDirect p.content p.pad

def beside : Tail → Bytes
  | more => []
  | ended _ _ => []
  | direct _ rest => rest

def payload : Tail → Bytes
  | more => []
  | ended p rest => p.content ++ rest
  | direct p rest => p.content ++ rest

def last (direct : Bool) (p : Piece) : Tail := if direct then .direct p [] else .ended p []

end Tail

namespace Script

def idFor (userUUID : Octets 16) (first : Bool) : Bytes := if first then userUUID.1 else []

def overlayFrom (userUUID : Octets 16) (tail : Tail) : Bool → List Piece → Bytes
  | first, [] => tail.overlay (idFor userUUID first)
  | first, p :: ps =>
    frame (idFor userUUID first) commandPaddingContinue p.content p.pad ++
      overlayFrom userUUID tail false ps

def overlay (userUUID : Octets 16) (first : Bool) (s : Script) : Bytes :=
  overlayFrom userUUID s.tail first s.frames

def beside (s : Script) : Bytes := s.tail.beside

def payload (s : Script) : Bytes := (s.frames.map Piece.content).flatten ++ s.tail.payload

variable (userUUID : Octets 16) (tail : Tail) (first : Bool) (ps : List Piece)

theorem overlayFrom_eq :
    overlayFrom userUUID tail first ps =
      overlayFrom userUUID .more first ps ++
        tail.overlay (idFor userUUID (first && ps.isEmpty)) := by
  induction ps generalizing first with
  | nil => simp [overlayFrom, Tail.overlay]
  | cons p ps ih =>
    rw [overlayFrom, overlayFrom, ih false, append_assoc]
    simp [idFor]

theorem overlayFrom_concat (p : Piece) :
    overlayFrom userUUID .more first (ps ++ [p]) =
      overlayFrom userUUID .more first ps ++
        frame (idFor userUUID (first && ps.isEmpty)) commandPaddingContinue p.content p.pad := by
  induction ps generalizing first with
  | nil => simp [overlayFrom, Tail.overlay]
  | cons q ps ih =>
    rw [cons_append, overlayFrom, overlayFrom, ih false, append_assoc]
    simp [idFor]

theorem length_frames_le : ps.length ≤ (overlayFrom userUUID tail first ps).length := by
  induction ps generalizing first with
  | nil => simp
  | cons p ps ih =>
    have htail := ih false
    rw [overlayFrom, length_append, length_cons]
    simp only [frame, length_append, length_cons]
    omega

end Script

def overlayBytes : List Emission → Bytes
  | [] => []
  | .overlay b :: es => b ++ overlayBytes es
  | .direct _ :: es => overlayBytes es

def directBytes : List Emission → Bytes
  | [] => []
  | .overlay _ :: es => directBytes es
  | .direct b :: es => b ++ directBytes es

theorem overlayBytes_append (es fs : List Emission) :
    overlayBytes (es ++ fs) = overlayBytes es ++ overlayBytes fs := by
  induction es with
  | nil => rfl
  | cons e es ih => cases e <;> simp [overlayBytes, ih]

theorem directBytes_append (es fs : List Emission) :
    directBytes (es ++ fs) = directBytes es ++ directBytes fs := by
  induction es with
  | nil => rfl
  | cons e es ih => cases e <;> simp [directBytes, ih]

def pieceOf (p : Bytes) (hp : p.length ≤ 65535) (long : Bool) (draw : Draw) : Piece where
  content := p
  pad := (range (paddingLen p.length long draw)).map draw.bytes
  content_le := hp
  pad_le := by
    rw [length_map, length_range, paddingLen]
    split_ifs <;> omega

theorem reshapeIndex_bounds (b : Bytes) :
    paddingHeaderLen ≤ reshapeIndex b ∧ reshapeIndex b ≤ bufferSize - paddingHeaderLen := by
  unfold reshapeIndex
  split
  · decide
  · split_ifs with h
    · decide
    · exact ⟨by omega, by omega⟩

theorem reshapeBytes_spec (b : Bytes) :
    (reshapeBytes b).1 ++ (reshapeBytes b).2.getD [] = b ∧ (reshapeBytes b).1.length ≤ 65535 := by
  obtain ⟨hlow, hhigh⟩ := reshapeIndex_bounds b
  unfold bufferSize at hhigh
  unfold reshapeBytes
  split_ifs with hlen
  · unfold bufferSize at hlen
    refine ⟨append_nil b, ?_⟩
    show b.length ≤ 65535
    omega
  · refine ⟨take_append_drop _ b, ?_⟩
    rw [length_take]
    omega

section Extends

variable (userUUID : Octets 16) (ps : List Piece) (pc : Piece) (rest p : Bytes)

/-- The emissions `es` take the stream `s` to `s'`, which carries `p` more. -/
structure Extends (s s' : Script) (es : List Emission) (p : Bytes) : Prop where
  overlay : s'.overlay userUUID true = s.overlay userUUID true ++ overlayBytes es
  beside : s'.beside = s.beside ++ directBytes es
  payload : s'.payload = s.payload ++ p

namespace Extends

theorem refl (s : Script) : Extends userUUID s s [] [] :=
  ⟨(append_nil _).symm, (append_nil _).symm, (append_nil _).symm⟩

variable {userUUID} in
theorem trans {s s' s'' : Script} {es fs : List Emission} {p q : Bytes}
    (h : Extends userUUID s s' es p) (h' : Extends userUUID s' s'' fs q) :
    Extends userUUID s s'' (es ++ fs) (p ++ q) where
  overlay := by simp [h'.overlay, h.overlay, overlayBytes_append]
  beside := by simp [h'.beside, h.beside, directBytes_append]
  payload := by simp [h'.payload, h.payload]

theorem frame (hp : p.length ≤ 65535) (long : Bool) (draw : Draw) :
    Extends userUUID ⟨ps, .more⟩ ⟨ps ++ [pieceOf p hp long draw], .more⟩
      [.overlay (applyPadding p commandPaddingContinue (Script.idFor userUUID ps.isEmpty) long draw)]
      p where
  overlay := by
    simp only [Script.overlay, Script.overlayFrom_concat, Bool.true_and, overlayBytes, append_nil]
    rfl
  beside := rfl
  payload := by simp [Script.payload, Tail.payload, pieceOf]

theorem last (direct : Bool) (ps : List Piece) (hps : ps ≠ []) (p : Bytes) (hp : p.length ≤ 65535)
    (long : Bool) (draw : Draw) :
    Extends userUUID ⟨ps, .more⟩ ⟨ps, .last direct (pieceOf p hp long draw)⟩
      [.overlay (applyPadding p (Writer.endCommand direct) [] long draw)] p where
  overlay := by
    simp only [Script.overlay, overlayBytes, append_nil]
    rw [Script.overlayFrom_eq]
    cases direct <;>
      simp [Script.idFor, hps, Tail.last, Tail.overlay, applyPadding, pieceOf, Writer.endCommand]
  beside := by cases direct <;> rfl
  payload := by cases direct <;> simp [Script.payload, Tail.last, Tail.payload, pieceOf]

theorem append_ended :
    Extends userUUID ⟨ps, .ended pc rest⟩ ⟨ps, .ended pc (rest ++ p)⟩ [.overlay p] p where
  overlay := by
    simp only [Script.overlay]
    rw [Script.overlayFrom_eq, Script.overlayFrom_eq userUUID (.ended pc rest)]
    simp [Tail.overlay, overlayBytes]
  beside := rfl
  payload := by simp [Script.payload, Tail.payload]

theorem append_direct :
    Extends userUUID ⟨ps, .direct pc rest⟩ ⟨ps, .direct pc (rest ++ p)⟩ [.direct p] p where
  overlay := by
    simp only [Script.overlay]
    rw [Script.overlayFrom_eq, Script.overlayFrom_eq userUUID (.direct pc rest)]
    simp [Tail.overlay, overlayBytes]
  beside := by simp [Script.beside, Tail.beside, directBytes]
  payload := by simp [Script.payload, Tail.payload]

end Extends

end Extends

/-- The state of a writer that has emitted the stream `s`. -/
inductive Writer.Follows (w : Writer) : Script → Prop
  | framing {ps : List Piece} (hfilter : w.writeFilterApplicationData = true)
      (hto : w.toWriteDirect = false) (hdirect : w.writeDirect = false)
      (hneed : w.needHandshake = ps.isEmpty) : Follows w ⟨ps, .more⟩
  | ended {ps : List Piece} {p : Piece} {rest : Bytes}
      (hfilter : w.writeFilterApplicationData = false) (hdirect : w.writeDirect = false)
      (hneed : w.needHandshake = false) : Follows w ⟨ps, .ended p rest⟩
  | direct {ps : List Piece} {p : Piece} {rest : Bytes}
      (hfilter : w.writeFilterApplicationData = false) (hdirect : w.writeDirect = true)
      (hneed : w.needHandshake = false) : Follows w ⟨ps, .direct p rest⟩

/-- A call takes a writer that has emitted `s` to one that has emitted `p` more, without an error. -/
def Writer.Carries (w : Writer) (s : Script) (p : Bytes) (r : Wrote × Writer) : Prop :=
  r.1.err = none ∧ r.2.userUUID = w.userUUID ∧ r.2.outer = w.outer ∧
    ∃ s', r.2.Follows s' ∧ Extends w.userUUID s s' r.1.emitted p

/-- The second piece of a write goes out without a frame: the payload is not TLS, or it is of an old
version and the sniffer is done with it. -/
def Filter.LeavesSecond (f : Filter) (isCompleteAppData : Bool) (p : Bytes) : Prop :=
  f.isTLS = false ∨ (isCompleteAppData && startsWithAppData p) = false ∧
    f.isTLS12orAbove = false ∧ f.packetsToFilter ≤ 1

namespace Writer

section Framing

variable {w : Writer} {ps : List Piece}

theorem emit_of_writeDirect_false (hdirect : w.writeDirect = false) (b : Bytes) :
    w.emit b = .overlay b := by
  simp [emit, hdirect]

theorem follows_last {direct : Bool} (hfilter : w.writeFilterApplicationData = false)
    (hdirect : w.writeDirect = direct) (hneed : w.needHandshake = false) (pc : Piece) :
    w.Follows ⟨ps, .last direct pc⟩ := by
  cases direct with
  | false => exact .ended hfilter hdirect hneed
  | true => exact .direct hfilter hdirect hneed

variable {r : Wrote × Writer}

theorem switch_follows_last {direct : Bool}
    (hfilter : r.2.writeFilterApplicationData = false) (hto : r.2.toWriteDirect = direct)
    (hdirect : r.2.writeDirect = false) (hneed : r.2.needHandshake = false) (pc : Piece) :
    (switch r).2.Follows ⟨ps, .last direct pc⟩ := by
  unfold switch
  rw [hto]
  cases direct with
  | false => exact follows_last hfilter hdirect hneed pc
  | true => exact follows_last (w := { r.2 with writeDirect := true }) hfilter rfl hneed pc

variable (r)

@[simp] theorem userUUID_switch : (switch r).2.userUUID = r.2.userUUID := by
  unfold switch
  split_ifs <;> rfl

@[simp] theorem outer_switch : (switch r).2.outer = r.2.outer := by
  unfold switch
  split_ifs <;> rfl

variable {r}

theorem switch_eq_self (hto : r.2.toWriteDirect = false) : switch r = r := by
  unfold switch
  rw [hto]
  rfl

theorem writeHandshake_carries (p : Bytes) (c : Chance) (hp : p.length ≤ 65535)
    (houter : w.outer = .tls13) (hfilter : w.writeFilterApplicationData = true)
    (hto : w.toWriteDirect = false) (hdirect : w.writeDirect = false) :
    w.Carries ⟨[], .more⟩ p (w.writeHandshake p c) := by
  have hcarry (f : Filter) (long : Bool) : w.Carries ⟨[], .more⟩ p
      (⟨[w.emit (applyPadding p commandPaddingContinue w.userUUID.1 long c.draw₁)], w.outerError⟩,
        { w with needHandshake := false, filter := f }) := by
    rw [emit_of_writeDirect_false hdirect]
    exact ⟨by simp [outerError, houter], rfl, rfl, _, .framing hfilter hto hdirect rfl,
      Extends.frame w.userUUID [] p hp long c.draw₁⟩
  unfold writeHandshake
  by_cases hlen : p.length = 0
  · simp only [hlen, if_true]
    exact hcarry w.filter true
  · simp only [hlen, if_false]
    exact hcarry _ _

variable (hps : ps ≠ []) (hfilter : w.writeFilterApplicationData = true)
  (hto : w.toWriteDirect = false) (hdirect : w.writeDirect = false)
  (hneed : w.needHandshake = false)

include hps hfilter hto hdirect hneed

theorem writeOne_carries (sn : FilterSnapshot) (complete : Bool) (p : Bytes) (c : Chance)
    (hp : p.length ≤ 65535) : w.Carries ⟨ps, .more⟩ p (switch (w.writeOne sn complete p c)) := by
  have hlast := fun direct long => Extends.last w.userUUID direct ps hps p hp long c.draw₁
  have hframe := Extends.frame w.userUUID ps p hp sn.isTLS c.draw₁
  rw [isEmpty_eq_false_iff.mpr hps] at hframe
  unfold writeOne
  simp only [emit_of_writeDirect_false hdirect]
  split_ifs with hcomplete hlegacy
  · exact ⟨rfl, userUUID_switch _, outer_switch _,
      ⟨ps, .last sn.enableXTLS (pieceOf p hp true c.draw₁)⟩,
      switch_follows_last rfl rfl hdirect hneed _, hlast _ _⟩
  · rw [switch_eq_self hto]
    exact ⟨rfl, rfl, rfl, ⟨ps, .last false (pieceOf p hp sn.isTLS c.draw₁)⟩,
      .ended rfl hdirect hneed, hlast false _⟩
  · rw [switch_eq_self hto]
    exact ⟨rfl, rfl, rfl, ⟨ps ++ [pieceOf p hp sn.isTLS c.draw₁], .more⟩,
      .framing hfilter hto hdirect (by simp [hneed]), hframe⟩

theorem writeTwo_carries (f : Filter) (complete : Bool) (p p2 : Bytes) (c : Chance)
    (hp : p.length ≤ 65535) (htls : f.isTLS = true)
    (hp2 : p2.length ≤ 65535 ∨ f.LeavesSecond complete p) :
    w.Carries ⟨ps, .more⟩ (p ++ p2) (switch (w.writeTwo f.snapshot complete p p2 c)) := by
  have hframe := fun long => Extends.frame w.userUUID ps p hp long c.draw₁
  rw [isEmpty_eq_false_iff.mpr hps] at hframe
  unfold writeTwo
  simp only [emit_of_writeDirect_false hdirect]
  split_ifs with hcomplete hlegacy
  · have hp2 : p2.length ≤ 65535 :=
      hp2.resolve_right (by simp [Filter.LeavesSecond, htls, hcomplete])
    have hlast := Extends.last w.userUUID f.enableXTLS (ps ++ [pieceOf p hp true c.draw₁])
      (by simp) p2 hp2 (startsWithAppData p2) c.draw₂
    exact ⟨rfl, userUUID_switch _, outer_switch _, _, switch_follows_last rfl rfl hdirect hneed _,
      (hframe true).trans hlast⟩
  · have hlast := Extends.last w.userUUID false ps hps p hp f.isTLS c.draw₁
    rw [switch_eq_self hto]
    exact ⟨rfl, rfl, rfl, _, .ended rfl hdirect hneed,
      hlast.trans (Extends.append_ended w.userUUID ps _ [] p2)⟩
  · have hp2 : p2.length ≤ 65535 := by
      apply hp2.resolve_right
      rintro (hno | ⟨_, hlow, hpackets⟩)
      · simp [htls] at hno
      · exact hlegacy ⟨by simp [Filter.snapshot, hlow], hpackets⟩
    have hnext := Extends.frame w.userUUID (ps ++ [pieceOf p hp f.isTLS c.draw₁]) p2 hp2 f.isTLS
      c.draw₂
    rw [isEmpty_eq_false_iff.mpr (by simp)] at hnext
    rw [switch_eq_self hto]
    exact ⟨rfl, rfl, rfl, _, .framing hfilter hto hdirect (by simp [hneed]),
      (hframe f.isTLS).trans hnext⟩

theorem writeSniffed_carries (f : Filter) (complete : Bool) (p : Bytes) (p2 : Option Bytes)
    (c : Chance) (hp : p.length ≤ 65535)
    (hp2 : (p2.getD []).length ≤ 65535 ∨ f.LeavesSecond complete p) :
    w.Carries ⟨ps, .more⟩ (p ++ p2.getD []) (w.writeSniffed f complete p p2 c) := by
  unfold writeSniffed
  by_cases htls : f.snapshot.isTLS = true
  · cases p2 with
    | none =>
      simp only [htls, Bool.not_true, Bool.false_eq_true, if_false, Option.getD_none, append_nil]
      exact writeOne_carries (w := { w with filter := f }) hps hfilter hto hdirect hneed _ _ p c hp
    | some p2 =>
      simp only [htls, Bool.not_true, Bool.false_eq_true, if_false, Option.getD_some]
      exact writeTwo_carries (w := { w with filter := f }) hps hfilter hto hdirect hneed f _ p p2 c
        hp htls hp2
  · have hlast := Extends.last w.userUUID false ps hps p hp false c.draw₁
    have hemit : ({ w with filter := f } : Writer).emit = .overlay :=
      funext fun b => emit_of_writeDirect_false hdirect b
    simp only [htls, Bool.not_false, if_true, hemit]
    cases p2 with
    | none =>
      simpa using ⟨rfl, rfl, rfl, _, .ended rfl hdirect hneed, hlast⟩
    | some p2 =>
      exact ⟨rfl, rfl, rfl, _, .ended rfl hdirect hneed,
        hlast.trans (Extends.append_ended w.userUUID ps _ [] p2)⟩

theorem writeFiltered_carries (b : Bytes) (c : Chance)
    (hb : ((reshapeBytes b).2.getD []).length ≤ 65535 ∨
      (w.sniffed b c).LeavesSecond (isCompleteAppDataRecords b) (reshapeBytes b).1) :
    w.Carries ⟨ps, .more⟩ b (w.writeFiltered b c) := by
  obtain ⟨happend, hp⟩ := reshapeBytes_spec b
  have hsniffed := writeSniffed_carries hps hfilter hto hdirect hneed (w.sniffed b c)
    (isCompleteAppDataRecords b) (reshapeBytes b).1 (reshapeBytes b).2 c hp hb
  rwa [happend] at hsniffed

end Framing

/-- A payload is allowed if the length fields of its frames can hold it: the first write, which is
not cut, has at most 65535 bytes, and so has the second piece of a later write that is framed. -/
def Allows (w : Writer) (p : Bytes) (c : Chance) : Prop :=
  if w.needHandshake then p.length ≤ 65535
  else w.writeFilterApplicationData = true →
    ((reshapeBytes p).2.getD []).length ≤ 65535 ∨
      (w.sniffed p c).LeavesSecond (isCompleteAppDataRecords p) (reshapeBytes p).1

theorem allows_of_length_le {p : Bytes} (hp : p.length ≤ 65535) (w : Writer) (c : Chance) :
    w.Allows p c := by
  unfold Allows
  by_cases hneed : w.needHandshake = true
  · rwa [if_pos hneed]
  · rw [if_neg hneed]
    intro _
    left
    unfold reshapeBytes
    split_ifs with hlen
    · exact Nat.zero_le _
    · show (p.drop (reshapeIndex p)).length ≤ 65535
      rw [length_drop]
      omega

variable {w : Writer} {s : Script}

theorem write_carries (h : w.Follows s) (p : Bytes) (c : Chance)
    (houter : w.outer = .tls13) (hp : w.Allows p c) : w.Carries s p (w.write p c) := by
  unfold write writeLocked
  unfold Allows at hp
  cases h with
  | @framing ps hfilter hto hdirect hneed =>
    rw [if_pos hfilter, if_pos hfilter]
    cases ps with
    | nil =>
      have hneed' : w.needHandshake = true := hneed
      rw [if_pos hneed'] at hp ⊢
      exact writeHandshake_carries p c hp houter hfilter hto hdirect
    | cons q qs =>
      have hneed' : w.needHandshake = false := hneed
      simp only [hneed', false_eq_true, if_false] at hp ⊢
      exact writeFiltered_carries (cons_ne_nil q qs) hfilter hto hdirect hneed' p c
        (hp hfilter)
  | ended hfilter hdirect hneed =>
    simp only [hfilter, false_eq_true, if_false, emit_of_writeDirect_false hdirect]
    exact ⟨rfl, rfl, rfl, _, .ended hfilter hdirect hneed, Extends.append_ended w.userUUID _ _ _ p⟩
  | direct hfilter hdirect hneed =>
    have hemit : w.emit p = .direct p := by simp [emit, hdirect]
    simp only [hfilter, false_eq_true, if_false, hemit]
    exact ⟨rfl, rfl, rfl, _, .direct hfilter hdirect hneed,
      Extends.append_direct w.userUUID _ _ _ p⟩

theorem flushHandshakeIfNeeded_carries (h : w.Follows s) (c : Chance)
    (houter : w.outer = .tls13) : w.Carries s [] (w.flushHandshakeIfNeeded c) := by
  unfold flushHandshakeIfNeeded
  by_cases hneed : w.needHandshake = true
  · have hwrite := write_carries h [] c houter (allows_of_length_le (Nat.zero_le _) w c)
    cases h with
    | framing hfilter hto hdirect _ =>
      rw [write, if_pos hfilter] at hwrite
      rwa [hneed]
    | ended _ _ hneed' => exact absurd hneed (by simp [hneed'])
    | direct _ _ hneed' => exact absurd hneed (by simp [hneed'])
  · simp only [hneed, Bool.not_false, if_true]
    exact ⟨rfl, rfl, rfl, s, h, Extends.refl w.userUUID s⟩

/-- What happens at the writing end: a write, the timer of the handshake, or a buffer that the
reading half passes through the shared sniffer. -/
inductive Event where
  | write (p : Bytes) (c : Chance)
  | flush (c : Chance)
  | inbound (buffer : Bytes)

def step (w : Writer) : Event → Wrote × Writer
  | .write p c => w.write p c
  | .flush c => w.flushHandshakeIfNeeded c
  | .inbound buffer => (⟨[], none⟩, { w with filter := w.filter.filterTLS buffer })

def Event.payload : Event → Bytes
  | .write p _ => p
  | .flush _ => []
  | .inbound _ => []

def Accepts (w : Writer) : Event → Prop
  | .write p c => w.Allows p c
  | .flush _ => True
  | .inbound _ => True

theorem step_carries (h : w.Follows s) (houter : w.outer = .tls13)
    (e : Event) (he : w.Accepts e) : w.Carries s e.payload (w.step e) := by
  cases e with
  | write p c => exact write_carries h p c houter he
  | flush c => exact flushHandshakeIfNeeded_carries h c houter
  | inbound buffer =>
    refine ⟨rfl, rfl, rfl, s, ?_, Extends.refl w.userUUID s⟩
    cases h with
    | framing hfilter hto hdirect hneed => exact .framing hfilter hto hdirect hneed
    | ended hfilter hdirect hneed => exact .ended hfilter hdirect hneed
    | direct hfilter hdirect hneed => exact .direct hfilter hdirect hneed

def emitted (w : Writer) (es : List Event) : List Emission :=
  ((Run.answers step w es).map Wrote.emitted).flatten

def payload (es : List Event) : Bytes := (es.map Event.payload).flatten

/-- A run whose writes are all allowed returns no error and emits a stream that carries exactly its
payload. -/
theorem run_carries (h : w.Follows s) (houter : w.outer = .tls13)
    (es : List Event) (hes : Run.Along step Accepts w es) :
    (∀ r ∈ Run.answers step w es, r.err = none) ∧
      ∃ s', Extends w.userUUID s s' (w.emitted es) (payload es) := by
  induction es generalizing w s with
  | nil => exact ⟨by simp [Run.answers], s, Extends.refl w.userUUID s⟩
  | cons e es ih =>
    obtain ⟨herr, huuid, houter', s', hfollows, hext⟩ := step_carries h houter e hes.1
    obtain ⟨herrs, s'', hext'⟩ := ih hfollows (houter'.trans houter) hes.2
    rw [huuid] at hext'
    exact ⟨forall_mem_cons.mpr ⟨herr, herrs⟩, s'', hext.trans hext'⟩

end Writer

end Outbound.Vless.Vision
