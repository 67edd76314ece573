import Outbound.Vless.Vision.Script

/-! A Vision reader that is fed what a Vision writer has emitted returns the payload. -/
namespace Outbound.Vless.Vision

open Lib List Writer Vision.Transport

theorem Transport.streams_readOverlay : Streams readOverlay plain (fun t => (t.rawInput, t.direct)) := by
  constructor
  · intro t
    rfl
  · rintro ⟨input, ⟨chunks, hchunks⟩, rawInput, direct⟩ l hl hplain
    obtain ⟨hinput, hrest⟩ := append_eq_nil_iff.mp hplain
    cases chunks with
    | nil => simp_all [readOverlay, Nat.ne_of_gt hl]
    | cons c cs =>
      have hc : c = [] := (append_eq_nil_iff.mp hrest).1
      exact absurd hc (hchunks c mem_cons_self)
  · rintro ⟨input, ⟨chunks, hchunks⟩, rawInput, direct⟩ l hl hplain
    have htake (b : Bytes) (hb : b ≠ []) : b.take l ≠ [] := by
      have hpos := length_pos_of_ne_nil hb
      apply ne_nil_of_length_pos
      rw [length_take]
      omega
    by_cases hinput : input = []
    · cases chunks with
      | nil => exact absurd hinput (by simpa [plain, Source.rest] using hplain)
      | cons c cs =>
        refine ⟨c.take l, ⟨c.drop l, ⟨cs, Source.nonempty_tail hchunks⟩, rawInput, direct⟩, ?_,
          htake c (hchunks c mem_cons_self), length_take_le l c, ?_, rfl⟩
        · simp [readOverlay, Nat.ne_of_gt hl, hinput]
        · simp only [plain, hinput, Source.rest, flatten_cons, nil_append]
          rw [← append_assoc, take_append_drop]
    · refine ⟨input.take l, ⟨input.drop l, ⟨chunks, hchunks⟩, rawInput, direct⟩, ?_,
        htake input hinput, length_take_le l input, ?_, rfl⟩
      · simp [readOverlay, Nat.ne_of_gt hl, hinput]
      · simp only [plain]
        rw [← append_assoc, take_append_drop]

theorem Transport.streams_readDirect :
    Streams readDirect (fun t => t.direct.rest) (fun t => (t.input, t.overlay, t.rawInput)) := by
  constructor
  · simp [readDirect, Source.streams.zero]
  · intro t l hl hrest
    simp [readDirect, Source.streams.done t.direct l hl hrest]
  · intro t l hl hrest
    obtain ⟨b, s', hread, hne, hlen, happend, _⟩ := Source.streams.more t.direct l hl hrest
    exact ⟨b, { t with direct := s' }, by simp [readDirect, hread], hne, hlen, happend, rfl⟩

/-- A read with room for `l` bytes takes its data off the front of `q` and leaves `q'`. It fails
only at the end of `q`, and gets something before. -/
structure ReadOut.Takes (out : ReadOut) (l : ℕ) (q q' : Bytes) : Prop where
  split : q = out.data ++ q'
  length : out.data.length ≤ l
  err : out.err ≠ none → q = []
  more : 0 < l → q ≠ [] → out.data ≠ []

namespace Reader

variable {r : Reader}

theorem passThrough_takes {τ : Type*} {rest : Transport → Bytes}
    {side : Transport → τ} (h : Streams r.wrapperRead rest side) (t : Transport) (l : ℕ) :
    (r.passThrough t l).1.Takes l (rest t) (rest (r.passThrough t l).2) ∧
      side (r.passThrough t l).2 = side t := by
  unfold passThrough
  by_cases hl : l = 0
  · subst hl
    rw [h.zero]
    exact ⟨⟨rfl, Nat.le_refl 0, fun herr => absurd rfl herr, fun hpos => absurd hpos (by simp)⟩,
      rfl⟩
  by_cases hrest : rest t = []
  · rw [h.done t l (by omega) hrest]
    exact ⟨⟨rfl, Nat.zero_le l, fun _ => hrest, fun _ hne => absurd hrest hne⟩, rfl⟩
  · obtain ⟨b, t', hread, hne, hlen, happend, hside⟩ := h.more t l (by omega) hrest
    rw [hread]
    exact ⟨⟨happend, hlen, fun herr => absurd rfl herr, fun _ _ => hne⟩, hside⟩

theorem streams_of_directRead_false (h : r.directRead = false) :
    Streams r.wrapperRead plain (fun t => (t.rawInput, t.direct)) := by
  rw [wrapperRead, h]
  exact streams_readOverlay

variable {t : Transport}

theorem skipPadding_eq (pad rest : Bytes)
    (hdirect : r.directRead = false) (hpad : r.readRemainingPadding = pad.length)
    (hplain : t.plain = pad ++ rest) :
    ∃ t', r.skipPadding t = (none, { r with readRemainingPadding := 0 }, t') ∧ t'.plain = rest ∧
      t'.rawInput = t.rawInput ∧ t'.direct = t.direct := by
  obtain ⟨t', hfull, hrest, hside⟩ :=
    (streams_of_directRead_false hdirect).readFull_append rfl hplain
  obtain ⟨hraw, hunder⟩ := Prod.mk.inj hside
  refine ⟨t', ?_, hrest, hraw, hunder⟩
  simp [skipPadding, hpad, hfull]

theorem beNat_length {b : Bytes} (hb : b.length ≤ 65535) : beNat (beBytes 2 b.length) = b.length :=
  beNat_beBytes_of_lt (by omega)

theorem readHeader_of_fields (fields rest : Bytes)
    (hfields : fields.length = 5) (hdirect : r.directRead = false)
    (hplain : t.plain = Script.idFor r.userUUID r.readFilterUUID ++ (fields ++ rest)) :
    ∃ t', r.readHeader t = (none, { r with
        readFilterUUID := false
        readRemainingPadding := beNat ((fields.drop 3).take 2)
        readRemainingContent := beNat ((fields.drop 1).take 2)
        readLastCommand := fields.getD 0 0 }, t') ∧
      t'.plain = rest ∧ t'.rawInput = t.rawInput ∧ t'.direct = t.direct := by
  have hid : (Script.idFor r.userUUID r.readFilterUUID).length =
      if r.readFilterUUID then 16 else 0 := by
    cases r.readFilterUUID with
    | false => rfl
    | true => exact r.userUUID.2
  have hlen : (Script.idFor r.userUUID r.readFilterUUID ++ fields).length =
      (if r.readFilterUUID then 16 else 0) + paddingHeaderLen - 16 := by
    rw [length_append, hid, hfields]
    unfold paddingHeaderLen
    omega
  rw [← append_assoc] at hplain
  obtain ⟨t', hfull, hrest, hside⟩ :=
    (streams_of_directRead_false hdirect).readFull_append hlen hplain
  obtain ⟨hraw, hunder⟩ := Prod.mk.inj hside
  have hknown : (!r.readFilterUUID || Script.idFor r.userUUID r.readFilterUUID == r.userUUID.1) =
      true := by
    cases r.readFilterUUID <;> simp [Script.idFor]
  refine ⟨t', ?_, hrest, hraw, hunder⟩
  simp only [readHeader, hfull, hlen, Nat.lt_irrefl, if_false]
  rw [take_left' hid, drop_left' hid, hknown]
  rfl

theorem readHeader_eq (command : UInt8) (p : Piece) (rest : Bytes) (hdirect : r.directRead = false)
    (hplain : t.plain =
      frame (Script.idFor r.userUUID r.readFilterUUID) command p.content p.pad ++ rest) :
    ∃ t', r.readHeader t = (none, { r with
        readFilterUUID := false
        readRemainingPadding := p.pad.length
        readRemainingContent := p.content.length
        readLastCommand := command }, t') ∧
      t'.plain = p.content ++ (p.pad ++ rest) ∧ t'.rawInput = t.rawInput ∧
      t'.direct = t.direct := by
  have htake : (beBytes 2 p.pad.length).take 2 = beBytes 2 p.pad.length :=
    take_of_length_le (by simp)
  obtain ⟨t', hheader, hrest, hside⟩ := readHeader_of_fields (r := r) (t := t)
    (command :: (beBytes 2 p.content.length ++ beBytes 2 p.pad.length))
    (p.content ++ (p.pad ++ rest)) (by simp) hdirect (by rw [hplain]; simp [frame])
  refine ⟨t', ?_, hrest, hside⟩
  rw [hheader]
  simp [htake, beNat_length p.content_le, beNat_length p.pad_le]

end Reader

/-- What comes after the frame that is being read. -/
inductive Pending where
  | frames (s : Script)
  | plain (rest : Bytes)
  | raw (rest : Bytes)

namespace Pending

def command : Pending → UInt8
  | frames _ => commandPaddingContinue
  | plain _ => commandPaddingEnd
  | raw _ => commandPaddingDirect

def overlay (userUUID : Octets 16) (first : Bool) : Pending → Bytes
  | frames s => s.overlay userUUID first
  | plain rest => rest
  | raw _ => []

def beside : Pending → Bytes
  | frames s => s.beside
  | plain _ => []
  | raw rest => rest

def payload : Pending → Bytes
  | frames s => s.payload
  | plain rest => rest
  | raw rest => rest

/-- How many rounds a read makes at most before it returns. -/
def rounds : Pending → ℕ
  | frames s => s.frames.length + 3
  | plain _ => 2
  | raw _ => 1

end Pending

namespace Reader

/-- A reader inside a frame: `content` and `pad` of it are still to come, and then `k`. -/
structure Framed (r : Reader) (t : Transport) (content pad : Bytes) (k : Pending) : Prop where
  toReadDirect : r.toReadDirect = false
  directRead : r.directRead = false
  hasRawInput : r.hasRawInput = true
  command : r.readLastCommand = k.command
  contentLen : r.readRemainingContent = content.length
  padLen : r.readRemainingPadding = pad.length
  plain : t.plain = content ++ (pad ++ k.overlay r.userUUID r.readFilterUUID)
  beside : t.rawInput ++ t.direct.rest = k.beside

/-- The payload that is still to come: from a frame on, as the rest of the outer TLS stream, or as
the rest of the stream beside it. -/
inductive Leaves (r : Reader) (t : Transport) : Bytes → Prop
  | framed {content pad : Bytes} {k : Pending} (h : r.Framed t content pad k) :
      Leaves r t (content ++ k.payload)
  | through (hto : r.toReadDirect = true) (hdirect : r.directRead = false) : Leaves r t t.plain
  | beside (hto : r.toReadDirect = true) (hdirect : r.directRead = true) :
      Leaves r t t.direct.rest

/-- A read returns the next bytes of the payload `q`; only the read that switches to the stream
beside the outer TLS may come back with none. -/
def Delivers (r : Reader) (q : Bytes) (l : ℕ) (res : Option (ReadOut × Reader × Transport)) :
    Prop :=
  ∃ out r' t' q', res = some (out, r', t') ∧ r'.Leaves t' q' ∧
    (out.Takes l q q' ∧ (r.directRead = true → r'.directRead = true) ∨
      out = ⟨[], none⟩ ∧ q' = q ∧ r.directRead = false ∧ r'.directRead = true)

variable {t : Transport} {r : Reader}

theorem passThrough_delivers {q : Bytes} (h : r.Leaves t q) (hto : r.toReadDirect = true) (l : ℕ) :
    r.Delivers q l (some ((r.passThrough t l).1, r, (r.passThrough t l).2)) := by
  cases h with
  | framed h => exact absurd hto (by simp [h.toReadDirect])
  | through _ hdirect =>
    obtain ⟨htakes, _⟩ := passThrough_takes (streams_of_directRead_false hdirect) t l
    exact ⟨_, r, _, _, rfl, .through hto hdirect, .inl ⟨htakes, id⟩⟩
  | beside _ hdirect =>
    obtain ⟨htakes, _⟩ := passThrough_takes
      (by rw [wrapperRead, hdirect]; exact streams_readDirect) t l
    exact ⟨_, r, _, _, rfl, .beside hto hdirect, .inl ⟨htakes, id⟩⟩

theorem readContent_delivers {content pad : Bytes} {k : Pending}
    (h : r.Framed t content pad k) (hcontent : content ≠ []) (l : ℕ) :
    r.Delivers (content ++ k.payload) l (some (r.readContent t l)) := by
  obtain ⟨room, hroom⟩ : ∃ room, room = if r.readRemainingContent < l
    then r.readRemainingContent else l := ⟨_, rfl⟩
  have hpos := length_pos_of_ne_nil hcontent
  have hcap : room ≤ content.length ∧ room ≤ l ∧ (0 < l → 0 < room) := by
    rw [hroom, h.contentLen]
    split_ifs <;> omega
  obtain ⟨htakes, hside⟩ := passThrough_takes (streams_of_directRead_false h.directRead) t room
  obtain ⟨hraw, hunder⟩ := Prod.mk.inj hside
  have hplain : t.plain ≠ [] := by simp [h.plain, hcontent]
  generalize hpass : r.passThrough t room = res at htakes hraw hunder
  obtain ⟨out, t'⟩ := res
  have happend : t.plain = out.data ++ t'.plain := htakes.split
  rw [h.plain] at happend
  obtain ⟨left, hleft, hrest⟩ := exists_append_of_length_le happend (htakes.length.trans hcap.1)
  refine ⟨out, { r with
      readRemainingContent := r.readRemainingContent - out.data.length
      filter := r.filter.filterTLS out.data }, t', left ++ k.payload, ?_, ?_, .inl ⟨?_, id⟩⟩
  · simp only [readContent, ← hroom, hpass]
  · apply Leaves.framed
    refine ⟨h.toReadDirect, h.directRead, h.hasRawInput, h.command, ?_, h.padLen, hrest, ?_⟩
    · show r.readRemainingContent - out.data.length = left.length
      rw [h.contentLen, hleft, length_append]
      omega
    · rw [← h.beside, hraw, hunder]
  · refine ⟨by simp [hleft], htakes.length.trans hcap.2.1, ?_, ?_⟩
    · intro herr
      exact absurd (htakes.err herr) hplain
    · intro hl _
      exact htakes.more (hcap.2.2 hl) hplain

/-- With nothing left inside the outer TLS, the direct command hands out what was read ahead. -/
theorem readDirectCommand_eq (hinput : t.input = []) (hraw : r.hasRawInput = true) (l : ℕ) :
    r.readDirectCommand t l = (⟨t.rawInput.take l, none⟩,
      if t.rawInput.drop l = []
      then { r with hasInput := false, hasRawInput := false, toReadDirect := true, directRead := true }
      else { r with hasInput := false }, { t with rawInput := t.rawInput.drop l }) := by
  obtain ⟨input, overlay, rawInput, direct⟩ := t
  simp only at hinput
  subst hinput
  by_cases hdrop : rawInput.drop l = [] <;> cases hr : r.hasInput <;>
    simp [readDirectCommand, hr, hraw, hdrop]

theorem readDirectCommand_delivers {rest : Bytes} (h : r.Framed t [] [] (.raw rest)) (l : ℕ) :
    r.Delivers rest l (some (r.readDirectCommand t l)) := by
  have hinput : t.input = [] := (append_eq_nil_iff.mp h.plain).1
  have hbeside : t.rawInput ++ t.direct.rest = rest := h.beside
  have hsplit : rest = t.rawInput.take l ++ (t.rawInput.drop l ++ t.direct.rest) := by
    rw [← append_assoc, take_append_drop, hbeside]
  rw [readDirectCommand_eq hinput h.hasRawInput]
  by_cases hdrop : t.rawInput.drop l = []
  · rw [if_pos hdrop]
    refine ⟨_, _, _, t.direct.rest, rfl, .beside rfl rfl, ?_⟩
    by_cases htake : t.rawInput.take l = []
    · right
      rw [htake, hdrop] at hsplit
      exact ⟨by rw [htake], hsplit.symm, h.directRead, rfl⟩
    · left
      rw [hdrop] at hsplit
      exact ⟨⟨hsplit, length_take_le l _, fun herr => absurd rfl herr, fun _ _ => htake⟩,
        fun _ => rfl⟩
  · rw [if_neg hdrop]
    have hframed : Framed { r with hasInput := false } { t with rawInput := t.rawInput.drop l } [] []
        (.raw (t.rawInput.drop l ++ t.direct.rest)) :=
      ⟨h.toReadDirect, h.directRead, h.hasRawInput, h.command, h.contentLen, h.padLen, h.plain, rfl⟩
    refine ⟨_, _, _, _, rfl, .framed hframed,
      .inl ⟨⟨hsplit, length_take_le l _, fun herr => absurd rfl herr, ?_⟩, id⟩⟩
    intro hl _ htake
    rcases take_eq_nil_iff.mp htake with hzero | hnil
    · omega
    · exact hdrop (by rw [hnil, drop_nil])

theorem readHeader_eof (hdirect : r.directRead = false) (hplain : t.plain = []) :
    ∃ t', r.readHeader t = (some (.sentinel .eof), r, t') ∧ t'.plain = [] ∧
      t'.rawInput = t.rawInput ∧ t'.direct = t.direct := by
  obtain ⟨t', hfull, hrest, hside⟩ := (streams_of_directRead_false hdirect).readFull_nil
    ((if r.readFilterUUID then 16 else 0) + paddingHeaderLen - 16) hplain
  obtain ⟨hraw, hunder⟩ := Prod.mk.inj hside
  have hneed : 0 < (if r.readFilterUUID then 16 else 0) + paddingHeaderLen - 16 := by
    unfold paddingHeaderLen
    omega
  refine ⟨t', ?_, hrest, hraw, hunder⟩
  simp [readHeader, hfull, hneed]

end Reader

theorem Script.next (s : Script) (userUUID : Octets 16) (first : Bool) :
    s = ⟨[], .more⟩ ∨ ∃ (p : Piece) (k : Pending),
      s.overlay userUUID first =
        frame (idFor userUUID first) k.command p.content p.pad ++ k.overlay userUUID false ∧
      s.beside = k.beside ∧ s.payload = p.content ++ k.payload ∧
      k.rounds < (Pending.frames s).rounds := by
  obtain ⟨ps, tail⟩ := s
  cases ps with
  | cons p ps =>
    refine .inr ⟨p, .frames ⟨ps, tail⟩, rfl, rfl, ?_, ?_⟩
    · simp [payload, Pending.payload]
    · simp [Pending.rounds]
  | nil =>
    cases tail with
    | more => exact .inl rfl
    | ended p rest => exact .inr ⟨p, .plain rest, rfl, rfl, rfl, by simp [Pending.rounds]⟩
    | direct p rest =>
      exact .inr ⟨p, .raw rest, (append_nil _).symm, rfl, rfl, by simp [Pending.rounds]⟩

namespace Reader

section Rounds

variable {r r' : Reader} {t t' : Transport} (fuel l : ℕ) (hcontent : r.readRemainingContent = 0)
  (hskip : r.skipPadding t = (none, r', t'))

include hcontent hskip

theorem readLoop_through (hto : r'.toReadDirect = true) :
    readLoop (fuel + 1) r t l =
      some ((r'.passThrough t' l).1, r', (r'.passThrough t' l).2) := by
  rw [readLoop, readRound, if_neg (by omega), hskip]
  simp [readCommand, hto]

section

variable (hto : r'.toReadDirect = false)

include hto

theorem readLoop_direct (hcommand : r'.readLastCommand = commandPaddingDirect) :
    readLoop (fuel + 1) r t l = some (r'.readDirectCommand t' l) := by
  rw [readLoop, readRound, if_neg (by omega), hskip]
  simp only [readCommand, hto, hcommand, Bool.false_eq_true, if_false]
  rfl

theorem readLoop_end (hcommand : r'.readLastCommand = commandPaddingEnd) :
    readLoop (fuel + 1) r t l = readLoop fuel { r' with toReadDirect := true } t' l := by
  rw [readLoop, readRound, if_neg (by omega), hskip]
  simp only [readCommand, hto, hcommand, Bool.false_eq_true, if_false]
  rfl

section

variable (hcommand : r'.readLastCommand = commandPaddingContinue)

include hcommand

theorem readLoop_continue {r'' : Reader} {t'' : Transport}
    (hheader : r'.readHeader t' = (none, r'', t'')) :
    readLoop (fuel + 1) r t l = readLoop fuel r'' t'' l := by
  rw [readLoop, readRound, if_neg (by omega), hskip]
  simp [readCommand, hto, hcommand, hheader]

theorem readLoop_fail {err : Error} {r'' : Reader}
    {t'' : Transport} (hheader : r'.readHeader t' = (some err, r'', t'')) :
    readLoop (fuel + 1) r t l = some (⟨[], some err⟩, r'', t'') := by
  rw [readLoop, readRound, if_neg (by omega), hskip]
  simp [readCommand, hto, hcommand, hheader]

end

theorem readLoop_unknown (hcommand : r'.readLastCommand > commandPaddingDirect) :
    readLoop (fuel + 1) r t l = some (⟨[], some (unknownCommand r'.readLastCommand)⟩, r', t') := by
  have hne (c : UInt8) (hc : c ≤ commandPaddingDirect) : r'.readLastCommand ≠ c := by
    rintro rfl
    exact absurd hcommand (UInt8.not_lt.mpr hc)
  rw [readLoop, readRound, if_neg (by omega), hskip]
  simp [readCommand, hto, hne commandPaddingContinue (by decide), hne commandPaddingEnd (by decide), hne commandPaddingDirect (by decide)]

end

end Rounds

variable {t : Transport} {r : Reader} {k : Pending}

theorem Framed.skipPadding {pad : Bytes} (h : r.Framed t [] pad k) :
    ∃ t', r.skipPadding t = (none, { r with readRemainingPadding := 0 }, t') ∧
      Framed { r with readRemainingPadding := 0 } t' [] [] k := by
  obtain ⟨t', hskip, hplain, hraw, hunder⟩ := skipPadding_eq pad _ h.directRead h.padLen h.plain
  refine ⟨t', hskip, h.toReadDirect, h.directRead, h.hasRawInput, h.command, h.contentLen, rfl,
    hplain, ?_⟩
  rw [hraw, hunder]
  exact h.beside

theorem Framed.readHeader {s : Script} (h : r.Framed t [] [] (.frames s)) :
    (s = ⟨[], .more⟩ ∧ ∃ t', r.readHeader t = (some (.sentinel .eof), r, t') ∧
        r.Framed t' [] [] (.frames s)) ∨
      ∃ (p : Piece) (k : Pending) (r' : Reader) (t' : Transport),
        r.readHeader t = (none, r', t') ∧ r'.directRead = r.directRead ∧
        r'.Framed t' p.content p.pad k ∧ s.payload = p.content ++ k.payload ∧
        k.rounds < (Pending.frames s).rounds := by
  rcases s.next r.userUUID r.readFilterUUID with hend | ⟨p, k, hover, hbeside, hpayload, hrounds⟩
  · left
    subst hend
    obtain ⟨t', hheader, hplain, hraw, hunder⟩ := readHeader_eof h.directRead h.plain
    refine ⟨rfl, t', hheader, h.toReadDirect, h.directRead, h.hasRawInput, h.command, h.contentLen,
      h.padLen, hplain, ?_⟩
    rw [hraw, hunder]
    exact h.beside
  · right
    obtain ⟨t', hheader, hplain, hraw, hunder⟩ :=
      readHeader_eq k.command p _ h.directRead (h.plain.trans hover)
    refine ⟨p, k, _, t', hheader, rfl, ?_, hpayload, hrounds⟩
    refine ⟨h.toReadDirect, h.directRead, h.hasRawInput, rfl, rfl, rfl, hplain, ?_⟩
    rwa [hraw, hunder, h.beside]

theorem readLoop_delivers (fuel : ℕ) {content pad : Bytes}
    (h : r.Framed t content pad k) (hfuel : k.rounds ≤ fuel) (l : ℕ) :
    r.Delivers (content ++ k.payload) l (readLoop fuel r t l) := by
  induction fuel generalizing r t content pad k with
  | zero => cases k <;> simp [Pending.rounds] at hfuel
  | succ fuel ih =>
    by_cases hcontent : content = []
    · subst hcontent
      have hzero : r.readRemainingContent = 0 := h.contentLen
      obtain ⟨t', hskip, h'⟩ := h.skipPadding
      cases k with
      | raw rest =>
        rw [readLoop_direct fuel l hzero hskip h'.toReadDirect h'.command]
        exact readDirectCommand_delivers h' l
      | plain rest =>
        obtain ⟨fuel, rfl⟩ : ∃ n, fuel = n + 1 := by
          simp only [Pending.rounds] at hfuel
          exact ⟨fuel - 1, by omega⟩
        rw [readLoop_end (fuel + 1) l hzero hskip h'.toReadDirect h'.command]
        have hplain : t'.plain = rest := h'.plain
        let r₀ : Reader := { r with readRemainingPadding := 0, toReadDirect := true }
        obtain ⟨t₀, hskip₀, hplain₀, _, _⟩ := skipPadding_eq (r := r₀) [] t'.plain h.directRead rfl rfl
        rw [readLoop_through (r := r₀) fuel l hzero hskip₀ rfl, ← hplain, ← hplain₀]
        exact passThrough_delivers (r := r₀) (.through rfl h.directRead) rfl l
      | frames s =>
        rcases h'.readHeader with ⟨rfl, t'', hheader, hend⟩ |
          ⟨p, k, r'', t'', hheader, hdirect, hnext, hpayload, hrounds⟩
        · rw [readLoop_fail fuel l hzero hskip h'.toReadDirect h'.command hheader]
          exact ⟨_, _, _, _, rfl, .framed hend,
            .inl ⟨⟨rfl, Nat.zero_le l, fun _ => rfl, fun _ hne => absurd rfl hne⟩, id⟩⟩
        · rw [readLoop_continue fuel l hzero hskip h'.toReadDirect h'.command hheader]
          have hdone := ih hnext (by omega)
          unfold Delivers at hdone ⊢
          rwa [hdirect, ← hpayload] at hdone
    · have hpos := length_pos_of_ne_nil hcontent
      rw [readLoop, readRound, if_pos (by rw [h.contentLen]; exact hpos)]
      exact readContent_delivers h hcontent l

theorem rounds_le {content pad : Bytes}
    (h : r.Framed t content pad k) : k.rounds ≤ t.plain.length + 3 := by
  cases k with
  | frames s =>
    have hframes := Script.length_frames_le r.userUUID s.tail r.readFilterUUID s.frames
    have hplain := h.plain
    simp only [Pending.overlay, Script.overlay] at hplain
    rw [hplain, length_append, length_append, Pending.rounds]
    omega
  | _ => simp [Pending.rounds]

theorem read_delivers {q : Bytes} (h : r.Leaves t q) (l : ℕ) : r.Delivers q l (r.read t l) := by
  unfold read
  by_cases hto : r.toReadDirect = true
  · rw [if_pos hto]
    exact passThrough_delivers h hto l
  · rw [if_neg hto]
    cases h with
    | framed h => exact readLoop_delivers _ h (rounds_le h) l
    | through hto' _ => exact absurd hto' hto
    | beside hto' _ => exact absurd hto' hto

def reads (r : Reader) (t : Transport) : List ℕ → Option (List ReadOut)
  | [] => some []
  | l :: ls => (r.read t l).bind fun s => (reads s.2.1 s.2.2 ls).map (s.1 :: ·)

end Reader

def received (outs : List ReadOut) : Bytes := (outs.map ReadOut.data).flatten

@[simp] theorem received_cons (out : ReadOut) (outs : List ReadOut) :
    received (out :: outs) = out.data ++ received outs := rfl

/-- Reads with the buffer sizes `ls` return the stream `q`: each fits its buffer, together they are
the front of `q`, an error comes only when all of `q` is out, and all of `q` is out after as many
reads as it has bytes, not counting `stalls` of them. -/
structure Transparent (stalls : ℕ) (q : Bytes) (ls : List ℕ) (outs : List ReadOut) : Prop where
  fits : List.Forall₂ (fun l out => out.data.length ≤ l) ls outs
  inOrder : received outs <+: q
  errAtEnd : ∀ before out after, outs = before ++ out :: after → out.err ≠ none →
    received before = q
  complete : (∀ l ∈ ls, 0 < l) → q.length + stalls ≤ ls.length → received outs = q

namespace Transparent

variable {stalls l : ℕ} {q q' : Bytes} {ls : List ℕ} {outs : List ReadOut}

theorem nil (stalls : ℕ) (q : Bytes) : Transparent stalls q [] [] where
  fits := .nil
  inOrder := List.nil_prefix
  errAtEnd := fun before out after hnil => by simp at hnil
  complete := fun _ hlen => by
    have hq : q.length = 0 := by
      simp only [length_nil] at hlen
      omega
    exact (eq_nil_of_length_eq_zero hq).symm

theorem mono {stalls' : ℕ} (h : Transparent stalls q ls outs) (hle : stalls ≤ stalls') :
    Transparent stalls' q ls outs where
  __ := h
  complete := fun hpos hlen => h.complete hpos (by omega)

theorem cons {out : ReadOut} (hout : out.Takes l q q') (h : Transparent stalls q' ls outs) :
    Transparent stalls q (l :: ls) (out :: outs) where
  fits := .cons hout.length h.fits
  inOrder := by
    rw [received_cons, hout.split]
    exact (prefix_append_right_inj _).mpr h.inOrder
  errAtEnd := by
    intro before bad after heq herr
    cases before with
    | nil =>
      obtain ⟨rfl, _⟩ := cons.inj heq
      exact (hout.err herr).symm
    | cons first before =>
      obtain ⟨rfl, htail⟩ := cons.inj heq
      rw [received_cons, h.errAtEnd before bad after htail herr]
      exact hout.split.symm
  complete := by
    intro hpos hlen
    have hpos' : ∀ l' ∈ ls, 0 < l' := fun l' hl' => hpos l' (mem_cons_of_mem l hl')
    rw [received_cons]
    by_cases hq : q = []
    · have hsplit := hout.split
      rw [hq] at hsplit
      obtain ⟨hdata, hq'⟩ := append_eq_nil_iff.mp hsplit.symm
      have hrest := h.inOrder
      rw [hq', prefix_nil] at hrest
      rw [hdata, hrest, hq]
      rfl
    · have hdata := length_pos_of_ne_nil (hout.more (hpos l mem_cons_self) hq)
      have hlens := congrArg length hout.split
      rw [length_append] at hlens
      rw [length_cons] at hlen
      rw [h.complete hpos' (by omega)]
      exact hout.split.symm

theorem stall (l : ℕ) (h : Transparent 0 q ls outs) :
    Transparent 1 q (l :: ls) (⟨[], none⟩ :: outs) where
  fits := .cons (Nat.zero_le l) h.fits
  inOrder := h.inOrder
  errAtEnd := by
    intro before bad after heq herr
    cases before with
    | nil =>
      obtain ⟨rfl, _⟩ := cons.inj heq
      exact absurd rfl herr
    | cons first before =>
      obtain ⟨rfl, htail⟩ := cons.inj heq
      exact h.errAtEnd before bad after htail herr
  complete := by
    intro hpos hlen
    rw [length_cons] at hlen
    exact h.complete (fun l' hl' => hpos l' (mem_cons_of_mem l hl')) (by omega)

end Transparent

namespace Reader

/-- How many reads may still come back empty before the end. -/
def stalls (r : Reader) : ℕ := if r.directRead then 0 else 1

theorem reads_transparent {r : Reader} {t : Transport} {q : Bytes} (h : r.Leaves t q)
    (ls : List ℕ) : ∃ outs, r.reads t ls = some outs ∧ Transparent r.stalls q ls outs := by
  induction ls generalizing r t q with
  | nil => exact ⟨[], rfl, .nil r.stalls q⟩
  | cons l ls ih =>
    obtain ⟨out, r', t', q', hread, hleaves, hout⟩ := read_delivers h l
    obtain ⟨outs, hreads, htrans⟩ := ih hleaves
    refine ⟨out :: outs, by simp [reads, hread, hreads], ?_⟩
    rcases hout with ⟨htakes, hmode⟩ | ⟨rfl, rfl, hbefore, hafter⟩
    · have hle : r'.stalls ≤ r.stalls := by
        unfold stalls
        cases hr : r.directRead with
        | false => cases r'.directRead <;> simp
        | true => simp [hmode hr]
      exact .cons htakes (htrans.mono hle)
    · rw [stalls, hafter] at htrans
      rw [stalls, hbefore]
      exact .stall l htrans

theorem new_leaves {userUUID : Octets 16} {t : Transport} {s : Script}
    (hplain : t.plain = s.overlay userUUID true) (hbeside : t.rawInput ++ t.direct.rest = s.beside) :
    (Reader.new userUUID).Leaves t s.payload := by
  have hframed : (Reader.new userUUID).Framed t [] [] (.frames s) :=
    ⟨rfl, rfl, rfl, rfl, rfl, rfl, hplain, hbeside⟩
  exact .framed hframed

end Reader

/-- A reader that is fed what a run of a writer has emitted returns the payload of the run, in
whatever pieces the bytes arrive and are read, as long as every piece that is framed fits the length
field of its frame. -/
theorem vision_stream_transparent (userUUID : Octets 16) (es : List Writer.Event)
    (hes : Run.Along step Writer.Accepts (new userUUID .tls13) es) (t : Transport)
    (hoverlay : t.plain = overlayBytes ((new userUUID .tls13).emitted es))
    (hdirect : t.rawInput ++ t.direct.rest = directBytes ((new userUUID .tls13).emitted es))
    (ls : List ℕ) :
    (∀ r ∈ Run.answers step (new userUUID .tls13) es, r.err = none) ∧
      ∃ outs, (Reader.new userUUID).reads t ls = some outs ∧
        Transparent 1 (payload es) ls outs := by
  obtain ⟨herrs, s, hext⟩ := run_carries (w := new userUUID .tls13) (s := ⟨[], .more⟩)
    (.framing rfl rfl rfl rfl) rfl es hes
  have hplain : t.plain = s.overlay userUUID true := hoverlay.trans hext.overlay.symm
  have hbeside : t.rawInput ++ t.direct.rest = s.beside := hdirect.trans hext.beside.symm
  have hpayload : s.payload = payload es := hext.payload
  have hleaves := Reader.new_leaves hplain hbeside
  rw [hpayload] at hleaves
  exact ⟨herrs, Reader.reads_transparent hleaves ls⟩

def sampleUUID : Octets 16 := ⟨replicate 16 7, by decide⟩

def calm : Writer.Chance := ⟨[], [], ⟨0, 0, fun _ => 0⟩, ⟨0, 0, fun _ => 0⟩⟩

def fedWith (es : List Emission) : Transport :=
  ⟨[], .ofList (overlayBytes es), [], .ofList (directBytes es)⟩

def sampleEvents : List Writer.Event := [.write [1, 2, 3] calm, .write [4] calm, .write [5, 6] calm]

theorem vision_stream_transparent_three_writes :
    ∃ outs, (Reader.new sampleUUID).reads
        (fedWith ((new sampleUUID .tls13).emitted sampleEvents)) [1, 2, 9, 1, 1, 1, 1] =
          some outs ∧ received outs = [1, 2, 3, 4, 5, 6] := by
  have hes : Run.Along step Writer.Accepts (new sampleUUID .tls13) sampleEvents :=
    ⟨allows_of_length_le (by simp) _ _, allows_of_length_le (by simp) _ _,
      allows_of_length_le (by simp) _ _, trivial⟩
  obtain ⟨_, outs, hreads, htrans⟩ := vision_stream_transparent sampleUUID sampleEvents hes
    (fedWith ((new sampleUUID .tls13).emitted sampleEvents))
    (by simp [fedWith, plain]) (by simp [fedWith]) [1, 2, 9, 1, 1, 1, 1]
  exact ⟨outs, hreads, htrans.complete (by decide) (by decide)⟩

def oversized : Bytes := 9 :: replicate 65535 0

theorem length_oversized : oversized.length = 65536 := by
  rw [oversized, length_cons, length_replicate]

/-- Where a reader takes the header of `oversized` for the end of a frame, it takes the payload for
a header. -/
theorem read_oversized {t : Transport}
    (hplain : t.plain = frame sampleUUID.1 commandPaddingContinue oversized []) (l : ℕ) :
    ∃ r' t', (Reader.new sampleUUID).read t l =
      some (⟨[], some (.errorf "XTLS Vision read unknown command: 9")⟩, r', t') := by
  have hfields : frame sampleUUID.1 commandPaddingContinue oversized [] =
      sampleUUID.1 ++ ([0, 0, 0, 0, 0] ++ oversized) := by
    rw [frame, length_oversized]
    simp only [append_nil]
    rfl
  have hsplit : oversized = [9, 0, 0, 0, 0] ++ replicate 65531 0 := by
    rfl
  rw [hfields] at hplain
  obtain ⟨t₁, hskip₁, hplain₁, _⟩ :=
    Reader.skipPadding_eq (r := Reader.new sampleUUID) [] _ rfl rfl hplain
  obtain ⟨t₂, hheader₁, hplain₂, _⟩ := Reader.readHeader_of_fields
    (r := { Reader.new sampleUUID with readRemainingPadding := 0 }) [0, 0, 0, 0, 0] oversized rfl rfl
    hplain₁
  rw [hsplit] at hplain₂
  obtain ⟨t₃, hskip₂, hplain₃, _⟩ := Reader.skipPadding_eq
    (r := { Reader.new sampleUUID with readFilterUUID := false }) [] _ rfl rfl hplain₂
  obtain ⟨t₄, hheader₂, hplain₄, _⟩ := Reader.readHeader_of_fields
    (r := { Reader.new sampleUUID with readFilterUUID := false }) [9, 0, 0, 0, 0] _ rfl rfl hplain₃
  obtain ⟨t₅, hskip₃, _⟩ := Reader.skipPadding_eq
    (r := { Reader.new sampleUUID with readFilterUUID := false, readLastCommand := 9 }) [] _ rfl rfl
    hplain₄
  have hround₁ := Reader.readLoop_continue (t.plain.length + 2) l rfl hskip₁ rfl rfl hheader₁
  have hround₂ := Reader.readLoop_continue (t.plain.length + 1) l rfl hskip₂ rfl rfl hheader₂
  have hround₃ := Reader.readLoop_unknown t.plain.length l rfl hskip₃ rfl (by decide)
  exact ⟨_, _, (hround₁.trans hround₂).trans hround₃⟩

theorem oversized_first_write_lost :
    payload [.write oversized calm] = oversized ∧
      (Reader.new sampleUUID).reads
          (fedWith ((new sampleUUID .tls13).emitted [.write oversized calm])) [4096] =
        some [⟨[], some (.errorf "XTLS Vision read unknown command: 9")⟩] := by
  have hbytes : overlayBytes ((new sampleUUID .tls13).emitted [.write oversized calm]) =
      frame sampleUUID.1 commandPaddingContinue oversized [] := by
    simp [emitted, Run.answers, step, write, writeLocked,
      writeHandshake, new, length_oversized, overlayBytes, emit, applyPadding, paddingLen, calm]
  obtain ⟨r', t', hread⟩ := read_oversized
    (t := fedWith ((new sampleUUID .tls13).emitted [.write oversized calm]))
    (by simp [fedWith, plain, hbytes]) 4096
  exact ⟨by simp [payload, Writer.Event.payload], by simp [Reader.reads, hread]⟩

end Outbound.Vless.Vision
