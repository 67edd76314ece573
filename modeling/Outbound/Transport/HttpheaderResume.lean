import Outbound.Protocol
import Outbound.Transport.Httpheader

/-! The parse of the response header when timeouts interrupt it: what the reads of the connection
then return, and for which timeouts this is the body. -/
namespace Outbound.Transport.Httpheader

open Lib Zeroalloc.Bufio List Option

/-- What is left after the header if the parse is taken up again after every fault. -/
def resume : Bytes → List (Signal UInt8 ReadErr) → List (Signal UInt8 ReadErr)
  | _, [] => []
  | _, .fault _ :: s => resume [] s
  | line, .item b :: s =>
    if b = 10 then if blank (line ++ [b]) then s else resume [] s else resume (line ++ [b]) s

def OnlyTimeouts (s : List (Signal UInt8 ReadErr)) : Prop := ∀ e, .fault e ∈ s → e = .timeout

/-- The stream is still in a header, of which some line may have been lost in part. -/
def Heading (s : List (Signal UInt8 ReadErr)) (body : Bytes) : Prop :=
  OnlyTimeouts s ∧ ∃ total line header,
    skip total line (header.map .item) = (none, []) ∧ items s = header ++ body

variable {s : List (Signal UInt8 ReadErr)}

theorem OnlyTimeouts.tail {x : Signal UInt8 ReadErr}
    (h : OnlyTimeouts (x :: s)) : OnlyTimeouts s := fun e he => h e (mem_cons_of_mem x he)

theorem blank_line {line : Bytes} : blank (line ++ [10]) = true ↔ line = [] ∨ line = [13] := by
  rw [blank, Bool.or_eq_true, beq_iff_eq, beq_iff_eq, show ([13, 10] : Bytes) = [13] ++ [10] from rfl,
    append_left_inj, append_eq_singleton_iff]
  simp [or_comm]

theorem blank_of_append {lost cur : Bytes} (h : blank (lost ++ cur ++ [10]) = true) :
    blank (cur ++ [10]) = true := by
  rw [blank_line] at h ⊢
  rcases h with h | h
  · exact .inl (append_eq_nil_iff.mp h).2
  · rcases append_eq_singleton_iff.mp h with ⟨-, hcur⟩ | ⟨-, hcur⟩
    · exact .inr hcur
    · exact .inl hcur

variable {header : Bytes} {total : ℕ}

theorem length_of_skip {line : Bytes} (h : skip total line (header.map .item) = (none, [])) :
    total + line.length + header.length ≤ maxResponseHeader := by
  induction header generalizing total line with
  | nil => simp [skip] at h
  | cons b header ih =>
    rw [map_cons, skip] at h
    split_ifs at h with hb hlarge hblank
    · simp at h
    · simp only [Prod.mk.injEq, map_eq_nil_iff, true_and] at h
      subst h
      simpa using hlarge
    · have := ih h
      simp only [length_nil, length_cons] at this ⊢
      omega
    · have := ih h
      simp only [length_append, length_cons, length_nil] at this ⊢
      omega

theorem skip_cons {line : Bytes} {b : UInt8}
    (h : skip total line ((b :: header).map .item) = (none, [])) :
    (b = 10 ∧ blank (line ++ [10]) = true ∧ header = []) ∨
    (b = 10 ∧ blank (line ++ [10]) = false ∧ ∃ total', skip total' [] (header.map .item) = (none, [])) ∨
    (b ≠ 10 ∧ skip total (line ++ [b]) (header.map .item) = (none, [])) := by
  rw [map_cons, skip] at h
  split_ifs at h with hb hlarge hblank
  · simp at h
  · subst hb
    exact .inl ⟨rfl, hblank, by simpa using h⟩
  · subst hb
    exact .inr (.inl ⟨rfl, by simpa using hblank, _, h⟩)
  · exact .inr (.inr ⟨hb, h⟩)

/-- How a parse of a header ends: the header is over, or a timeout leaves the rest of it. -/
def Settles (s left : List (Signal UInt8 ReadErr)) (body : Bytes)
    (out : Option ConnErr × List (Signal UInt8 ReadErr)) : Prop :=
  (out = (none, left) ∧ OnlyTimeouts left ∧ left.length < s.length) ∨
  ∃ rest, out = (some (headerErr .timeout), rest) ∧ left = resume [] rest ∧
    rest.length < s.length ∧ Heading rest body

variable {body : Bytes}

theorem Settles.cons {left : List (Signal UInt8 ReadErr)}
    {out : Option ConnErr × List (Signal UInt8 ReadErr)} (x : Signal UInt8 ReadErr)
    (h : Settles s left body out) : Settles (x :: s) left body out := by
  rcases h with ⟨hout, htimeouts, hless⟩ | ⟨rest, hout, hleft, hless, hheading⟩
  · exact .inl ⟨hout, htimeouts, Nat.lt_succ_of_lt hless⟩
  · exact .inr ⟨rest, hout, hleft, Nat.lt_succ_of_lt hless, hheading⟩

theorem skip_settles {total' : ℕ} (lost cur : Bytes) (htimeouts : OnlyTimeouts s)
    (hok : skip total (lost ++ cur) (header.map .item) = (none, []))
    (hitems : items s = header ++ body)
    (hlen : total' + cur.length + header.length ≤ maxResponseHeader) :
    Settles s (resume cur s) body (skip total' cur s) := by
  induction s generalizing total total' lost cur header with
  | nil =>
    have hnil : header = [] := (append_eq_nil_iff.mp hitems.symm).1
    subst hnil
    simp [skip] at hok
  | cons x s ih =>
    cases x with
    | fault e =>
      obtain rfl := htimeouts e mem_cons_self
      have hsmall : ¬ (maxResponseHeader < total' + cur.length ∨ ReadErr.timeout = .bufferFull) := by
        rintro (h | h)
        · omega
        · cases h
      rw [skip, if_neg hsmall]
      exact .inr ⟨s, rfl, rfl, Nat.lt_succ_self _, htimeouts.tail, total, lost ++ cur, header, hok,
        hitems⟩
    | item b =>
      cases header with
      | nil => simp [skip] at hok
      | cons b' header =>
        rw [items_item, cons_append, cons.injEq] at hitems
        obtain ⟨rfl, hitems⟩ := hitems
        rw [length_cons] at hlen
        have hsmall : ¬ maxResponseHeader < total' + cur.length + 1 := by omega
        -- the line at hand is taken for the blank one, or the parse goes on after it
        have hline : (blank (cur ++ [10]) = false → Settles s (resume [] s) body
            (skip (total' + cur.length + 1) [] s)) → Settles (.item 10 :: s)
            (resume cur (.item 10 :: s)) body (skip total' cur (.item 10 :: s)) := by
          intro hnext
          rw [resume, if_pos rfl, skip, if_pos rfl, if_neg hsmall]
          split_ifs with hblank
          · exact .inl ⟨rfl, htimeouts.tail, Nat.lt_succ_self _⟩
          · exact (hnext (Bool.eq_false_iff.mpr hblank)).cons _
        rcases skip_cons hok with ⟨rfl, hblank, -⟩ | ⟨rfl, -, total₁, hok⟩ | ⟨hb, hok⟩
        · exact hline fun hfalse =>
            absurd (blank_of_append hblank) (Bool.eq_false_iff.mp hfalse)
        · apply hline
          intro
          exact ih [] [] htimeouts.tail hok hitems (by rw [length_nil]; omega)
        · rw [resume, if_neg hb, skip, if_neg hb]
          rw [append_assoc] at hok
          apply Settles.cons
          exact ih lost (cur ++ [b]) htimeouts.tail hok hitems
            (by rw [length_append, length_singleton]; omega)

theorem Heading.settles (h : Heading s body) : Settles s (resume [] s) body (skip 0 [] s) := by
  obtain ⟨htimeouts, total, line, header, hok, hitems⟩ := h
  have hlen := length_of_skip hok
  exact skip_settles line [] htimeouts (by rwa [append_nil]) hitems
    (by rw [length_nil]; omega)

namespace Conn

structure Sound (c : Conn) : Prop where
  size : c.reader.size = bufioBufferSize
  proper : c.reader.feed.Proper
  readErr : c.readErr = none

structure InHeader (c : Conn) : Prop where
  headerRead : c.headerRead = false
  released : c.released = false
  termErr : c.termErr = none
  heading : ∃ body, Heading c.reader.signals body

structure InBody (c : Conn) : Prop where
  headerRead : c.headerRead = true
  timeouts : OnlyTimeouts c.reader.signals
  termErr : c.termErr ≠ none → c.reader.signals = []
  released : c.released = true → c.termErr ≠ none

/-- The connection has these bytes still to return, in at most that many reads that get
something. -/
def Leaves (c : Conn) (n : ℕ) (q : Bytes) : Prop :=
  c.Sound ∧ n = c.reader.signals.length ∧
    (c.InHeader ∧ q = items (resume [] c.reader.signals) ∨ c.InBody ∧ q = items c.reader.signals)

variable {c : Conn}

theorem Sound.exitRead (h : c.Sound) : c.exitRead.Sound := by
  unfold Conn.exitRead
  split_ifs
  · exact ⟨h.size, h.proper, h.readErr⟩
  · exact h

theorem InBody.exitRead (h : c.InBody) : c.exitRead.InBody := by
  unfold Conn.exitRead
  split_ifs with hdone
  · refine ⟨h.headerRead, h.timeouts, h.termErr, fun _ => ?_⟩
    simp only [Bool.and_eq_true] at hdone
    exact isSome_iff_ne_none.mp hdone.1.2
  · exact h

@[simp] theorem exitRead_reader (c : Conn) : c.exitRead.reader = c.reader := by
  unfold exitRead
  split_ifs <;> rfl

theorem InHeader.exitRead (h : c.InHeader) : c.exitRead = c := by
  unfold Conn.exitRead
  simp [h.termErr]

theorem Leaves.exitRead {n : ℕ} {q : Bytes} (h : c.Leaves n q) : c.exitRead.Leaves n q := by
  obtain ⟨hsound, hn, ⟨hheader, hq⟩ | ⟨hbody, hq⟩⟩ := h
  · rw [hheader.exitRead]
    exact ⟨hsound, hn, .inl ⟨hheader, hq⟩⟩
  · exact ⟨hsound.exitRead, by rwa [exitRead_reader], .inr ⟨hbody.exitRead, by rwa [exitRead_reader]⟩⟩

theorem recordTerminalErr_leaves (hsound : c.Sound) (hbody : c.InBody)
    (hnil : c.reader.signals = []) (e : ConnErr) : (c.recordTerminalErr e).Leaves 0 [] := by
  unfold recordTerminalErr
  split_ifs
  · refine ⟨⟨hsound.size, hsound.proper, hsound.readErr⟩, ?_, .inr ⟨?_, ?_⟩⟩
    · rw [hnil]
      rfl
    · exact ⟨hbody.headerRead, hbody.timeouts, fun _ => hnil, fun _ => some_ne_none _⟩
    · rw [hnil]
      rfl
  · refine ⟨hsound, ?_, .inr ⟨hbody, ?_⟩⟩
    · rw [hnil]
      rfl
    · rw [hnil]
      rfl

theorem readBody_leaves (hsound : c.Sound) (hbody : c.InBody) (l : ℕ) :
    ∃ n q, (c.readBody l).2.Leaves n q ∧ items c.reader.signals = (c.readBody l).1.data ++ q ∧
      n ≤ c.reader.signals.length ∧ (0 < l → n < c.reader.signals.length ∨ c.reader.signals = []) := by
  have hreads := Reader.read_spec hsound.proper (hsound.size ▸ by decide) l
  unfold readBody
  rw [hsound.readErr]
  generalize c.reader.read l = read at hreads
  obtain ⟨out, r⟩ := read
  have hsound' : (c.setReader r).Sound :=
    ⟨hreads.size.trans hsound.size, hreads.proper, hsound.readErr⟩
  rcases hreads.split with hsplit | ⟨hnil, hout, hnil'⟩
  · have hbody' : (c.setReader r).InBody := by
      refine ⟨hbody.headerRead, fun e he => hbody.timeouts e ?_, fun hterm => ?_, hbody.released⟩
      · rw [hsplit]
        exact mem_append_right _ (mem_append_right _ he)
      · have hnil := hbody.termErr hterm
        rw [hsplit] at hnil
        exact (append_eq_nil_iff.mp (append_eq_nil_iff.mp hnil).2).2
    have hstate : (c.setReader r).recordIfTerminal out.err = c.setReader r := by
      cases herr : out.err with
      | none => rfl
      | some e =>
        have : e = .timeout := by
          apply hbody.timeouts
          rw [hsplit, herr]
          simp
        subst this
        rfl
    have hlength := congrArg length hsplit
    rw [length_append, length_append] at hlength
    dsimp only at hlength ⊢
    rw [hstate]
    refine ⟨_, _, ⟨hsound', rfl, .inr ⟨hbody', rfl⟩⟩, ?_, ?_, fun hl => .inl ?_⟩
    · rw [hsplit]
      simp [setReader]
    · change r.signals.length ≤ _
      omega
    · change r.signals.length < _
      rcases hreads.some_of_pos hl with hdata | herr
      · have : 0 < out.data.length := length_pos_iff.mpr hdata
        rw [length_map] at hlength
        omega
      · obtain ⟨e, he⟩ := ne_none_iff_exists'.mp herr
        rw [show out.err = some e from he, faultOf_some, length_singleton] at hlength
        omega
  · obtain rfl : out = ⟨[], some .eof⟩ := hout
    refine ⟨0, [], ?_, ?_, Nat.zero_le _, fun _ => .inr hnil⟩
    · apply recordTerminalErr_leaves hsound' _ hnil'
      refine ⟨hbody.headerRead, fun e he => ?_, fun _ => hnil', hbody.released⟩
      rw [show (c.setReader r).reader.signals = [] from hnil'] at he
      exact absurd he not_mem_nil
    · rw [hnil]
      rfl

theorem readHeader_leaves (hsound : c.Sound) (hheader : c.InHeader) (l : ℕ) :
    ∃ out c' n q, c.readHeader l = some (out, c') ∧ c'.Leaves n q ∧
      items (resume [] c.reader.signals) = out.data ++ q ∧ n < c.reader.signals.length := by
  obtain ⟨err, r, hdiscard, hsize, hproper, herr, hrest⟩ := discardResponseHeader_spec hsound.proper
    (hsound.size ▸ maxResponseHeader_lt)
  obtain ⟨body, hheading⟩ := hheader.heading
  unfold readHeader
  rw [hdiscard, bind_some]
  rcases hheading.settles with ⟨hout, htimeouts, hless⟩ | ⟨rest, hout, hleft, hless, hheading⟩
  · rw [hout] at herr hrest
    obtain rfl : err = none := herr
    have hsignals : r.signals = resume [] c.reader.signals := hrest (some_ne_none _).symm
    have hbody : (c.setReader r).endHeader.InBody := by
      refine ⟨rfl, ?_, fun hterm => absurd hheader.termErr hterm, fun hreleased => ?_⟩
      · change OnlyTimeouts r.signals
        rwa [hsignals]
      · cases hheader.released.symm.trans hreleased
    obtain ⟨n, q, hleaves, hq, hn, -⟩ := readBody_leaves (c := (c.setReader r).endHeader)
      ⟨hsize.trans hsound.size, hproper, hsound.readErr⟩ hbody l
    refine ⟨_, _, n, q, rfl, hleaves, ?_, Nat.lt_of_le_of_lt hn ?_⟩
    · rwa [← hsignals]
    · change r.signals.length < _
      rwa [hsignals]
  · rw [hout] at herr hrest
    obtain rfl : err = some (headerErr .timeout) := herr
    have hsignals : r.signals = rest := hrest (by decide)
    refine ⟨_, c.setReader r, r.signals.length, items (resume [] r.signals), rfl,
      ⟨⟨hsize.trans hsound.size, hproper, hsound.readErr⟩, rfl, .inl ⟨?_, rfl⟩⟩, ?_, ?_⟩
    · refine ⟨hheader.headerRead, hheader.released, hheader.termErr, body, ?_⟩
      change Heading r.signals body
      rwa [hsignals]
    · rw [hleft, hsignals]
      rfl
    · rwa [hsignals]

theorem read_leaves (c : Conn) (n : ℕ) (q : Bytes) (l : ℕ) (h : c.Leaves n q) :
    ∃ out c' n' q', c.read l = some (out, c') ∧ c'.Leaves n' q' ∧ q = out.data ++ q' ∧
      (0 < l → n' < n ∨ q = []) := by
  obtain ⟨hsound, rfl, ⟨hheader, rfl⟩ | ⟨hbody, rfl⟩⟩ := h
  · obtain ⟨out, c', n, q, hread, hleaves, hq, hn⟩ := readHeader_leaves hsound hheader l
    refine ⟨out, c'.exitRead, n, q, ?_, hleaves.exitRead, hq, fun _ => .inl hn⟩
    simp [read, hheader.released, hheader.headerRead, hread]
  · by_cases hreleased : c.released = true
    · have hnil := hbody.termErr (hbody.released hreleased)
      refine ⟨⟨[], c.termErr⟩, c, c.reader.signals.length, items c.reader.signals, ?_,
        ⟨hsound, rfl, .inr ⟨hbody, rfl⟩⟩, rfl, fun _ => .inr ?_⟩
      · rw [read, if_pos hreleased]
      · rw [hnil]
        rfl
    · obtain ⟨n, q, hleaves, hq, -, hless⟩ := readBody_leaves hsound hbody l
      refine ⟨(c.readBody l).1, (c.readBody l).2.exitRead, n, q, ?_, hleaves.exitRead, hq,
        fun hl => (hless hl).imp id fun hnil => ?_⟩
      · simp [read, hreleased, if_pos hbody.headerRead]
      · rw [hnil]
        rfl

end Conn

def MidLine (done : Bytes) : Prop := ∃ b, done.getLast? = some b ∧ b ≠ 10

/-- What comes next ends a line, and is not all that comes. -/
def LineEndAhead (rest : Bytes) : Prop := ∃ more ≠ [], rest = 10 :: more ∨ rest = 13 :: 10 :: more

/-- The first `k` bytes of the header stop right before the end of one of its lines, or between
the two bytes that end it. The blank line at the end of the header is not meant. -/
def CutsLineEnd (header : Bytes) (k : ℕ) : Prop :=
  MidLine (header.take k) ∧ LineEndAhead (header.drop k)

theorem midLine_append (done : Bytes) (b : UInt8) : MidLine (done ++ [b]) ↔ b ≠ 10 := by
  simp [MidLine]

theorem not_midLine_nil : ¬ MidLine [] := by simp [MidLine]

theorem LineEndAhead.of_append {cur rest : Bytes} (hcur : 10 ∉ cur) (h : LineEndAhead (cur ++ rest)) :
    LineEndAhead rest := by
  cases cur with
  | nil => exact h
  | cons a cur =>
    obtain ⟨more, hmore, hline | hline⟩ := h
    · cases hline
      exact absurd mem_cons_self hcur
    · obtain ⟨rfl, hrest⟩ := cons.inj hline
      cases cur with
      | nil => exact ⟨more, hmore, .inl hrest⟩
      | cons a cur =>
        cases hrest
        exact absurd (mem_cons_of_mem _ mem_cons_self) hcur

theorem lineEndAhead_line {cur rest : Bytes} (hcur : 10 ∉ cur) :
    LineEndAhead (cur ++ 10 :: rest) ↔ blank (cur ++ [10]) = true ∧ rest ≠ [] := by
  rw [blank_line]
  constructor
  · rintro ⟨more, hmore, hline⟩
    rcases cur with _ | ⟨a, _ | ⟨b, cur⟩⟩
    · rcases hline with hline | hline
      · exact ⟨.inl rfl, (cons.inj hline).2 ▸ hmore⟩
      · exact absurd (cons.inj hline).1 (by decide)
    · rcases hline with hline | hline
      · exact absurd (mem_singleton.mpr (cons.inj hline).1.symm) hcur
      · simp only [cons_append, nil_append, cons.injEq, true_and] at hline
        exact ⟨.inr (by rw [hline.1]), hline.2 ▸ hmore⟩
    · exfalso
      apply hcur
      rcases hline with ⟨rfl, -⟩ | ⟨-, rfl, -⟩
      · exact mem_cons_self
      · exact mem_cons_of_mem _ mem_cons_self
  · rintro ⟨rfl | rfl, hrest⟩
    · exact ⟨rest, hrest, .inl rfl⟩
    · exact ⟨rest, hrest, .inr rfl⟩

theorem not_cutsLineEnd_of_le {k : ℕ} (h : header.length ≤ k) : ¬ CutsLineEnd header k := by
  rw [CutsLineEnd, drop_eq_nil_of_le h]
  rintro ⟨-, more, -, hline | hline⟩ <;> cases hline

/-- The resumed parse stops where the header does if and only if no fault comes right before the
end of a line. Of the current line the parser has seen `cur`, after it lost `lost`. -/
theorem items_resume_iff {total : ℕ} (done lost cur : Bytes) {header body : Bytes}
    {s : List (Signal UInt8 ReadErr)}
    (hok : skip total (lost ++ cur) (header.map .item) = (none, []))
    (hitems : items s = header ++ body) (hcur : 10 ∉ cur) (hdone : MidLine done ↔ lost ++ cur ≠ []) :
    items (resume cur s) = body ↔ (lost = [] ∨ ¬ LineEndAhead (cur ++ header)) ∧
      ∀ k ∈ faultsAfter done.length s, ¬ CutsLineEnd (done ++ header) k := by
  induction s generalizing total done lost cur header with
  | nil =>
    have hnil : header = [] := (append_eq_nil_iff.mp hitems.symm).1
    subst hnil
    simp [skip] at hok
  | cons x s ih =>
    cases x with
    | fault e =>
      rw [resume, ih done (lost ++ cur) [] (by rwa [append_nil]) hitems
        not_mem_nil (by rwa [append_nil]), faultsAfter, forall_mem_cons,
        CutsLineEnd, take_left, drop_left, hdone, nil_append]
      have hahead : LineEndAhead (cur ++ header) → LineEndAhead header := .of_append hcur
      have hlost : lost ++ cur = [] → lost = [] := fun h => (append_eq_nil_iff.mp h).1
      tauto
    | item b =>
      cases header with
      | nil => simp [skip] at hok
      | cons b' header =>
        rw [items_item, cons_append, cons.injEq] at hitems
        obtain ⟨rfl, hitems⟩ := hitems
        have hlength : done.length + 1 = (done ++ [b]).length := by simp
        have hsplit : done ++ b :: header = done ++ [b] ++ header := by simp
        rw [faultsAfter, hlength, hsplit]
        rcases skip_cons hok with ⟨rfl, hblank, rfl⟩ | ⟨rfl, hblank, total₁, hok⟩ | ⟨hb, hok⟩
        · rw [resume, if_pos rfl, if_pos (blank_of_append hblank), lineEndAhead_line hcur]
          refine ⟨fun _ => ⟨.inr fun h => h.2 rfl, fun k hk => ?_⟩, fun _ => hitems⟩
          simpa using not_cutsLineEnd_of_le (le_of_mem_faultsAfter hk)
        · rw [resume, if_pos rfl, lineEndAhead_line hcur]
          have hne : header ≠ [] := by
            rintro rfl
            simp [skip] at hok
          split_ifs with hcurblank
          · -- the rest of the header is taken for the body
            have hlost : lost ≠ [] := by
              rintro rfl
              exact absurd hcurblank (Bool.eq_false_iff.mp hblank)
            have hbody : items s ≠ body := by
              rw [hitems]
              exact fun h => hne (append_left_eq_self.mp h)
            exact iff_of_false hbody fun h => h.1.elim hlost fun h => h ⟨hcurblank, hne⟩
          · rw [ih (done ++ [10]) [] [] hok hitems not_mem_nil
              (by rw [midLine_append]; simp)]
            simp [hcurblank]
        · rw [resume, if_neg hb]
          rw [append_assoc] at hok
          simp [ih (done ++ [b]) lost (cur ++ [b]) hok hitems (by simpa [hcur] using Ne.symm hb) (by rw [midLine_append]; simp [hb])]

/-- An accepted header and a body, cut into chunks in any way, with timeouts anywhere. -/
structure Incoming (header body : Bytes) where
  feed : Feed UInt8 ReadErr
  accepts : Accepts header
  proper : feed.Proper
  timeouts : ∀ x ∈ feed, x.err = none ∨ x.err = some .timeout
  bytes : items feed.signals = header ++ body

theorem Incoming.onlyTimeouts {header body : Bytes} (x : Incoming header body) :
    OnlyTimeouts x.feed.signals := by
  intro e he
  obtain ⟨y, hy, hfault⟩ := mem_flatMap.mp he
  rcases x.timeouts y hy with herr | herr
  · simp [Arrival.signals, herr] at hfault
  · simpa [Arrival.signals, herr] using hfault

/-- A timeout in the middle of a header line loses the front of the line, so that a line of which
only the end is left is taken for the blank one. Everywhere else the parse is resumed. -/
theorem body_returned_iff {header body : Bytes} (x : Incoming header body) :
    (newConn x.feed).ReadsBody body ↔
      ∀ k ∈ faultsAfter 0 x.feed.signals, ¬ CutsLineEnd header k := by
  have hok := skip_of_accepts x.accepts
  have hreads : (newConn x.feed).ReadsBody (items (resume [] x.feed.signals)) := by
    refine ⟨x.feed.signals.length, fun ls => ?_⟩
    apply readsM_exhaust Conn.read Conn.Leaves Conn.read_leaves
    exact ⟨⟨rfl, x.proper, rfl⟩, rfl,
      .inl ⟨⟨rfl, rfl, rfl, body, x.onlyTimeouts, 0, [], header, hok, x.bytes⟩, rfl⟩⟩
  have hiff : items (resume [] x.feed.signals) = body ↔
      ∀ k ∈ faultsAfter 0 x.feed.signals, ¬ CutsLineEnd header k := by
    have := items_resume_iff [] [] [] hok x.bytes not_mem_nil
      (iff_of_false not_midLine_nil (by simp))
    simpa using this
  rw [← hiff]
  constructor
  · intro hbody
    exact Returns.unique hreads hbody
  · intro hbody
    rwa [hbody] at hreads

def sampleHeader : Bytes := Protocol.ascii "HTTP/1.1 200 OK\r\nServer: a\r\n\r\n"

def sampleFeed : Feed UInt8 ReadErr :=
  [⟨sampleHeader.take 15, some .timeout⟩, ⟨sampleHeader.drop 15, none⟩, ⟨[7], none⟩]

theorem accepts_sampleHeader : Accepts sampleHeader := by
  have h : (discardResponseHeader (newConn (.single sampleHeader)).reader).map
      (fun out => (out.1, out.2.signals)) = some (none, []) := by decide +kernel
  obtain ⟨⟨err, r⟩, hdiscard, hout⟩ := map_eq_some_iff.mp h
  obtain ⟨rfl, hsignals⟩ := Prod.mk.inj hout
  exact ⟨r, hdiscard, hsignals⟩

def sampleIncoming : Incoming sampleHeader [7] where
  feed := sampleFeed
  accepts := accepts_sampleHeader
  proper := by
    unfold Feed.Proper
    decide +kernel
  timeouts := by decide +kernel
  bytes := by decide +kernel

/-- The second line of the header comes back as the body. -/
theorem header_returned_as_body :
    (readsM Conn.read (newConn sampleIncoming.feed) [64, 64]).map received =
      some (Protocol.ascii "Server: a\r\n\r\n") ∧ ¬ (newConn sampleIncoming.feed).ReadsBody [7] := by
  have hreads : (readsM Conn.read (newConn sampleIncoming.feed) [64, 64]).map received =
      some (Protocol.ascii "Server: a\r\n\r\n") := by decide +kernel
  refine ⟨hreads, ?_⟩
  rintro ⟨n, hbody⟩
  obtain ⟨outs, houts, hfront, -⟩ := hbody [64, 64]
  rw [houts] at hreads
  rw [show received outs = _ from some.inj hreads] at hfront
  exact absurd hfront (by decide +kernel)

end Outbound.Transport.Httpheader
