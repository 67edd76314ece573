import Outbound.Lib.Bytes
import Outbound.Lib.Feed

/-! The buffered reader over a pooled buffer. `none` stands for a panic of the source. -/
namespace Outbound.Zeroalloc.Bufio

open Lib List Option

inductive ReadErr where
  | eof
  | closed
  | canceled
  | timeout
  | noProgress
  | bufferFull
  | other (text : String)
deriving DecidableEq

/-- The reader's window is what its buffer holds between the two positions. -/
structure Reader where
  size : ℕ
  window : Bytes
  err : Option ReadErr
  feed : Feed UInt8 ReadErr

abbrev Read := ReadOut UInt8 ReadErr

def minReadBufferSize : ℕ := 16

def maxConsecutiveEmptyReads : ℕ := 100

def newReaderSize (feed : Feed UInt8 ReadErr) (size : ℕ) : Reader :=
  ⟨max size minReadBufferSize, [], none, feed⟩

def cutAt (delim : UInt8) : Bytes → Option (Bytes × Bytes)
  | [] => none
  | b :: l => if b = delim then some ([b], l) else (cutAt delim l).map fun c => (b :: c.1, c.2)

namespace Reader

def fillLoop : ℕ → Reader → Reader
  | 0, r => { r with err := some .noProgress }
  | i + 1, r =>
    let x := r.feed.read .eof (r.size - r.window.length)
    let r := { r with window := r.window ++ x.1.data, feed := x.2 }
    match x.1.err with
    | some e => { r with err := some e }
    | none => if x.1.data = [] then fillLoop i r else r

def fill (r : Reader) : Option Reader :=
  if r.size ≤ r.window.length then none else some (fillLoop maxConsecutiveEmptyReads r)

def readSliceLoop (delim : UInt8) : ℕ → Reader → Option (Bytes × Option ReadErr × Reader)
  | 0, _ => none
  | fuel + 1, r =>
    match cutAt delim r.window with
    | some (line, rest) => some (line, none, { r with window := rest })
    | none =>
      match r.err with
      -- the error takes the partial line with it
      | some e => some (r.window, some e, { r with window := [], err := none })
      | none =>
        if r.size ≤ r.window.length then
          some (r.window, some .bufferFull, { r with window := [] })
        else r.fill.bind (readSliceLoop delim fuel)

/-- Every round but the last adds data to the window. -/
def readSlice (delim : UInt8) (r : Reader) : Option (Bytes × Option ReadErr × Reader) :=
  readSliceLoop delim (r.feed.signals.length + 2) r

variable (r : Reader)

def copyOut (l : ℕ) : Read × Reader :=
  (⟨r.window.take l, none⟩, { r with window := r.window.drop l })

def load (x : Arrival UInt8 ReadErr × Feed UInt8 ReadErr) : Reader :=
  { r with window := x.1.data, err := x.1.err, feed := x.2 }

def read (l : ℕ) : Read × Reader :=
  if l = 0 then
    if r.window = [] then (⟨[], r.err⟩, { r with err := none }) else (⟨[], none⟩, r)
  else if r.window = [] then
    match r.err with
    | some e => (⟨[], some e⟩, { r with err := none })
    | none =>
      if r.size ≤ l then
        -- past the buffer, straight to the caller
        let x := r.feed.read .eof l
        (⟨x.1.data, x.1.err⟩, { r with feed := x.2 })
      else
        let x := r.feed.read .eof r.size
        if x.1.data = [] then (⟨[], x.1.err⟩, { r with feed := x.2 })
        else (r.load x).copyOut l
  else r.copyOut l

def signals : List (Signal UInt8 ReadErr) :=
  r.window.map .item ++ (faultOf r.err ++ r.feed.signals)

end Reader

/-- The next line of a stream: up to the delimiter, the next fault or the end. -/
def nextLine (delim : UInt8) :
    List (Signal UInt8 ReadErr) → Bytes × Option ReadErr × List (Signal UInt8 ReadErr)
  | [] => ([], some .eof, [])
  | .fault e :: s => ([], some e, s)
  | .item b :: s =>
    if b = delim then ([b], none, s)
    else
      let next := nextLine delim s
      (b :: next.1, next.2)

theorem cutAt_some {delim : UInt8} {w line rest : Bytes} (h : cutAt delim w = some (line, rest)) :
    ∃ l, delim ∉ l ∧ line = l ++ [delim] ∧ w = l ++ delim :: rest := by
  induction w generalizing line with
  | nil => exact absurd h (some_ne_none _).symm
  | cons b w ih =>
    rw [cutAt] at h
    split_ifs at h with hb
    · cases h
      exact ⟨[], not_mem_nil, by rw [hb]; rfl, by rw [hb]; rfl⟩
    · obtain ⟨⟨line', rest'⟩, hcut, heq⟩ := map_eq_some_iff.mp h
      cases heq
      obtain ⟨l, hl, rfl, rfl⟩ := ih hcut
      refine ⟨b :: l, ?_, rfl, rfl⟩
      simp [hl, Ne.symm hb]

theorem cutAt_none {delim : UInt8} {w : Bytes} (h : cutAt delim w = none) : delim ∉ w := by
  induction w with
  | nil => exact not_mem_nil
  | cons b w ih =>
    rw [cutAt] at h
    split_ifs at h with hb
    simp [ih (map_eq_none_iff.mp h), Ne.symm hb]

section nextLine

variable (delim : UInt8) (s : List (Signal UInt8 ReadErr))

theorem nextLine_append {l : Bytes} (h : delim ∉ l) :
    nextLine delim (l.map .item ++ s) = (l ++ (nextLine delim s).1, (nextLine delim s).2) := by
  induction l with
  | nil => rfl
  | cons b l ih =>
    obtain ⟨hb, hl⟩ : delim ≠ b ∧ delim ∉ l := by simpa using h
    rw [map_cons, cons_append, nextLine, if_neg (Ne.symm hb), ih hl]
    rfl

theorem nextLine_delim (l : Bytes) (h : delim ∉ l) (rest : Bytes) :
    nextLine delim ((l ++ delim :: rest).map .item ++ s) = (l ++ [delim], none, rest.map .item ++ s) := by
  rw [map_append, append_assoc, nextLine_append delim _ h]
  simp [nextLine]

end nextLine

namespace Reader

variable {r : Reader}

theorem fillLoop_spec (n : ℕ) (hproper : r.feed.Proper) (herr : r.err = none)
    (hroom : r.window.length < r.size) :
    (fillLoop (n + 1) r).size = r.size ∧ (fillLoop (n + 1) r).feed.Proper ∧
      (((fillLoop (n + 1) r).signals = r.signals ∧
          (fillLoop (n + 1) r).feed.signals.length < r.feed.signals.length) ∨
        (r.feed = [] ∧ fillLoop (n + 1) r = { r with err := some .eof })) := by
  cases hfeed : r.feed with
  | nil =>
    refine ⟨?_, ?_, .inr ⟨rfl, ?_⟩⟩ <;> simp [fillLoop, hfeed, Feed.read, Feed.Proper]
  | cons x f =>
    have hne : r.feed ≠ [] := by simp [hfeed]
    obtain ⟨hsignals, hrest, hsome, -⟩ := Feed.read_spec .eof (Nat.sub_pos_of_lt hroom) hproper hne
    rw [← hfeed]
    unfold fillLoop
    generalize r.feed.read .eof (r.size - r.window.length) = got at hsignals hrest hsome ⊢
    obtain ⟨⟨data, err⟩, f'⟩ := got
    cases err with
    | some e =>
      refine ⟨rfl, hrest, .inl ⟨?_, ?_⟩⟩
      · simp [signals, herr, hsignals, Arrival.signals]
      · simp only [hsignals, Arrival.signals, length_append, faultOf_some, length_cons]
        omega
    | none =>
      have hdata : data ≠ [] := by simpa using hsome
      dsimp only at hsignals ⊢
      rw [if_neg hdata]
      refine ⟨rfl, hrest, .inl ⟨?_, ?_⟩⟩
      · simp [signals, herr, hsignals, Arrival.signals]
      · have hpos := length_pos_of_ne_nil hdata
        simp only [hsignals, Arrival.signals, length_append, length_map]
        omega

/-- Reading a line takes the next line off the stream, unless the line does not fit the buffer. -/
theorem readSliceLoop_spec (delim : UInt8) (fuel : ℕ) (hproper : r.feed.Proper)
    (hfuel : r.feed.signals.length + (if r.err = none then 1 else 0) < fuel) :
    ∃ line e r', readSliceLoop delim fuel r = some (line, e, r') ∧ r'.size = r.size ∧
      r'.feed.Proper ∧ ((line, e, r'.signals) = nextLine delim r.signals ∨
        (r.size ≤ line.length ∧ r.size ≤ (nextLine delim r.signals).1.length)) := by
  induction fuel generalizing r with
  | zero => exact absurd hfuel (Nat.not_lt_zero _)
  | succ fuel ih =>
    unfold readSliceLoop
    cases hcut : cutAt delim r.window with
    | some cut =>
      obtain ⟨line, rest⟩ := cut
      obtain ⟨l, hl, rfl, hw⟩ := cutAt_some hcut
      refine ⟨_, _, _, rfl, rfl, hproper, .inl ?_⟩
      have hnext := nextLine_delim delim (faultOf r.err ++ r.feed.signals) l hl rest
      rw [← hw] at hnext
      exact hnext.symm
    | none =>
      have hnot := cutAt_none hcut
      have hnext : nextLine delim r.signals =
          (r.window ++ (nextLine delim (faultOf r.err ++ r.feed.signals)).1,
            (nextLine delim (faultOf r.err ++ r.feed.signals)).2) :=
        nextLine_append delim _ hnot
      cases herr : r.err with
      | some e =>
        refine ⟨_, _, _, rfl, rfl, hproper, .inl ?_⟩
        rw [hnext, herr]
        simp [nextLine, signals]
      | none =>
        rw [herr, if_pos rfl] at hfuel
        split_ifs with hfull
        · refine ⟨_, _, _, rfl, rfl, hproper, .inr ⟨hfull, ?_⟩⟩
          rw [hnext, length_append]
          omega
        · have hroom := Nat.lt_of_not_le hfull
          rw [fill, if_neg hfull, bind_some]
          obtain ⟨hsize, hrest, hsame | ⟨hnil, hend⟩⟩ := fillLoop_spec 99 hproper herr hroom
          · obtain ⟨line, e, r', hread, hsize', hproper', hline⟩ := ih hrest (by
              split_ifs <;> omega)
            rw [hsame.1, hsize] at hline
            exact ⟨line, e, r', hread, hsize'.trans hsize, hproper', hline⟩
          · have heof : nextLine delim { r with err := some .eof }.signals =
                nextLine delim r.signals := by
              rw [hnext, herr, hnil]
              simp [signals, nextLine_append delim _ hnot, nextLine]
            change ∃ line e r', readSliceLoop delim fuel (fillLoop (99 + 1) r) = _ ∧ _
            rw [hend]
            obtain ⟨line, e, r', hread, hsize', hproper', hline⟩ :=
              ih (r := { r with err := some .eof }) hproper (by
                simp only [reduceCtorEq, if_false]
                omega)
            rw [heof] at hline
            exact ⟨line, e, r', hread, hsize', hproper', hline⟩

theorem readSlice_spec (delim : UInt8) (hproper : r.feed.Proper) :
    ∃ line e r', r.readSlice delim = some (line, e, r') ∧ r'.size = r.size ∧
      r'.feed.Proper ∧ ((line, e, r'.signals) = nextLine delim r.signals ∨
        (r.size ≤ line.length ∧ r.size ≤ (nextLine delim r.signals).1.length)) := by
  apply readSliceLoop_spec delim _ hproper
  split_ifs <;> omega

/-- A read that takes what it returns off the stream, in order, and fails only with the next fault
or at the end. -/
structure Reads (r : Reader) (l : ℕ) (out : Read) (r' : Reader) : Prop where
  size : r'.size = r.size
  proper : r'.feed.Proper
  split : r.signals = out.data.map .item ++ (faultOf out.err ++ r'.signals) ∨
    (r.signals = [] ∧ out = ⟨[], some .eof⟩ ∧ r'.signals = [])
  some_of_pos : 0 < l → out.data ≠ [] ∨ out.err ≠ none

theorem reads_copyOut (hproper : r.feed.Proper) (hwindow : r.window ≠ []) (l : ℕ) :
    r.Reads l (r.copyOut l).1 (r.copyOut l).2 where
  size := rfl
  proper := hproper
  split := by
    left
    simp only [copyOut, signals, faultOf_none, nil_append]
    rw [← append_assoc (map _ (take l r.window)), ← map_append, take_append_drop]
  some_of_pos := by
    intro hl
    left
    have hpos := length_pos_of_ne_nil hwindow
    apply ne_nil_of_length_pos
    simp only [copyOut, length_take]
    omega

theorem reads_feed (hproper : r.feed.Proper) (hwindow : r.window = []) (herr : r.err = none)
    {k : ℕ} (hk : 0 < k) (l : ℕ) :
    r.Reads l ⟨(r.feed.read .eof k).1.data, (r.feed.read .eof k).1.err⟩
      { r with err := none, feed := (r.feed.read .eof k).2 } := by
  have hsignals : r.signals = r.feed.signals := by simp [signals, hwindow, herr]
  cases hfeed : r.feed with
  | nil =>
    refine ⟨rfl, ?_, .inr ⟨?_, rfl, ?_⟩, fun _ => .inr (some_ne_none _)⟩
    · simp [Feed.read, Feed.Proper]
    · rw [hsignals, hfeed]
      rfl
    · simp [signals, hwindow, Feed.read]
  | cons x f =>
    rw [← hfeed]
    obtain ⟨hsplit, hrest, hsome, -⟩ := Feed.read_spec .eof hk hproper (by simp [hfeed])
    refine ⟨rfl, hrest, .inl ?_, fun _ => hsome⟩
    rw [hsignals, hsplit]
    simp [signals, hwindow, Arrival.signals]

theorem read_spec (hproper : r.feed.Proper) (hsize : 0 < r.size) (l : ℕ) :
    r.Reads l (r.read l).1 (r.read l).2 := by
  unfold read
  by_cases hl : l = 0
  · have hnot : ¬ 0 < l := by omega
    split_ifs with hwindow
    · exact ⟨rfl, hproper, .inl (by simp [signals, hwindow]), fun h => absurd h hnot⟩
    · exact ⟨rfl, hproper, .inl (by simp), fun h => absurd h hnot⟩
  · rw [if_neg hl]
    by_cases hwindow : r.window = []
    · rw [if_pos hwindow]
      cases herr : r.err with
      | some e =>
        refine ⟨rfl, hproper, .inl ?_, fun _ => .inr (some_ne_none _)⟩
        simp [signals, hwindow, herr]
      | none =>
        dsimp only
        by_cases hlarge : r.size ≤ l
        · simpa [hlarge] using reads_feed hproper hwindow herr (Nat.pos_of_ne_zero hl) l
        · have hfed := reads_feed hproper hwindow herr hsize l
          split_ifs with hdata
          · rwa [hdata] at hfed
          · have hne : r.feed ≠ [] := fun hnil => hdata (by rw [hnil]; rfl)
            have hsignals : (r.load (r.feed.read .eof r.size)).signals = r.signals := by
              simp only [signals, load, hwindow, herr, map_nil, faultOf_none, nil_append]
              simp [(Feed.read_spec .eof hsize hproper hne).1, Arrival.signals]
            have hcopy := reads_copyOut (r := r.load (r.feed.read .eof r.size)) hfed.proper hdata l
            refine ⟨hcopy.size, hcopy.proper, ?_, hcopy.some_of_pos⟩
            rw [← hsignals]
            exact hcopy.split
    · rw [if_neg hwindow]
      exact reads_copyOut hproper hwindow l

end Reader

end Outbound.Zeroalloc.Bufio
