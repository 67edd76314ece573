import Outbound.Zeroalloc.Bufio

/-! The transport that hides a stream behind an HTTP response header: the reads of its connection.
`none` stands for a panic of the source. -/
namespace Outbound

open Lib Zeroalloc.Bufio Option

def Netproxy.isTerminalReadErr (e : ReadErr) : Bool := e == .eof || e == .closed || e == .canceled

variable (total : ℕ) (line : Bytes) (feed : Feed UInt8 ReadErr)

namespace Transport.Httpheader

def maxResponseHeader : ℕ := 8192

def bufioBufferSize : ℕ := 32768

inductive ConnErr where
  | errorf (text : String)
  | wrap (text : String) (cause : ReadErr)
  | plain (cause : ReadErr)
deriving DecidableEq

def errResponseHeaderTooLarge : ConnErr := .errorf "HTTP response header is too large"

def headerErr (cause : ReadErr) : ConnErr := .wrap "httpheader: read response header" cause

def blank : Bool := line == [13, 10] || line == [10]

def discardLoop : ℕ → ℕ → Reader → Option (Option ConnErr × Reader)
  | 0, _, _ => none
  | fuel + 1, total, r => (r.readSlice 10).bind fun (line, err, r) =>
    let total := total + line.length
    if maxResponseHeader < total ∨ err = some .bufferFull then
      some (some errResponseHeaderTooLarge, r)
    else
      match err with
      | some e => some (some (headerErr e), r)
      | none => if blank line then some (none, r) else discardLoop fuel total r

def discardResponseHeader (r : Reader) : Option (Option ConnErr × Reader) :=
  discardLoop (r.signals.length + 1) 0 r

def isRetryableHeaderErr : ConnErr → Bool
  | .wrap _ cause => cause == .timeout
  | .plain cause => cause == .timeout
  | .errorf _ => false

structure Conn where
  reader : Reader
  headerRead : Bool
  readErr : Option ConnErr
  termErr : Option ConnErr
  released : Bool

abbrev ConnRead := ReadOut UInt8 ConnErr

def newConn : Conn :=
  ⟨newReaderSize feed bufioBufferSize, false, none, none, false⟩

namespace Conn

variable (c : Conn) (l : ℕ)

def setReader (r : Reader) : Conn := { c with reader := r }

def endHeader : Conn := { c with headerRead := true }

def recordTerminalErr (e : ConnErr) : Conn :=
  if c.termErr = none then { c with termErr := some e } else c

def recordIfTerminal : Option ReadErr → Conn
  | some e => if Netproxy.isTerminalReadErr e then c.recordTerminalErr (.plain e) else c
  | none => c

/-- The end of a read, of which there is one at a time: the buffer goes back to its pool when the
read side is over and nothing is buffered. -/
def exitRead : Conn :=
  if !c.released && c.termErr.isSome && c.reader.window.isEmpty then { c with released := true }
  else c

def readBody : ConnRead × Conn :=
  match c.readErr with
  | some e => (⟨[], some e⟩, c)
  | none =>
    let out := c.reader.read l
    (⟨out.1.data, out.1.err.map .plain⟩, (c.setReader out.2).recordIfTerminal out.1.err)

def failHeader (e : ConnErr) : Conn :=
  { c with headerRead := true, readErr := some e }.recordTerminalErr e

def readHeader : Option (ConnRead × Conn) :=
  (discardResponseHeader c.reader).bind fun (err, r) =>
    match err with
    | none => some ((c.setReader r).endHeader.readBody l)
    | some e =>
      some (⟨[], some e⟩,
        if isRetryableHeaderErr e then c.setReader r else (c.setReader r).failHeader e)

def read : Option (ConnRead × Conn) :=
  if c.released then some (⟨[], c.termErr⟩, c)
  else
    (if c.headerRead then some (c.readBody l) else c.readHeader l).map
      fun out => (out.1, out.2.exitRead)

/-- The reads of the connection return the given bytes: always a front of them, and all of them
after enough reads. -/
def ReadsBody (c : Conn) (body : Bytes) : Prop :=
  ∃ n, ∀ ls : List ℕ, ∃ outs, readsM read c ls = some outs ∧ received outs <+: body ∧
    ((∀ l ∈ ls, 0 < l) → n < ls.length → received outs = body)

end Conn

/-- A header that the parser accepts when it arrives byte by byte, without a fault. -/
def Accepts (header : Bytes) : Prop :=
  ∃ r, discardResponseHeader (newConn (.single header)).reader = some (none, r) ∧ r.signals = []

def skip : ℕ → Bytes → List (Signal UInt8 ReadErr) → Option ConnErr × List (Signal UInt8 ReadErr)
  | total, line, [] =>
    (some (if maxResponseHeader < total + line.length then errResponseHeaderTooLarge
      else headerErr .eof), [])
  | total, line, .fault e :: s =>
    (some (if maxResponseHeader < total + line.length ∨ e = .bufferFull then
      errResponseHeaderTooLarge else headerErr e), s)
  | total, line, .item b :: s =>
    if b = 10 then
      if maxResponseHeader < total + line.length + 1 then (some errResponseHeaderTooLarge, s)
      else if blank (line ++ [b]) then (none, s)
      else skip (total + line.length + 1) [] s
    else skip total (line ++ [b]) s

theorem nextLine_none {delim : UInt8} {s : List (Signal UInt8 ReadErr)}
    (h : (nextLine delim s).2.1 = none) : (nextLine delim s).2.2.length < s.length := by
  induction s with
  | nil => simp [nextLine] at h
  | cons x s ih =>
    cases x with
    | fault e => simp [nextLine] at h
    | item b =>
      unfold nextLine at h ⊢
      split_ifs at h ⊢
      · exact Nat.lt_succ_self _
      · exact Nat.lt_succ_of_lt (ih h)

theorem skip_nextLine (s : List (Signal UInt8 ReadErr)) :
    skip total line s =
      let next := nextLine 10 s
      let total := total + (line ++ next.1).length
      match next.2.1 with
      | some e => (some (if maxResponseHeader < total ∨ e = .bufferFull then
          errResponseHeaderTooLarge else headerErr e), next.2.2)
      | none =>
        if maxResponseHeader < total then (some errResponseHeaderTooLarge, next.2.2)
        else if blank (line ++ next.1) then (none, next.2.2)
        else skip total [] next.2.2 := by
  induction s generalizing line with
  | nil => simp [skip, nextLine]
  | cons x s ih =>
    cases x with
    | fault e => simp [skip, nextLine]
    | item b =>
      rw [skip, nextLine]
      by_cases hb : b = 10
      · rw [if_pos hb, if_pos hb]
        simp [Nat.add_assoc]
      · rw [if_neg hb, if_neg hb, ih]
        simp [List.append_assoc]

theorem discardLoop_spec (fuel total : ℕ) {r : Reader} (hproper : r.feed.Proper)
    (hsize : maxResponseHeader < r.size) (hfuel : r.signals.length < fuel) :
    ∃ err r', discardLoop fuel total r = some (err, r') ∧ r'.size = r.size ∧ r'.feed.Proper ∧
      err = (skip total [] r.signals).1 ∧
      (err ≠ some errResponseHeaderTooLarge → r'.signals = (skip total [] r.signals).2) := by
  induction fuel generalizing total r with
  | zero => exact absurd hfuel (Nat.not_lt_zero _)
  | succ fuel ih =>
    obtain ⟨line, e, r', hread, hsize', hproper', hline⟩ := Reader.readSlice_spec 10 hproper
    have hskip := skip_nextLine total [] r.signals
    unfold discardLoop
    rw [hread, bind_some]
    dsimp only [List.nil_append] at hskip ⊢
    rcases hline with hline | ⟨hlong, hlong'⟩
    · have hnext : nextLine 10 r.signals = (line, e, r'.signals) := hline.symm
      rw [hnext] at hskip
      cases e with
      | some e =>
        simp only [some.injEq] at hskip ⊢
        rw [hskip]
        split_ifs
        · exact ⟨_, r', rfl, hsize', hproper', rfl, fun _ => rfl⟩
        · exact ⟨_, r', rfl, hsize', hproper', rfl, fun _ => rfl⟩
      | none =>
        simp only [reduceCtorEq, or_false] at hskip ⊢
        rw [hskip]
        split_ifs
        · exact ⟨_, r', rfl, hsize', hproper', rfl, fun _ => rfl⟩
        · exact ⟨_, r', rfl, hsize', hproper', rfl, fun _ => rfl⟩
        · have hless : (nextLine 10 r.signals).2.2.length < r.signals.length :=
            nextLine_none (by rw [hnext])
          rw [hnext] at hless
          obtain ⟨err, r'', hloop, hsize'', hrest⟩ := ih (total + line.length) hproper'
            (hsize' ▸ hsize) (Nat.lt_of_lt_of_le hless (Nat.le_of_lt_succ hfuel))
          exact ⟨err, r'', hloop, hsize''.trans hsize', hrest⟩
    · -- a line that fills the buffer is longer than any header
      have htotal : maxResponseHeader < total + line.length := by omega
      have htotal' : maxResponseHeader < total + (nextLine 10 r.signals).1.length := by omega
      rw [if_pos (.inl htotal)]
      refine ⟨_, r', rfl, hsize', hproper', ?_, fun hne => absurd rfl hne⟩
      rw [hskip]
      cases (nextLine 10 r.signals).2.1 with
      | some e => simp [htotal']
      | none => simp [htotal']

theorem discardResponseHeader_spec {r : Reader} (hproper : r.feed.Proper)
    (hsize : maxResponseHeader < r.size) :
    ∃ err r', discardResponseHeader r = some (err, r') ∧ r'.size = r.size ∧ r'.feed.Proper ∧
      err = (skip 0 [] r.signals).1 ∧
      (err ≠ some errResponseHeaderTooLarge → r'.signals = (skip 0 [] r.signals).2) :=
  discardLoop_spec _ 0 hproper hsize (Nat.lt_succ_self _)

theorem maxResponseHeader_lt : maxResponseHeader < bufioBufferSize := by decide

@[simp] theorem signals_newConn :
    (newConn feed).reader.signals = feed.signals := rfl

theorem skip_of_accepts {header : Bytes} (h : Accepts header) :
    skip 0 [] (header.map .item) = (none, []) := by
  obtain ⟨r, hdiscard, hend⟩ := h
  obtain ⟨err, r', hspec, -, -, herr, hrest⟩ := discardResponseHeader_spec
    (r := (newConn (.single header)).reader) (Feed.proper_single header)
    maxResponseHeader_lt
  rw [hdiscard] at hspec
  cases hspec
  rw [signals_newConn, Feed.signals_single] at herr hrest
  exact Prod.ext herr.symm ((hrest (some_ne_none _).symm).symm.trans hend)

end Transport.Httpheader

end Outbound
