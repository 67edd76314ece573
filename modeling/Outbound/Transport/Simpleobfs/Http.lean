import Outbound.Lib.Bytes
import Outbound.Lib.Feed
import Mathlib.Data.List.Infix

/-! The HTTP form of simple-obfs: the reads of a connection whose stream starts with the header of a
response, when timeouts come between them. -/
namespace Outbound.Transport.Simpleobfs

open Lib List Option

inductive Err where
  | eof
  | timeout
  | errorf (text : String)
deriving DecidableEq

def maxResponseHeaderSize : ℕ := 8 * 1024

def blankLine : Bytes := [13, 10, 13, 10]

def index (sep s : Bytes) : Option ℕ := s.tails.findIdx? sep.isPrefixOf

section Index

variable {sep s t : Bytes} {k : ℕ}

section

variable (hsep : sep ≠ [])

include hsep

theorem index_eq_some_iff : index sep s = some k ↔
    sep <+: s.drop k ∧ ∀ i < k, ¬ sep <+: s.drop i := by
  rw [index, findIdx?_eq_some_iff_getElem]
  simp only [getElem_tails, List.isPrefixOf_iff_prefix, length_tails]
  constructor
  · rintro ⟨-, h⟩
    exact h
  · intro h
    refine ⟨?_, h⟩
    by_contra hk
    rw [drop_eq_nil_of_le (by omega)] at h
    exact hsep (prefix_nil.mp h.1)

theorem le_of_index (h : index sep s = some k) : k + sep.length ≤ s.length := by
  have hlength := ((index_eq_some_iff hsep).mp h).1.length_le
  have := length_pos_of_ne_nil hsep
  rw [length_drop] at hlength
  omega

theorem index_append_iff (hk : k + sep.length ≤ s.length) :
    index sep (s ++ t) = some k ↔ index sep s = some k := by
  have hsame : ∀ i ≤ k, (sep <+: (s ++ t).drop i ↔ sep <+: s.drop i) := by
    intro i hi
    rw [drop_append_of_le_length (by omega)]
    constructor
    · intro h
      apply prefix_of_prefix_length_le h (prefix_append _ _)
      rw [length_drop]
      omega
    · exact fun h => h.trans (prefix_append _ _)
  rw [index_eq_some_iff hsep, index_eq_some_iff hsep, hsame k (Nat.le_refl k)]
  refine and_congr_right fun _ => forall_congr' fun i => imp_congr_right fun hi => ?_
  rw [hsame i (Nat.le_of_lt hi)]

theorem index_append (h : index sep s = some k) : index sep (s ++ t) = some k :=
  (index_append_iff hsep (le_of_index hsep h)).mpr h

theorem index_of_append (h : index sep (s ++ t) = some (s.length + k)) : index sep t = some k := by
  rw [index_eq_some_iff hsep] at h ⊢
  rw [drop_append, drop_eq_nil_of_le (by omega), nil_append, Nat.add_sub_cancel_left] at h
  refine ⟨h.1, fun i hi => ?_⟩
  have := h.2 (s.length + i) (by omega)
  rwa [drop_append, drop_eq_nil_of_le (by omega), nil_append, Nat.add_sub_cancel_left] at this

end

theorem index_nil : index blankLine [] = none := rfl

end Index

/-- The reading half of a connection. `buf` is what is left of the source's `buf` behind `offset`; the
source also keeps `headerBuf` here, which it sets to nil wherever it leaves the loop. -/
structure HTTPObfs where
  conn : Feed UInt8 Err
  buf : Bytes
  firstResponse : Bool

/-- The loop of `readFirstResponse`, up to the bytes behind the header. Every round but the last gets
data, which is what the fuel is for. -/
def readHeader : ℕ → Bytes → Feed UInt8 Err → Option (Except Err Bytes × Feed UInt8 Err)
  | 0, _, _ => none
  | fuel + 1, headerBuf, conn =>
    let (arrival, conn) := conn.read .eof 32768
    match arrival.err with
    | some e => some (.error e, conn)
    | none =>
      let headerBuf := headerBuf ++ arrival.data
      match index blankLine headerBuf with
      | none =>
        if maxResponseHeaderSize < headerBuf.length then
          some (.error (.errorf "simple-obfs http: response header exceeds 8192 bytes"), conn)
        else readHeader fuel headerBuf conn
      | some idx => some (.ok (headerBuf.drop (idx + 4)), conn)

namespace HTTPObfs

def new (conn : Feed UInt8 Err) : HTTPObfs := ⟨conn, [], true⟩

def readFirstResponse (ho : HTTPObfs) (l : ℕ) : Option (ReadOut UInt8 Err × HTTPObfs) :=
  (readHeader (ho.conn.signals.length + 1) [] ho.conn).map fun (res, conn) =>
    match res with
    | .error e => (⟨[], some e⟩, { ho with conn := conn })
    | .ok body => (⟨body.take l, none⟩, ⟨conn, body.drop l, false⟩)

def readConn (ho : HTTPObfs) (l : ℕ) : ReadOut UInt8 Err × HTTPObfs :=
  let (arrival, conn) := ho.conn.read .eof l
  (⟨arrival.data, arrival.err⟩, { ho with conn := conn })

def read (ho : HTTPObfs) (l : ℕ) : Option (ReadOut UInt8 Err × HTTPObfs) :=
  if ho.buf ≠ [] then some (⟨ho.buf.take l, none⟩, { ho with buf := ho.buf.drop l })
  else if ho.firstResponse then
    (ho.readFirstResponse l).map fun (out, ho) =>
      if out.err ≠ none ∨ out.data ≠ [] then (out, ho) else ho.readConn l
  else some (ho.readConn l)

end HTTPObfs

/-- How the loop ends: with the first blank line, or before it with an error, when all that was read
of the header is lost. -/
inductive HeaderRead (headerBuf : Bytes) (s : List (Signal UInt8 Err)) :
    Except Err Bytes → List (Signal UInt8 Err) → Prop
  | found (d : Bytes) (idx : ℕ) (s' : List (Signal UInt8 Err)) (hs : s = d.map .item ++ s')
    (hidx : index blankLine (headerBuf ++ d) = some idx) :
    HeaderRead headerBuf s (.ok ((headerBuf ++ d).drop (idx + 4))) s'
  | failed (d : Bytes) (err : Option Err) (e : Err) (s' : List (Signal UInt8 Err))
    (htakes : Feed.TakesOff .eof s d err s') (hnone : index blankLine (headerBuf ++ d) = none)
    (hend : err ≠ none ∨ maxResponseHeaderSize < (headerBuf ++ d).length) :
    HeaderRead headerBuf s (.error e) s'

theorem HeaderRead.more {headerBuf d : Bytes} {s s' : List (Signal UInt8 Err)}
    {res : Except Err Bytes} (h : HeaderRead (headerBuf ++ d) s res s') :
    HeaderRead headerBuf (d.map .item ++ s) res s' := by
  cases h with
  | found d' idx _ hs hidx =>
    rw [append_assoc] at hidx ⊢
    exact .found (d ++ d') idx s' (by simp [hs]) hidx
  | failed d' err e _ htakes hnone hend =>
    rw [append_assoc] at hnone hend
    exact .failed (d ++ d') err e s' (htakes.append d) hnone hend

theorem readHeader_spec {fuel : ℕ} {headerBuf : Bytes} {conn : Feed UInt8 Err}
    (hconn : conn.Separate) (hnone : index blankLine headerBuf = none)
    (hfuel : conn.signals.length < fuel) :
    ∃ res conn', readHeader fuel headerBuf conn = some (res, conn') ∧ conn'.Separate ∧
      HeaderRead headerBuf conn.signals res conn'.signals := by
  induction fuel generalizing headerBuf conn with
  | zero => exact absurd hfuel (Nat.not_lt_zero _)
  | succ fuel ih =>
    obtain ⟨htakes, hconn', hfault, hsome⟩ := hconn.read .eof 32768
    unfold readHeader
    generalize conn.read .eof 32768 = r at htakes hconn' hfault hsome
    obtain ⟨⟨d, err⟩, conn'⟩ := r
    dsimp only at htakes hconn' hfault hsome ⊢
    cases err with
    | some e =>
      obtain rfl : d = [] := hfault (some_ne_none e)
      refine ⟨_, _, rfl, hconn', .failed [] (some e) e _ htakes ?_ (.inl (some_ne_none e))⟩
      rwa [append_nil]
    | none =>
      cases hidx : index blankLine (headerBuf ++ d) with
      | some idx => exact ⟨_, _, rfl, hconn', .found d idx _ htakes.of_none hidx⟩
      | none =>
        split_ifs with hlarge
        · exact ⟨_, _, rfl, hconn', .failed d none _ _ htakes hidx (.inr hlarge)⟩
        · have hdata : 0 < d.length :=
            length_pos_of_ne_nil ((hsome (by decide)).resolve_right fun hne => hne rfl)
          rw [htakes.of_none] at hfuel ⊢
          rw [length_append, length_map] at hfuel
          obtain ⟨res, conn'', hread, hsep, hres⟩ := ih hconn' hidx (by omega)
          exact ⟨res, conn'', hread, hsep, hres.more⟩

namespace HTTPObfs

variable {conn : Feed UInt8 Err} {body : Bytes} {l : ℕ}

/-- The connection has these bytes still to return, in at most that many reads that get
something. -/
def Leaves (ho : HTTPObfs) (n : ℕ) (q : Bytes) : Prop :=
  n = ho.buf.length + ho.conn.signals.length ∧ ho.conn.Separate ∧ ho.firstResponse = false ∧
    q = ho.buf ++ ho.conn.rest

theorem readConn_leaves (hconn : conn.Separate) (hroom : body = [] ∨ l = 0) :
    ∃ out ho' n q, readConn ⟨conn, body, false⟩ l = (out, ho') ∧ ho'.Leaves n q ∧
      body ++ conn.rest = out.data ++ q ∧ n ≤ body.length + conn.signals.length ∧
      (0 < l → n < body.length + conn.signals.length ∨ body ++ conn.rest = []) := by
  obtain ⟨htakes, hconn', -, hsome⟩ := hconn.read .eof l
  have hfits := Feed.length_read_le .eof conn l
  unfold readConn
  generalize conn.read .eof l = r at htakes hconn' hsome hfits
  obtain ⟨⟨d, err⟩, conn'⟩ := r
  dsimp only at htakes hconn' hsome hfits ⊢
  have hrest : conn.rest = d ++ conn'.rest := htakes.items_eq
  have hlength := htakes.length_le
  refine ⟨_, _, _, _, rfl, ⟨rfl, hconn', rfl, rfl⟩, ?_, ?_, fun hl => ?_⟩
  · rw [hrest]
    rcases hroom with rfl | rfl
    · rfl
    · rw [eq_nil_of_length_eq_zero (Nat.le_zero.mp hfits), nil_append, nil_append]
  · dsimp only
    omega
  · refine (htakes.length_lt (hsome hl)).imp (Nat.add_lt_add_left · _) fun hnil => ?_
    rw [hroom.resolve_right (Nat.ne_of_gt hl), Feed.rest, hnil]
    rfl

theorem read_leaves (ho : HTTPObfs) (n : ℕ) (q : Bytes) (l : ℕ) (h : ho.Leaves n q) :
    ∃ out ho' n' q', ho.read l = some (out, ho') ∧ ho'.Leaves n' q' ∧ q = out.data ++ q' ∧
      (0 < l → n' < n ∨ q = []) := by
  obtain ⟨rfl, hconn, hfirst, rfl⟩ := h
  obtain ⟨conn, buf, first⟩ := ho
  obtain rfl : first = false := hfirst
  unfold read
  by_cases hbuf : buf = []
  · rw [if_neg (not_not.mpr hbuf), if_neg Bool.false_ne_true]
    obtain ⟨out, ho', n', q', hread, hleaves, hsplit, -, hless⟩ := readConn_leaves (l := l) hconn (.inl hbuf)
    exact ⟨out, ho', n', q', congrArg some hread, hleaves, hsplit, hless⟩
  · rw [if_pos hbuf]
    refine ⟨_, _, _, _, rfl, ⟨rfl, hconn, rfl, rfl⟩, ?_, fun hl => .inl ?_⟩
    · rw [← append_assoc, take_append_drop]
    · apply Nat.add_lt_add_right
      simpa using Nat.sub_lt (length_pos_of_ne_nil hbuf) hl

variable {conn' : Feed UInt8 Err}

theorem read_of_failed {e : Err}
    (hread : readHeader (conn.signals.length + 1) [] conn = some (.error e, conn')) :
    (new conn).read l = some (⟨[], some e⟩, new conn') := by
  unfold read readFirstResponse
  simp [new, hread]

section

variable (hread : readHeader (conn.signals.length + 1) [] conn = some (.ok body, conn'))

include hread

theorem read_of_found :
    (new conn).read l = some (
      if body.take l ≠ [] then (⟨body.take l, none⟩, ⟨conn', body.drop l, false⟩)
      else readConn ⟨conn', body.drop l, false⟩ l) := by
  unfold read readFirstResponse
  simp only [new, hread]
  simp

/-- Once the header is over, what came with it and what is still to come is returned. -/
theorem returns_of_found
    (hconn : conn'.Separate) : Returns read (new conn) (body ++ conn'.rest) := by
  have hbody : ∀ (ho : HTTPObfs) n q, ho.Leaves n q → n ≤ body.length + conn'.signals.length →
      ReturnsIn read (body.length + conn'.signals.length) ho q := by
    intro ho n q hleaves hn ls
    obtain ⟨outs, houts, hfront, hall⟩ := readsM_exhaust read Leaves read_leaves ho n q hleaves ls
    exact ⟨outs, houts, hfront, fun hpos hlt => hall hpos (Nat.lt_of_le_of_lt hn hlt)⟩
  refine ⟨body.length + conn'.signals.length + 1, .step fun l => ?_⟩
  rw [read_of_found hread]
  by_cases hnone : body.take l = []
  · have hall : body.drop l = body := by
      have := take_append_drop l body
      rwa [hnone, nil_append] at this
    have hroom : body = [] ∨ l = 0 := (take_eq_nil_iff.mp hnone).symm
    obtain ⟨out, ho', n, q, hread, hleaves, hsplit, hn, -⟩ := readConn_leaves hconn hroom
    refine ⟨out, ho', q, ?_, hsplit, hbody ho' n q hleaves hn⟩
    rw [if_neg (not_not.mpr hnone), hall, hread]
  · rw [if_pos hnone]
    refine ⟨_, _, _, rfl, ?_, hbody _ _ _ ⟨rfl, hconn, rfl, rfl⟩ (Nat.add_le_add_right ?_ _)⟩
    · rw [← append_assoc, take_append_drop]
    · exact (drop_sublist l body).length_le

end

theorem returns_of_failed {e : Err}
    (hread : readHeader (conn.signals.length + 1) [] conn = some (.error e, conn'))
    (h : Returns read (new conn') body) : Returns read (new conn) body :=
  h.of_idle fun _ => ⟨some e, read_of_failed hread⟩

theorem returns_nil : Returns read (new []) [] := by
  refine ⟨0, readsM_exhaust read (fun ho _ q => ho = new [] ∧ q = []) ?_ (new []) 0 [] ⟨rfl, rfl⟩⟩
  rintro _ n _ l ⟨rfl, rfl⟩
  exact ⟨⟨[], some .eof⟩, new [], n, [], rfl, ⟨rfl, rfl⟩, rfl, fun _ => .inr rfl⟩

/-- Whatever is lost of the header, the reads return some end of the stream, behind a blank line if
it is not empty. -/
theorem exists_returns (hconn : conn.Separate) :
    ∃ q, Returns read (new conn) q ∧ (q = [] ∨ q.length + 4 ≤ conn.rest.length) := by
  induction hn : conn.signals.length using Nat.strong_induction_on generalizing conn with
  | _ n ih =>
    obtain ⟨res, conn', hread, hconn', hres⟩ := readHeader_spec hconn index_nil (Nat.lt_succ_self _)
    cases hres with
    | found d idx _ hs hidx =>
      refine ⟨_, returns_of_found hread hconn', .inr ?_⟩
      have hidx4 : idx + 4 ≤ d.length := le_of_index (by decide) hidx
      rw [Feed.rest, Feed.rest, hs, items_append, items_map, nil_append, length_append,
        length_append, length_drop]
      omega
    | failed d err e _ htakes hnone hend =>
      have hsome : d ≠ [] ∨ err ≠ none := by
        rcases hend with herr | hlarge
        · exact .inr herr
        · exact .inl (ne_nil_of_length_pos (Nat.zero_lt_of_lt hlarge))
      rcases htakes.length_lt hsome with hless | hnil
      · obtain ⟨q, hq, hlength⟩ := ih _ (hn ▸ hless) hconn' rfl
        refine ⟨q, returns_of_failed hread hq, hlength.imp_right fun hle => hle.trans ?_⟩
        simp [Feed.rest, htakes.items_eq]
      · obtain rfl := hconn.eq_nil hnil
        exact ⟨[], returns_nil, .inl rfl⟩

theorem exists_fault {s s' : List (Signal UInt8 Err)} {d : Bytes} {err : Option Err} {k : ℕ}
    (htakes : Feed.TakesOff .eof s d err s') (hnone : index blankLine d = none)
    (hend : err ≠ none ∨ maxResponseHeaderSize < d.length) (hk : index blankLine (items s) = some k)
    (hsize : k + 3 ≤ maxResponseHeaderSize) :
    d.length < k + 4 ∧ ∃ e, s = d.map .item ++ .fault e :: s' := by
  have hshort : d.length < k + 4 := by
    by_contra hlong
    rw [htakes.items_eq, index_append_iff (by decide) (Nat.not_lt.mp hlong), hnone] at hk
    cases hk
  refine ⟨hshort, ?_⟩
  cases htakes with
  | data =>
    have := hend.resolve_left fun hne => hne rfl
    omega
  | fault d e s => exact ⟨e, rfl⟩
  | eof d =>
    rw [items_map, hnone] at hk
    cases hk

theorem returns_iff {k : ℕ} (m : ℕ) (hconn : conn.Separate)
    (hk : index blankLine conn.rest = some k) (hsize : k + 3 ≤ maxResponseHeaderSize)
    (hbody : conn.rest.drop (k + 4) = body) :
    Returns read (new conn) body ↔
      body = [] ∨ ∀ p ∈ faultsAfter m conn.signals, p ≤ m + k ∨ m + k + 4 ≤ p := by
  induction hn : conn.signals.length using Nat.strong_induction_on generalizing conn m k with
  | _ n ih =>
    obtain ⟨res, conn', hread, hconn', hres⟩ := readHeader_spec hconn index_nil (Nat.lt_succ_self _)
    cases hres with
    | found d idx _ hs hidx =>
      rw [nil_append] at hidx
      have hrest : conn.rest = d ++ conn'.rest := by rw [Feed.rest, hs, items_append, items_map, Feed.rest]
      rw [hrest, index_append (by decide) hidx, some.injEq] at hk
      subst hk
      have hidx4 : idx + 4 ≤ d.length := le_of_index (by decide) hidx
      rw [hrest, drop_append_of_le_length hidx4] at hbody
      refine iff_of_true (hbody ▸ returns_of_found hread hconn') (.inr fun p hp => .inr ?_)
      rw [hs, faultsAfter_append] at hp
      have := le_of_mem_faultsAfter hp
      omega
    | failed d err e _ htakes hnone hend =>
      obtain ⟨hshort, e', hs⟩ := exists_fault htakes hnone hend hk hsize
      have hrest : conn.rest = d ++ conn'.rest := htakes.items_eq
      obtain ⟨q, hq, hlength⟩ := exists_returns hconn'
      have hiff : Returns read (new conn) body ↔ Returns read (new conn') body := by
        constructor
        · intro h
          rwa [h.unique (returns_of_failed hread hq)]
        · exact returns_of_failed hread
      rw [hiff, hs, faultsAfter_append, faultsAfter, forall_mem_cons]
      by_cases hbefore : d.length ≤ k
      · obtain ⟨k, rfl⟩ := Nat.exists_eq_add_of_le hbefore
        have hless : conn'.signals.length < n := by
          rw [← hn, hs, length_append, length_cons]
          omega
        rw [hrest] at hk hbody
        have hdrop : conn'.rest.drop (k + 4) = body := by
          have hnil : d.drop (d.length + k + 4) = [] := drop_eq_nil_of_le (by omega)
          rw [← hbody, drop_append, hnil, nil_append]
          congr 1
          omega
        rw [ih _ hless (m + d.length) hconn' (index_of_append (by decide) hk) (by omega) hdrop rfl]
        refine or_congr_right ⟨fun h => ⟨.inl (by omega), fun p hp => ?_⟩, fun h p hp => ?_⟩
        · have := h p hp
          omega
        · have := h.2 p hp
          omega
      · have hrest4 : conn'.rest.length < body.length + 4 := by
          have hk4 : k + 4 ≤ conn.rest.length := le_of_index (by decide) hk
          rw [← hbody, length_drop]
          rw [hrest, length_append] at hk4 ⊢
          omega
        constructor
        · intro h
          obtain rfl := h.unique hq
          exact .inl (hlength.resolve_right fun hle => by omega)
        · rintro (rfl | ⟨hp, -⟩)
          · obtain rfl := hlength.resolve_right fun hle => by
              rw [length_nil] at hrest4
              omega
            exact hq
          · omega

/-- A response with its header within the accepted size, cut into reads in any way, with timeouts
between them. -/
structure Response (body : Bytes) where
  conn : Feed UInt8 Err
  separate : conn.Separate
  idx : ℕ
  blank : index blankLine conn.rest = some idx
  size : idx + 3 ≤ maxResponseHeaderSize
  rest : conn.rest.drop (idx + 4) = body

/-- A timeout inside the blank line makes the search start anew behind its front. Everywhere else the
reads go on where they were. -/
theorem body_read_iff {body : Bytes} (r : Response body) :
    Returns read (new r.conn) body ↔
      body = [] ∨ ∀ p ∈ faultsAfter 0 r.conn.signals, p ≤ r.idx ∨ r.idx + 4 ≤ p := by
  have h := returns_iff 0 r.separate r.blank r.size r.rest
  rwa [Nat.zero_add] at h

/-- A header and one byte; the deadline passes in the middle of the blank line. -/
def cutResponse : Response [7] where
  conn := [⟨[72, 13, 10], none⟩, ⟨[], some .timeout⟩, ⟨[13, 10, 7], none⟩]
  separate := by
    unfold Feed.Separate
    decide
  idx := 1
  blank := by decide
  size := by decide
  rest := by decide

/-- No byte of the body is returned: after the timeout the search misses the blank line. -/
theorem timeout_in_blankLine :
    (readsM read (new cutResponse.conn) [9, 9]).map (·.map fun out => (out.data, out.err)) =
      some [([], some .timeout), ([], some .eof)] ∧ ¬ Returns read (new cutResponse.conn) [7] := by
  refine ⟨by decide, ?_⟩
  rw [returns_iff 0 cutResponse.separate cutResponse.blank cutResponse.size cutResponse.rest]
  decide

end HTTPObfs

end Outbound.Transport.Simpleobfs
