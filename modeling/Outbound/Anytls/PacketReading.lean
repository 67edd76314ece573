import Outbound.Anytls.PacketFraming

/-! The datagrams that `ReadFrom` makes of the chunks of a stream, with deadlines in between. -/
namespace Outbound.Anytls

open Lib List Reader

namespace Reader

/-- All the data that is still to come, whatever stops the waits for it. -/
def dataIn : List Arrives → Bytes
  | [] => []
  | .chunk data :: inbound => data ++ dataIn inbound
  | .stop _ :: inbound => dataIn inbound

/-- The data that comes before the first wait that is stopped, and behind it. -/
def availableIn : List Arrives → Bytes
  | [] => []
  | .chunk data :: inbound => data ++ availableIn inbound
  | .stop _ :: _ => []

def laterIn : List Arrives → Bytes
  | [] => []
  | .chunk _ :: inbound => laterIn inbound
  | .stop _ :: inbound => dataIn inbound

def data (r : Reader) : Bytes := r.readBuf ++ dataIn r.inbound

def available (r : Reader) : Bytes := r.readBuf ++ availableIn r.inbound

def later (r : Reader) : Bytes := laterIn r.inbound

theorem dataIn_eq (inbound : List Arrives) : dataIn inbound = availableIn inbound ++ laterIn inbound := by
  induction inbound with
  | nil => rfl
  | cons x inbound ih =>
    cases x with
    | chunk data => simp [dataIn, availableIn, laterIn, ih]
    | stop s => rfl

theorem data_eq (r : Reader) : r.data = r.available ++ r.later := by
  simp [data, available, later, dataIn_eq]

theorem fill_spec (inbound : List Arrives) :
    (∃ chunk inbound', fill inbound = (.ok chunk, inbound') ∧ chunk ≠ [] ∧
      availableIn inbound = chunk ++ availableIn inbound' ∧ laterIn inbound' = laterIn inbound) ∨
    (∃ s inbound', fill inbound = (.error s, inbound') ∧ availableIn inbound = [] ∧
      dataIn inbound' = laterIn inbound) := by
  induction inbound with
  | nil => exact .inr ⟨.eof, [], rfl, rfl, rfl⟩
  | cons x inbound ih =>
    cases x with
    | stop s => exact .inr ⟨s, inbound, rfl, rfl, rfl⟩
    | chunk data =>
      cases data with
      | nil => exact ih
      | cons b data => exact .inl ⟨b :: data, inbound, rfl, cons_ne_nil b data, rfl, rfl⟩

theorem take_spec {buf : Bytes} (hne : buf ≠ []) {l : ℕ} (hl : 0 < l) (rest : Bytes) :
    buf.take l ≠ [] ∧ (buf.take l).length ≤ l ∧ buf ++ rest = buf.take l ++ (buf.drop l ++ rest) := by
  have hpos := length_pos_of_ne_nil hne
  refine ⟨?_, length_take_le l buf, ?_⟩
  · apply ne_nil_of_length_pos
    rw [length_take]
    omega
  · rw [← append_assoc, take_append_drop]

theorem readLocked_spec (r : Reader) {l : ℕ} (hl : 0 < l) :
    (∃ b r', r.readLocked l = (.ok b, r') ∧ b ≠ [] ∧ b.length ≤ l ∧
      r.available = b ++ r'.available ∧ r'.later = r.later) ∨
    (∃ s r', r.readLocked l = (.error s, r') ∧ r.available = [] ∧ r'.data = r.later) := by
  obtain ⟨readBuf, inbound⟩ := r
  cases readBuf with
  | cons b readBuf =>
    obtain ⟨hne, hlen, hsplit⟩ := take_spec (cons_ne_nil b readBuf) hl (availableIn inbound)
    exact .inl ⟨_, _, rfl, hne, hlen, hsplit, rfl⟩
  | nil =>
    rcases fill_spec inbound with ⟨chunk, inbound', hfill, hchunk, havail, hlater⟩ |
      ⟨s, inbound', hfill, havail, hlater⟩
    · left
      obtain ⟨hne, hlen, hsplit⟩ := take_spec hchunk hl (availableIn inbound')
      refine ⟨chunk.take l, ⟨chunk.drop l, inbound'⟩, ?_, hne, hlen, ?_, hlater⟩
      · simp only [readLocked, hfill]
      · change [] ++ availableIn inbound = _
        rwa [nil_append, havail]
    · right
      refine ⟨s, ⟨[], inbound'⟩, ?_, havail, hlater⟩
      simp only [readLocked, hfill]

/-- Reading `k` bytes gets them from what is available, or is stopped and loses what there was. -/
theorem readFullFrom_spec (fuel : ℕ) (r : Reader) (k : ℕ) (got : Bytes) (hfuel : k ≤ fuel) :
    (k ≤ r.available.length → ∃ r', readFullFrom fuel r k got =
        (.ok (got ++ r.available.take k), r') ∧ r'.available = r.available.drop k ∧
        r'.later = r.later) ∧
    (r.available.length < k → ∃ s r', readFullFrom fuel r k got = (.error s, r') ∧
        r'.data = r.later) := by
  induction fuel generalizing r k got with
  | zero =>
    have hk : k = 0 := by omega
    subst hk
    refine ⟨fun _ => ⟨r, ?_, rfl, rfl⟩, fun h => absurd h (Nat.not_lt_zero _)⟩
    rw [take_zero, append_nil]
    rfl
  | succ fuel ih =>
    rcases Nat.eq_zero_or_pos k with rfl | hpos
    · refine ⟨fun _ => ⟨r, ?_, rfl, rfl⟩, fun h => absurd h (Nat.not_lt_zero _)⟩
      rw [take_zero, append_nil]
      rfl
    · have hne : k ≠ 0 := by omega
      unfold readFullFrom
      rw [if_neg hne]
      rcases readLocked_spec r hpos with ⟨b, r', hread, hb, hlen, havail, hlater⟩ |
        ⟨s, r', hread, havail, hdata⟩
      · have hblen := length_pos_of_ne_nil hb
        obtain ⟨hok, hstop⟩ := ih r' (k - b.length) (got ++ b) (by omega)
        rw [hread]
        dsimp only
        rw [havail, length_append]
        constructor
        · intro hk
          obtain ⟨r'', hrun, havail', hlater'⟩ := hok (by omega)
          refine ⟨r'', ?_, ?_, hlater'.trans hlater⟩
          · rw [hrun, take_append, take_of_length_le hlen, append_assoc]
          · rw [havail', drop_append, drop_of_length_le hlen, nil_append]
        · intro hk
          obtain ⟨s, r'', hrun, hdata⟩ := hstop (by omega)
          exact ⟨s, r'', hrun, hdata.trans hlater⟩
      · rw [hread]
        constructor
        · intro hk
          rw [havail, length_nil] at hk
          omega
        · intro _
          exact ⟨s, r', rfl, hdata⟩

variable {r : Reader}

theorem readFullLocked_of_le {k : ℕ} (h : k ≤ r.available.length) :
    ∃ r', r.readFullLocked k = (.ok (r.available.take k), r') ∧
      r'.available = r.available.drop k ∧ r'.later = r.later := by
  obtain ⟨r', hrun, hrest⟩ := (readFullFrom_spec k r k [] (Nat.le_refl k)).1 h
  exact ⟨r', hrun, hrest⟩

theorem readFullLocked_of_lt {k : ℕ} (h : r.available.length < k) :
    ∃ s r', r.readFullLocked k = (.error s, r') ∧ r'.data = r.later :=
  (readFullFrom_spec k r k [] (Nat.le_refl k)).2 h

theorem drainFrom_spec {size : ℕ} (fuel : ℕ) (r : Reader) (n : ℕ) (hsize : 0 < n → 0 < size)
    (hfuel : n ≤ fuel) :
    (n ≤ r.available.length → ∃ r', drainFrom size fuel r n = (none, r') ∧
      r'.available = r.available.drop n ∧ r'.later = r.later) ∧
    (r.available.length < n → ∃ s r', drainFrom size fuel r n = (some s, r') ∧
      r'.data = r.later) := by
  induction fuel generalizing r n with
  | zero =>
    have hn : n = 0 := by omega
    subst hn
    exact ⟨fun _ => ⟨r, rfl, rfl, rfl⟩, fun h => absurd h (Nat.not_lt_zero _)⟩
  | succ fuel ih =>
    rcases Nat.eq_zero_or_pos n with rfl | hpos
    · exact ⟨fun _ => ⟨r, rfl, rfl, rfl⟩, fun h => absurd h (Nat.not_lt_zero _)⟩
    · have hne : n ≠ 0 := by omega
      have hbuf := hsize hpos
      unfold drainFrom
      rw [if_neg hne]
      by_cases hstep : min size n ≤ r.available.length
      · obtain ⟨r', hread, havail, hlater⟩ := readFullLocked_of_le hstep
        obtain ⟨hok, hstop⟩ := ih r' (n - min size n) (fun _ => hbuf) (by omega)
        rw [hread]
        rw [havail, length_drop] at hok hstop
        constructor
        · intro hn
          obtain ⟨r'', hrun, havail', hlater'⟩ := hok (by omega)
          refine ⟨r'', hrun, ?_, hlater'.trans hlater⟩
          rw [havail', drop_drop]
          congr 1
          omega
        · intro hn
          obtain ⟨s, r'', hrun, hdata⟩ := hstop (by omega)
          exact ⟨s, r'', hrun, hdata.trans hlater⟩
      · obtain ⟨s, r', hread, hdata⟩ := readFullLocked_of_lt (Nat.lt_of_not_le hstep)
        rw [hread]
        exact ⟨fun hn => absurd hn (by omega), fun _ => ⟨s, r', rfl, hdata⟩⟩

theorem drainLocked_spec (r : Reader) (n : ℕ) :
    (n ≤ r.available.length → ∃ r', r.drainLocked n = (none, r') ∧
      r'.available = r.available.drop n ∧ r'.later = r.later) ∧
    (r.available.length < n → ∃ s r', r.drainLocked n = (some s, r') ∧ r'.data = r.later) :=
  drainFrom_spec n r n (by omega) (Nat.le_refl n)

def Whole (b : Bytes) : Prop := 2 + beNat (b.take 2) ≤ b.length ∧ 2 ≤ b.length

theorem readFrom_of_whole (addr : AddrPort) (h : Whole r.available) (l : ℕ) :
    ∃ r', r.readFrom addr l =
        (if l < beNat (r.available.take 2) then .dropped addr
          else .ok ((r.available.drop 2).take (beNat (r.available.take 2))) addr, r') ∧
      r'.available = r.available.drop (2 + beNat (r.available.take 2)) ∧ r'.later = r.later := by
  obtain ⟨hwhole, htwo⟩ := h
  obtain ⟨r₁, hread, havail, hlater⟩ := readFullLocked_of_le htwo
  set n := beNat (r.available.take 2) with hn
  have hrest : n ≤ r₁.available.length := by
    rw [havail, length_drop]
    omega
  unfold readFrom
  rw [hread]
  dsimp only
  rw [← hn]
  split_ifs with hshort
  · obtain ⟨r₂, hdrain, havail₂, hlater₂⟩ := (drainLocked_spec r₁ n).1 hrest
    rw [hdrain]
    refine ⟨r₂, rfl, ?_, hlater₂.trans hlater⟩
    rw [havail₂, havail, drop_drop]
  · obtain ⟨r₂, hbody, havail₂, hlater₂⟩ := readFullLocked_of_le hrest
    rw [hbody, havail]
    refine ⟨r₂, rfl, ?_, hlater₂.trans hlater⟩
    rw [havail₂, havail, drop_drop]

theorem readFrom_of_broken (addr : AddrPort) (h : ¬ Whole r.available) (l : ℕ) :
    ∃ s a r', r.readFrom addr l = (⟨[], a, some (Stop.err s)⟩, r') ∧ r'.data = r.later := by
  by_cases htwo : 2 ≤ r.available.length
  · obtain ⟨r₁, hread, havail, hlater⟩ := readFullLocked_of_le htwo
    have hrest : r₁.available.length < beNat (r.available.take 2) := by
      rw [havail, length_drop]
      by_contra hle
      exact h ⟨by omega, htwo⟩
    unfold readFrom
    rw [hread]
    dsimp only
    split_ifs with hshort
    · obtain ⟨s, r₂, hdrain, hdata⟩ := (drainLocked_spec r₁ _).2 hrest
      rw [hdrain]
      exact ⟨s, addr, r₂, rfl, hdata.trans hlater⟩
    · obtain ⟨s, r₂, hbody, hdata⟩ := readFullLocked_of_lt hrest
      rw [hbody]
      exact ⟨s, addr, r₂, rfl, hdata.trans hlater⟩
  · obtain ⟨s, r', hread, hdata⟩ := readFullLocked_of_lt (Nat.lt_of_not_le htwo)
    unfold readFrom
    rw [hread]
    exact ⟨s, .zero, r', rfl, hdata⟩

end Reader

/-- A read, with what is available to it and its room. -/
abbrev Reading := Bytes × ℕ × ReadResult

def Reader.reading (addr : AddrPort) (r : Reader) (l : ℕ) : Reading × Reader :=
  ((r.available, l, (r.readFrom addr l).1), (r.readFrom addr l).2)

/-- What reads report of the datagrams of a stream, and the datagrams that are left after them. A read
that is stopped takes none; it has no whole datagram available. -/
inductive Reads (addr : AddrPort) : List Bytes → List Reading → List Bytes → Prop
  | nil (ds : List Bytes) : Reads addr ds [] ds
  | stopped {ds rest : List Bytes} {rs : List Reading} {b : Bytes} (l : ℕ) (a : AddrPort) (s : Stop)
      (hbroken : ¬ Reader.Whole b) (h : Reads addr ds rs rest) :
      Reads addr ds ((b, l, ⟨[], a, some s.err⟩) :: rs) rest
  | whole {ds rest : List Bytes} {rs : List Reading} {b : Bytes} {l : ℕ} {d : Bytes}
      (hfits : d.length ≤ l) (h : Reads addr ds rs rest) :
      Reads addr (d :: ds) ((b, l, .ok d addr) :: rs) rest
  | dropped {ds rest : List Bytes} {rs : List Reading} {b : Bytes} {l : ℕ} {d : Bytes}
      (hshort : l < d.length) (h : Reads addr ds rs rest) :
      Reads addr (d :: ds) ((b, l, .dropped addr) :: rs) rest

def returned (rs : List Reading) : List Bytes :=
  rs.filterMap fun r => if r.2.2.err = none then some r.2.2.data else none

variable {ds : List Bytes}

theorem Reads.returned_sublist {addr : AddrPort} {rest : List Bytes}
    {rs : List Reading} (h : Reads addr ds rs rest) : (returned rs).Sublist ds := by
  induction h with
  | nil ds => exact nil_sublist ds
  | stopped l a s _ _ ih => exact ih
  | whole hfits _ ih => exact ih.cons_cons _
  | dropped hshort _ ih => exact ih.cons _

/-- The condition on one read: it is stopped before the first byte of a datagram or not before its
last one, or nothing comes after it is stopped. -/
def Reader.Meets (r : Reader) (_ : ℕ) : Prop :=
  r.available = [] ∨ Reader.Whole r.available ∨ r.later = []

theorem length_datagram (d : Bytes) : (datagram d).length = 2 + d.length := by
  simp [datagram, length_beBytes]

theorem beNat_datagram {d : Bytes} (hsize : d.length ≤ maxUDPPayloadSize) (rest : Bytes) :
    beNat ((datagram d ++ rest).take 2) = d.length := by
  have hmax : maxUDPPayloadSize = 65535 := rfl
  simpa [datagram] using beNat_beBytes_of_lt (by omega)

theorem whole_datagram {d : Bytes} (hsize : d.length ≤ maxUDPPayloadSize) (rest : Bytes) :
    Reader.Whole (datagram d ++ rest) := by
  have hlen := length_datagram d
  constructor
  · rw [beNat_datagram hsize, length_append]
    omega
  · rw [length_append]
    omega

/-- A whole datagram at the front of what is available is the first datagram of the stream. -/
theorem datagram_of_whole (hsize : ∀ d ∈ ds, d.length ≤ maxUDPPayloadSize)
    {a : Bytes} (hwhole : Reader.Whole a) (hfront : a <+: ds.flatMap datagram) :
    ∃ d ds' a', ds = d :: ds' ∧ a = datagram d ++ a' ∧ beNat (a.take 2) = d.length := by
  obtain ⟨hlen, htwo⟩ := hwhole
  cases ds with
  | nil =>
    have hnil : a = [] := prefix_nil.mp hfront
    rw [hnil] at htwo
    cases htwo
  | cons d ds =>
    have hd := hsize d mem_cons_self
    have hnat : beNat (a.take 2) = d.length := by
      obtain ⟨rest, hrest⟩ := hfront
      rw [← take_append_of_le_length htwo, hrest]
      exact beNat_datagram hd _
    have hdatagram := length_datagram d
    obtain ⟨a', ha'⟩ := prefix_of_prefix_length_le (prefix_append (datagram d) _) hfront
      (by omega)
    exact ⟨d, ds, a', rfl, ha'.symm, hnat⟩

theorem reads_step (addr : AddrPort) {r : Reader}
    (hsize : ∀ d ∈ ds, d.length ≤ maxUDPPayloadSize) (hfront : r.data <+: ds.flatMap datagram)
    {l : ℕ} (hmeets : r.Meets l) :
    ∃ ds', (∀ rs rest, Reads addr ds' rs rest →
        Reads addr ds ((r.reading addr l).1 :: rs) rest) ∧
      (∀ d ∈ ds', d.length ≤ maxUDPPayloadSize) ∧
      (r.readFrom addr l).2.data <+: ds'.flatMap datagram ∧
      (r.data = ds.flatMap datagram → (r.readFrom addr l).2.data = ds'.flatMap datagram) := by
  have hsplit := r.data_eq
  unfold reading
  by_cases hwhole : Reader.Whole r.available
  · have havail : r.available <+: ds.flatMap datagram := by
      apply List.IsPrefix.trans _ hfront
      rw [hsplit]
      exact prefix_append _ _
    obtain ⟨d, ds', a', rfl, ha, hn⟩ := datagram_of_whole hsize hwhole havail
    obtain ⟨r', hread, havail', hlater⟩ := readFrom_of_whole addr hwhole l
    have hdata : r'.data = a' ++ r.later := by
      rw [r'.data_eq, havail', hlater, hn, ha, drop_left' (length_datagram d)]
    have hbody : (r.available.drop 2).take d.length = d := by
      simp [ha, datagram]
    rw [hsplit, ha, flatMap_cons, append_assoc] at hfront ⊢
    rw [hread, hn, hbody]
    refine ⟨ds', ?_, fun e he => hsize e (mem_cons_of_mem d he), ?_, ?_⟩
    · intro rs rest hrs
      split_ifs with hshort
      · exact .dropped hshort hrs
      · exact .whole (Nat.le_of_not_lt hshort) hrs
    · rw [hdata]
      exact (prefix_append_right_inj _).mp hfront
    · intro hall
      rw [hdata]
      exact append_cancel_left hall
  · obtain ⟨s, a, r', hread, hdata⟩ := readFrom_of_broken addr hwhole l
    rw [hread]
    refine ⟨ds, fun rs rest hrs => .stopped l a s hwhole hrs, hsize, ?_, ?_⟩
    · rw [hdata]
      rw [hsplit] at hfront
      rcases hmeets with hnone | habsurd | hlast
      · rwa [hnone, nil_append] at hfront
      · exact absurd habsurd hwhole
      · rw [hlast]
        exact List.nil_prefix
    · intro hall
      rw [hdata, ← hall, hsplit]
      rw [hsplit] at hall
      rcases hmeets with hnone | habsurd | hlast
      · rw [hnone, nil_append]
      · exact absurd habsurd hwhole
      · -- everything is available, so that it is nothing: it would be whole otherwise
        rw [hlast, append_nil] at hall ⊢
        cases ds with
        | nil => exact hall.symm
        | cons d ds =>
          rw [hall] at hwhole
          exact absurd (whole_datagram (hsize d mem_cons_self) _) hwhole

theorem reads_run (addr : AddrPort) (ls : List ℕ) {r : Reader}
    (hsize : ∀ d ∈ ds, d.length ≤ maxUDPPayloadSize) (hfront : r.data <+: ds.flatMap datagram)
    (hrun : Run.Along (readFrom addr) Reader.Meets r ls) :
    ∃ rest, Reads addr ds (Run.answers (reading addr) r ls) rest ∧
      (r.data = ds.flatMap datagram →
        (Run.exec (readFrom addr) r ls).data = rest.flatMap datagram) := by
  induction ls generalizing r ds with
  | nil => exact ⟨ds, .nil ds, fun hall => hall⟩
  | cons l ls ih =>
    obtain ⟨ds', hreads, hsize', hfront', hall'⟩ := reads_step addr hsize hfront hrun.1
    obtain ⟨rest, hrest, hdone⟩ := ih hsize' hfront' hrun.2
    exact ⟨rest, hreads _ _ hrest, fun hall => hdone (hall' hall)⟩

/-! ## Both directions -/

/-- However datagrams are grouped into calls, the session carries the header once, in front of the
first datagram, and every datagram behind its length. Where no deadline strikes inside a datagram,
the reads return the peer's datagrams one by one, each whole or reported as dropped. -/
theorem datagrams_over_stream (parseAddr : String → Except Error Bytes) (c : Sender) (hc : c.Ready)
    (hnew : c.ps.udpWriteAddr = false) (tgtAddr : Bytes) (calls : List Send)
    (hsize : ∀ call ∈ calls, ∀ d ∈ call.datagrams, d.length ≤ maxUDPPayloadSize)
    (htarget : ∀ call ∈ calls, call.Targets parseAddr c tgtAddr)
    (addr : AddrPort) (r : Reader) (ds : List Bytes)
    (hlen : ∀ d ∈ ds, d.length ≤ maxUDPPayloadSize) (hstream : r.data <+: ds.flatMap datagram)
    (ls : List ℕ) (hrun : Run.Along (readFrom addr) Reader.Meets r ls) :
    (∃ c' sent out, Run.answersM (Sender.send parseAddr) c calls =
        some (calls.map Send.owed, c') ∧
      c'.session.conn.sent = c.session.conn.sent ++ sent ∧ wholeFrames sent = some out ∧
      streamBytes c.ps.id out =
        (if calls.flatMap Send.datagrams = [] then [] else [1] ++ tgtAddr) ++
          (calls.flatMap Send.datagrams).flatMap datagram) ∧
    ∃ rest, Reads addr ds (Run.answers (reading addr) r ls) rest ∧
      (r.data = ds.flatMap datagram →
        (Run.exec (readFrom addr) r ls).data = rest.flatMap datagram) := by
  refine ⟨?_, reads_run addr ls hlen hstream hrun⟩
  obtain ⟨c', hsend, hwrote⟩ := Sender.sends_wrote parseAddr hc calls hsize htarget
  obtain ⟨fs, out, hcarry, hpad, hfits, hsent⟩ := hwrote.frames
  refine ⟨c', encodeFrames out, out, hsend, hsent, wholeFrames_encodeFrames out hfits, ?_⟩
  rw [hcarry.streamBytes_padded hpad, streamOf, hnew, Bool.false_or]
  simp

def sampleSender : Sender := ⟨⟨1, "", .zero, false, false⟩, sampleSession⟩

theorem datagrams_over_stream_sample :
    (∃ c' sent out, Run.answersM (Sender.send fun _ => .ok [5]) sampleSender
        [.writeTo [7] "a" fun _ _ => 0, .writeBatch [⟨[], ""⟩, ⟨[8], ""⟩] fun _ => 0] =
          some ([⟨1, none⟩, ⟨2, none⟩], c') ∧
      c'.session.conn.sent = sampleSession.conn.sent ++ sent ∧ wholeFrames sent = some out ∧
      streamBytes 1 out = [1, 5] ++ [0, 1, 7, 0, 0, 0, 1, 8]) ∧
    ∃ rest, Reads .zero [[9], []] (Run.answers (reading .zero)
      ⟨[], [.chunk [0], .chunk [1, 9, 0], .chunk [0], .stop .deadlineExceeded]⟩ [4, 4, 4]) rest := by
  have hsize : ∀ call ∈ [Send.writeTo [7] "a" fun _ _ => 0,
      .writeBatch [⟨[], ""⟩, ⟨[8], ""⟩] fun _ => 0], ∀ d ∈ call.datagrams,
        d.length ≤ maxUDPPayloadSize := by decide
  have htarget : ∀ call ∈ [Send.writeTo [7] "a" fun _ _ => 0,
      .writeBatch [⟨[], ""⟩, ⟨[8], ""⟩] fun _ => 0],
        call.Targets (fun _ => .ok [5]) sampleSender [5] := by
    exact forall_mem_cons.mpr ⟨rfl, forall_mem_singleton.mpr fun _ _ => rfl⟩
  have hrun : Run.Along (readFrom .zero) Reader.Meets
      ⟨[], [.chunk [0], .chunk [1, 9, 0], .chunk [0], .stop .deadlineExceeded]⟩ [4, 4, 4] :=
    ⟨.inr (.inr rfl), .inr (.inr rfl), .inl rfl, trivial⟩
  obtain ⟨hsend, rest, hreads, -⟩ := datagrams_over_stream (fun _ => .ok [5]) sampleSender
    ⟨rfl, rfl⟩ rfl [5] [.writeTo [7] "a" fun _ _ => 0, .writeBatch [⟨[], ""⟩, ⟨[8], ""⟩] fun _ => 0]
    hsize htarget .zero ⟨[], [.chunk [0], .chunk [1, 9, 0], .chunk [0], .stop .deadlineExceeded]⟩
    [[9], []] (by decide) ⟨[], rfl⟩ [4, 4, 4] hrun
  exact ⟨hsend, rest, hreads⟩

/-- A deadline between the length and the body of the datagram 0, 0: the body is then taken for the
length of an empty datagram, which the stream does not have. -/
theorem deadline_inside_datagram : ¬ ∀ (addr : AddrPort) (r : Reader) (ds : List Bytes)
    (ls : List ℕ), (∀ d ∈ ds, d.length ≤ maxUDPPayloadSize) → r.data = ds.flatMap datagram →
      ∃ rest, Reads addr ds (Run.answers (reading addr) r ls) rest := by
  intro hall
  have hsize : ∀ d ∈ [([0, 0] : Bytes)], d.length ≤ maxUDPPayloadSize := by decide
  obtain ⟨rest, hreads⟩ := hall .zero
    ⟨[], [.chunk [0, 2], .stop .deadlineExceeded, .chunk [0, 0]]⟩ [[0, 0]] [4, 4] hsize rfl
  have hsub : ([[]] : List Bytes).Sublist [[0, 0]] := hreads.returned_sublist
  have hmem := singleton_sublist.mp hsub
  exact absurd (mem_singleton.mp hmem).symm (cons_ne_nil _ _)

end Outbound.Anytls
