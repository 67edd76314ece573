import Outbound.ShadowsocksStream.TcpConn

/-! What the reads of one end return of what was written at the other end. -/
namespace Outbound.ShadowsocksStream

open Lib Ciphers List Option Receiver Feed Run Octets

variable {info : CipherInfo}

/-! ## The writing end -/

/-- A payload, and how the write of the connection below ends. -/
abbrev WriteCall := Bytes × WriteEnd Error

def payloads (calls : List WriteCall) : List Bytes := calls.map Prod.fst

def writeStep (rand : Bytes) (c : TcpConn info) (call : WriteCall) : WriteOut × TcpConn info :=
  c.write rand call.1 call.2

def wire (rand : Bytes) (c : TcpConn info) (calls : List WriteCall) : Bytes :=
  (answers (writeStep rand) c calls).flatMap WriteOut.sent

def AllWritten (rand : Bytes) (c : TcpConn info) (calls : List WriteCall) : Prop :=
  ∀ out ∈ answers (writeStep rand) c calls, out.err = none

def fresh (key : Bytes) (dec : Option info.Stream) (iv : Option (Octets info.ivLen)) :
    TcpConn info := ⟨⟨none, dec, key, iv⟩, false, false⟩

def vector (rand : Bytes) (iv : Option (Octets info.ivLen)) : Octets info.ivLen :=
  iv.getD (ofBytes info.ivLen rand)

theorem wire_cons (rand : Bytes) (c : TcpConn info) (call : WriteCall) (calls : List WriteCall) :
    wire rand c (call :: calls) =
      (writeStep rand c call).1.sent ++ wire rand (writeStep rand c call).2 calls := rfl

variable {c : TcpConn info}

theorem allWritten_cons {rand : Bytes} {call : WriteCall}
    {calls : List WriteCall} (h : AllWritten rand c (call :: calls)) :
    (writeStep rand c call).1.err = none ∧ AllWritten rand (writeStep rand c call).2 calls :=
  ⟨h _ mem_cons_self, fun out hout => h out (mem_cons_of_mem _ hout)⟩

theorem wire_of_broken (rand : Bytes) (h : c.writeBroken = true)
    (calls : List WriteCall) : wire rand c calls = [] := by
  induction calls with
  | nil => rfl
  | cons call calls ih =>
    have hstep : writeStep rand c call = (⟨0, some (.sentinel .closed), []⟩, c) := by
      rw [writeStep, TcpConn.write, if_pos h]
    rw [wire_cons, hstep, ih]
    rfl

variable {e : info.Stream} {cipher : StreamCipher info}

/-- How one write ends once there is a stream: all of the message is on the connection below and the
stream has moved on, or a part of it is and nothing more will be. -/
theorem write_of_stream (rand : Bytes) (hb : c.writeBroken = false)
    (he : c.cipher.initEncrypt rand = (.ok e, cipher)) (call : WriteCall) (iv : Bytes)
    (hiv : (if c.init then [] else (cipher.iv.map Subtype.val).getD []) = iv) :
    ((writeStep rand c call).1.err = none ∧
      (writeStep rand c call).1.sent = iv ++ (info.xorKeyStream e call.1).1 ∧
      (writeStep rand c call).2 =
        ⟨{ cipher with enc := some (info.xorKeyStream e call.1).2 }, true, false⟩) ∨
    ((writeStep rand c call).1.err ≠ none ∧
      (writeStep rand c call).1.sent <+: iv ++ (info.xorKeyStream e call.1).1 ∧
      (writeStep rand c call).2.writeBroken = true) := by
  obtain ⟨b, w⟩ := call
  have hnot : ¬ c.writeBroken = true := by
    rw [hb]
    exact Bool.false_ne_true
  unfold writeStep TcpConn.write
  rw [if_neg hnot, he]
  dsimp only
  rw [hiv]
  cases w with
  | ok =>
    left
    refine ⟨rfl, rfl, ?_⟩
    rw [hb]
    rfl
  | fail count err =>
    right
    exact ⟨some_ne_none err, List.take_prefix _ _, rfl⟩

theorem wire_of_stream (rand : Bytes) (hb : c.writeBroken = false)
    (he : c.cipher.initEncrypt rand = (.ok e, cipher)) (iv : Bytes)
    (hiv : (if c.init then [] else (cipher.iv.map Subtype.val).getD []) = iv)
    (calls : List WriteCall) :
    wire rand c calls <+: iv ++ (through info.xorKeyStream e (payloads calls)).1 ∧
      (calls ≠ [] ∨ iv = [] → AllWritten rand c calls →
        wire rand c calls = iv ++ (through info.xorKeyStream e (payloads calls)).1) := by
  induction calls generalizing c cipher e iv with
  | nil =>
    refine ⟨List.nil_prefix, fun hne _ => ?_⟩
    rw [hne.resolve_left (fun h => h rfl)]
    rfl
  | cons call calls ih =>
    have hsplit : (through info.xorKeyStream e (payloads (call :: calls))).1 =
        (info.xorKeyStream e call.1).1 ++
          (through info.xorKeyStream (info.xorKeyStream e call.1).2 (payloads calls)).1 := rfl
    rw [hsplit, wire_cons, ← append_assoc]
    rcases write_of_stream rand hb he call iv hiv with
      ⟨-, hsent, hnext⟩ | ⟨herr, hsent, hbroken⟩
    · -- the next message has no vector in front, and goes on with the stream as it is now
      have htail := @ih (writeStep rand c call).2 (info.xorKeyStream e call.1).2
        (writeStep rand c call).2.cipher (by rw [hnext]) (by rw [hnext]; rfl) [] (by rw [hnext]; rfl)
      rw [nil_append] at htail
      rw [hsent]
      refine ⟨(prefix_append_right_inj _).mpr htail.1, fun _ hok => ?_⟩
      rw [htail.2 (.inr rfl) (allWritten_cons hok).2]
    · rw [wire_of_broken rand hbroken, append_nil]
      exact ⟨hsent.trans (prefix_append _ _), fun _ hok => absurd (allWritten_cons hok).1 herr⟩

/-- What an end that has not written yet puts on the connection below: its vector and the encrypted
payloads, or a front of that. -/
theorem wire_of_fresh (rand key : Bytes) (dec : Option info.Stream)
    (iv : Option (Octets info.ivLen))
    (he : info.newStream key (vector rand iv) .encrypt = .ok e) (calls : List WriteCall) :
    wire rand (fresh key dec iv) calls <+:
        (vector rand iv).1 ++ (through info.xorKeyStream e (payloads calls)).1 ∧
      (calls ≠ [] → AllWritten rand (fresh key dec iv) calls →
        wire rand (fresh key dec iv) calls =
          (vector rand iv).1 ++ (through info.xorKeyStream e (payloads calls)).1) := by
  have hinit : (fresh key dec iv).cipher.initEncrypt rand =
      (.ok e, ⟨some e, dec, key, some (vector rand iv)⟩) := by
    unfold StreamCipher.initEncrypt fresh
    dsimp only
    unfold vector at he
    rw [he]
    rfl
  obtain ⟨hfront, hall⟩ := wire_of_stream rand rfl hinit (vector rand iv).1 rfl calls
  exact ⟨hfront, fun hne => hall (.inl hne)⟩

theorem wire_of_error (rand key : Bytes) (dec : Option info.Stream)
    (iv : Option (Octets info.ivLen)) {err : Error}
    (he : info.newStream key (vector rand iv) .encrypt = .error err) (calls : List WriteCall) :
    wire rand (fresh key dec iv) calls = [] ∧
      (AllWritten rand (fresh key dec iv) calls → calls = []) := by
  induction calls generalizing iv with
  | nil => exact ⟨rfl, fun _ => rfl⟩
  | cons call calls ih =>
    have hstep : writeStep rand (fresh key dec iv) call =
        (⟨0, some err, []⟩, fresh key dec (some (vector rand iv))) := by
      unfold writeStep TcpConn.write StreamCipher.initEncrypt fresh
      dsimp only
      unfold vector at he
      rw [he]
      rfl
    refine ⟨?_, fun hok => ?_⟩
    · rw [wire_cons, hstep]
      exact (ih (some (vector rand iv)) he).1
    · have hfail := (allWritten_cons hok).1
      rw [hstep] at hfail
      cases hfail

/-! ## The reading end -/

/-- The condition on one read. Once the vector is there, the connection below returns no data
together with an error. Before that, no error comes inside the vector, unless nothing comes after
it. -/
def Meets (s : Receiver info) (l : ℕ) : Prop :=
  match s.conn.cipher.dec with
  | some _ => (read eof s.feed l).1.data = [] ∨ (read eof s.feed l).1.err = none
  | none => 0 < l → (readAtLeast s.feed (firstRoom info l) info.ivLen).2.1 = none ∨
      (readAtLeast s.feed (firstRoom info l) info.ivLen).1 = [] ∨
      rest (readAtLeast s.feed (firstRoom info l) info.ivLen).2.2 = []

/-- How the reads stand to the bytes `stream` of the connection below, after `reported`: the vector
is still to come, or the stream made with it has decrypted what was read since. -/
inductive Track (key stream : Bytes) (s : Receiver info) (reported : Bytes) : Prop
  | waiting (hdec : s.conn.cipher.dec = none) (hnone : reported = [])
      (hleft : rest s.feed = stream ∨ rest s.feed = [] ∧ stream.length < info.ivLen)
  | reading (iv : Octets info.ivLen) (d₀ d : info.Stream) (qs : List Bytes)
      (hnew : info.newStream key iv .decrypt = .ok d₀) (hdec : s.conn.cipher.dec = some d)
      (hthrough : through info.xorKeyStream d₀ qs = (reported, d))
      (hstream : stream = iv.1 ++ qs.flatten ++ rest s.feed)

theorem le_firstRoom (info : CipherInfo) (l : ℕ) : info.ivLen ≤ firstRoom info l := by
  unfold firstRoom
  split_ifs <;> omega

/-- `io.ReadAtLeast` takes a front of what is left that fits, and fails when it is too short. -/
theorem readAtLeast_spec (f : Feed UInt8 Error) {room k : ℕ} (hk : k ≤ room) :
    rest f = (readAtLeast f room k).1 ++ rest (readAtLeast f room k).2.2 ∧
      (readAtLeast f room k).1.length ≤ room ∧
      ((readAtLeast f room k).2.1 = none ↔ k ≤ (readAtLeast f room k).1.length) := by
  have h := Feed.readAtLeast_spec eof f hk
  exact ⟨h.1, h.2.1, map_eq_none_iff.trans h.2.2⟩

theorem ofBytes_take (n : ℕ) {b : Bytes} (h : n ≤ b.length) : (ofBytes n b).1 = b.take n :=
  take_append_of_le_length h

variable {key stream : Bytes} {s : Receiver info} {reported : Bytes} {feed : Feed UInt8 Error}

theorem track_deliver (iv : Octets info.ivLen) {d₀ d : info.Stream} {qs : List Bytes}
    (hnew : info.newStream key iv .decrypt = .ok d₀)
    (hthrough : through info.xorKeyStream d₀ qs = (reported, d)) {data : Bytes}
    (hstream : stream = iv.1 ++ qs.flatten ++ (data ++ rest feed)) :
    Track key stream (s.deliver d data feed).2 (reported ++ (s.deliver d data feed).1.data) := by
  apply Track.reading iv d₀ (info.xorKeyStream d data).2 (qs ++ [data]) hnew rfl
  · rw [through_append, hthrough, through_cons, through_nil, append_nil]
    rfl
  · rw [hstream, flatten_append, flatten_singleton]
    simp only [append_assoc]
    rfl

variable {l : ℕ}

theorem track_readFirst (hl : 0 < l) {data : Bytes}
    {dec : info.Stream} (hiv : info.ivLen ≤ data.length) (hroom : data.length ≤ firstRoom info l)
    (hnew : info.newStream key (ofBytes info.ivLen data) .decrypt = .ok dec)
    (hstream : stream = data ++ rest feed) :
    Track key stream (s.readFirst l data feed dec).2 (s.readFirst l data feed dec).1.data := by
  have hfront := ofBytes_take info.ivLen hiv
  have hstart : through info.xorKeyStream dec [] = ([], dec) := rfl
  have hsub : firstRoom info l - info.ivLen ≤ l ∧ (0 < l → 0 < firstRoom info l - info.ivLen) := by
    unfold firstRoom
    split_ifs <;> omega
  obtain ⟨hsub, hpos⟩ := hsub
  unfold readFirst
  split_ifs with hexact
  · have hone : 1 ≤ firstRoom info l - data.length := by
      rw [hexact]
      exact hpos hl
    obtain ⟨hrest, hfits, hok⟩ := readAtLeast_spec feed hone
    rcases hread : readAtLeast feed (firstRoom info l - data.length) 1 with ⟨more, err, feed'⟩
    rw [hread] at hrest hfits hok
    dsimp only at hrest hfits hok
    have hall : (data ++ more).drop info.ivLen = more := drop_left' hexact
    cases err with
    | some rerr =>
      have hnil : more = [] := by
        apply eq_nil_of_length_eq_zero
        have hshort := mt hok.mpr (some_ne_none rerr)
        omega
      apply Track.reading (ofBytes info.ivLen data) dec dec [] hnew rfl rfl
      change stream = _ ++ [] ++ rest feed'
      simp [hstream, hrest, hnil, hfront, ← hexact]
    | none =>
      have htake : ((data ++ more).drop info.ivLen).take l = more := by
        rw [hall]
        apply take_of_length_le
        omega
      dsimp only
      rw [htake]
      apply track_deliver (ofBytes info.ivLen data) hnew hstart
      simp [hstream, hrest, hfront, ← hexact]
  · have htake : (data.drop info.ivLen).take l = data.drop info.ivLen := by
      apply take_of_length_le
      rw [length_drop]
      omega
    rw [htake]
    apply track_deliver (ofBytes info.ivLen data) hnew hstart
    rw [hstream, hfront, flatten_nil, append_nil, ← append_assoc, take_append_drop]

/-- There is a decrypting stream for every vector the bytes can start with. -/
def Opens (info : CipherInfo) (key stream : Bytes) : Prop :=
  ∀ iv : Octets info.ivLen, 0 < info.ivLen → iv.1 <+: stream →
    ∃ d, info.newStream key iv .decrypt = .ok d

theorem track_waiting (hl : 0 < l) (hopens : Opens info key stream)
    (hkey : s.conn.cipher.key = key) (hdec : s.conn.cipher.dec = none)
    (hleft : rest s.feed = stream ∨ rest s.feed = [] ∧ stream.length < info.ivLen)
    (hmeets : Meets s l) : Track key stream (s.read l).2 (s.read l).1.data := by
  have hguard := hmeets
  unfold Meets at hguard
  rw [hdec] at hguard
  have hguard := hguard hl
  obtain ⟨hrest, hfits, hok⟩ := readAtLeast_spec s.feed (le_firstRoom info l)
  unfold Receiver.read
  rw [if_neg (by omega), hdec]
  rcases hread : readAtLeast s.feed (firstRoom info l) info.ivLen with ⟨data, err, feed⟩
  rw [hread] at hrest hfits hok hguard
  dsimp only at hrest hfits hok hguard ⊢
  cases err with
  | some err =>
    have hshort : ¬ info.ivLen ≤ data.length := mt hok.mpr (some_ne_none err)
    refine .waiting hdec rfl ?_
    rcases hguard with habsurd | hnil | hdone
    · cases habsurd
    · -- nothing was taken, and the next read starts the vector again
      rw [hnil, nil_append] at hrest
      rwa [hrest] at hleft
    · refine .inr ⟨hdone, ?_⟩
      rcases hleft with hall | ⟨-, hlen⟩
      · rw [← hall, hrest, hdone, append_nil]
        omega
      · exact hlen
  | none =>
    have hiv : info.ivLen ≤ data.length := hok.mp rfl
    have hall : rest s.feed = stream := by
      rcases hleft with hall | ⟨hnil, hlen⟩
      · exact hall
      · rw [hnil] at hrest
        have hdata : data = [] := (append_eq_nil_iff.mp hrest.symm).1
        rw [hdata, length_nil] at hiv
        omega
    rw [hall] at hrest
    dsimp only
    rw [hkey]
    cases hnew : info.newStream key (ofBytes info.ivLen data) .decrypt with
    | ok dec => exact track_readFirst hl hiv hfits hnew hrest
    | error err =>
      -- a vector without a stream can only be the empty one
      rcases Nat.eq_zero_or_pos info.ivLen with hzero | hpos
      · have hsame : readAtLeast s.feed (firstRoom info l) 0 = ([], none, s.feed) := by
          cases s.feed <;> rfl
        rw [hzero, hsame] at hread
        obtain ⟨-, -, rfl⟩ := hread
        exact .waiting hdec rfl (.inl hall)
      · have hfront : (ofBytes info.ivLen data).1 <+: stream := by
          rw [ofBytes_take info.ivLen hiv, hrest]
          exact (List.take_prefix _ _).trans (prefix_append _ _)
        obtain ⟨d, hd⟩ := hopens _ hpos hfront
        rw [hd] at hnew
        cases hnew

theorem track_step (hopens : Opens info key stream) (hkey : s.conn.cipher.key = key)
    (h : Track key stream s reported) (hmeets : Meets s l) :
    Track key stream (s.read l).2 (reported ++ (s.read l).1.data) := by
  rcases Nat.eq_zero_or_pos l with rfl | hl
  · have hstay : s.read 0 = (⟨[], none⟩, s) := if_pos rfl
    simpa [hstay] using h
  · cases h with
    | waiting hdec hnone hleft =>
      simpa [hnone] using track_waiting hl hopens hkey hdec hleft hmeets
    | reading iv d₀ d qs hnew hdec hthrough hstream =>
      unfold Meets at hmeets
      rw [hdec] at hmeets
      have hrest := rest_read eof s.feed l
      unfold Receiver.read
      rw [if_neg (by omega), hdec]
      rcases hread : read eof s.feed l with ⟨⟨data, err⟩, feed⟩
      rw [hread] at hrest hmeets
      cases err with
      | some err =>
        have hnil : data = [] := hmeets.resolve_right (some_ne_none err)
        rw [hnil, nil_append] at hrest
        rw [hnil, append_nil]
        exact .reading iv d₀ d qs hnew hdec hthrough (by rw [hstream, hrest])
      | none =>
        rw [hrest] at hstream
        exact track_deliver iv hnew hthrough hstream

theorem key_read (s : Receiver info) (l : ℕ) :
    (s.read l).2.conn.cipher.key = s.conn.cipher.key := by
  have hretain : ∀ (c : StreamCipher info) (iv : Octets info.ivLen),
      (c.retainIV iv).key = c.key := by
    intro c iv
    unfold StreamCipher.retainIV
    split_ifs <;> rfl
  unfold Receiver.read
  split_ifs
  · rfl
  · split
    · split
      · rfl
      · split
        · rfl
        · unfold readFirst
          split_ifs
          · split
            · exact hretain _ _
            · exact hretain _ _
          · exact hretain _ _
    · split <;> rfl

theorem track_run (hopens : Opens info key stream) (hkey : s.conn.cipher.key = key)
    (h : Track key stream s reported) {ls : List ℕ} (hrun : Run.Along read Meets s ls) :
    Track key stream (exec read s ls)
      (reported ++ received (answers read s ls)) := by
  induction ls generalizing s reported with
  | nil =>
    simpa [answers, received_nil] using h
  | cons l ls ih =>
    simpa [answers, received_cons] using ih ((key_read s l).trans hkey) (track_step hopens hkey h hrun.1) hrun.2

/-! ## Both ends -/

theorem octets_eq_of_front {n : ℕ} {a b : Octets n} {l : Bytes} (ha : a.1 <+: l) (hb : b.1 <+: l) :
    a = b := by
  apply Subtype.ext
  apply (prefix_of_prefix_length_le ha hb _).eq_of_length
  · rw [a.2, b.2]
  · rw [a.2, b.2]

theorem opens_wire (rand key : Bytes) (dec : Option info.Stream) (iv : Option (Octets info.ivLen))
    (calls : List WriteCall) (hstream : stream <+: wire rand (fresh key dec iv) calls) :
    Opens info key stream := by
  intro iv' hpos hfront
  have hall := hfront.trans hstream
  cases he : info.newStream key (vector rand iv) .encrypt with
  | error err =>
    rw [(wire_of_error rand key dec iv he calls).1, prefix_nil] at hall
    have hlen := iv'.2
    rw [hall, length_nil] at hlen
    omega
  | ok e =>
    have hiv : iv' = vector rand iv :=
      octets_eq_of_front (hall.trans (wire_of_fresh rand key dec iv he calls).1)
        (prefix_append _ _)
    obtain ⟨d, hd, -⟩ := info.inverts key _ e he
    exact ⟨d, by rw [hiv, hd]⟩

theorem Track.eq_nil (h : Track key [] s reported) : reported = [] := by
  cases h with
  | waiting hdec hnone hleft => exact hnone
  | reading iv d₀ d qs hnew hdec hthrough hsplit =>
    have hqs : qs.flatten = [] := (append_eq_nil_iff.mp (append_eq_nil_iff.mp hsplit.symm).1).2
    have hlen := length_through info.length_xorKeyStream d₀ qs
    rw [hthrough, hqs] at hlen
    exact eq_nil_of_length_eq_zero hlen

/-- What was reported of a front of the vector and the encrypted payloads: a front of the payloads,
and all of them once all of it was read. -/
theorem Track.plaintext {iv : Octets info.ivLen}
    (he : info.newStream key iv .encrypt = .ok e) {ps : List Bytes}
    (hfront : stream <+: iv.1 ++ (through info.xorKeyStream e ps).1)
    (h : Track key stream s reported) :
    reported <+: ps.flatten ∧ (stream = iv.1 ++ (through info.xorKeyStream e ps).1 →
      rest s.feed = [] → reported = ps.flatten) := by
  obtain ⟨d', hd', hinv⟩ := info.inverts key _ e he
  cases h with
  | waiting hdec hnone hleft =>
    rw [hnone]
    refine ⟨List.nil_prefix, fun hwhole hdone => ?_⟩
    have hlen : stream.length = info.ivLen + ps.flatten.length := by
      simp [hwhole, iv.2, length_through info.length_xorKeyStream]
    symm
    apply eq_nil_of_length_eq_zero
    rcases hleft with hsame | ⟨-, hshort⟩
    · rw [← hsame, hdone, length_nil] at hlen
      omega
    · omega
  | reading iv' d₀ d qs hnew hdec hthrough hsplit =>
    rw [hsplit, append_assoc] at hfront
    have hiv : iv' = iv := octets_eq_of_front ((prefix_append _ _).trans hfront) (prefix_append _ _)
    have hd : d' = d₀ := by
      rw [hiv, hd'] at hnew
      exact Except.ok.inj hnew
    subst hd
    have hout : (through info.xorKeyStream d' qs).1 = reported := by rw [hthrough]
    rw [hiv, prefix_append_right_inj] at hfront
    refine ⟨?_, fun hwhole hdone => ?_⟩
    · rw [← hout]
      exact hinv.through_front ((prefix_append qs.flatten (rest s.feed)).trans hfront)
    · rw [← hout]
      apply hinv
      rw [hsplit, hdone, append_nil, hiv] at hwhole
      exact (append_cancel_left hwhole).symm

/-- Where every read meets the condition, all that the reads report is plaintext, in order and
without a gap, and all of it once all of the stream was read. -/
theorem reads_are_plaintext (rand key : Bytes) (dec : Option info.Stream)
    (iv : Option (Octets info.ivLen)) (calls : List WriteCall) (s : Receiver info)
    (hkey : s.conn.cipher.key = key) (hdec : s.conn.cipher.dec = none)
    (hstream : rest s.feed <+: wire rand (fresh key dec iv) calls) (ls : List ℕ)
    (hrun : Run.Along read Meets s ls) :
    received (answers read s ls) <+: (payloads calls).flatten ∧
      (AllWritten rand (fresh key dec iv) calls →
        rest s.feed = wire rand (fresh key dec iv) calls →
        rest (exec read s ls).feed = [] →
        received (answers read s ls) = (payloads calls).flatten) := by
  have htrack := track_run (opens_wire rand key dec iv calls hstream) hkey
    (.waiting hdec rfl (.inl rfl)) hrun
  rw [nil_append] at htrack
  cases he : info.newStream key (vector rand iv) .encrypt with
  | error err =>
    obtain ⟨hnone, hfail⟩ := wire_of_error rand key dec iv he calls
    rw [hnone, prefix_nil] at hstream
    rw [hstream] at htrack
    rw [htrack.eq_nil]
    refine ⟨List.nil_prefix, fun hok _ _ => ?_⟩
    rw [hfail hok]
    rfl
  | ok e =>
    obtain ⟨hfront, hall⟩ := wire_of_fresh rand key dec iv he calls
    obtain ⟨hplain, hwhole⟩ := htrack.plaintext he (hstream.trans hfront)
    refine ⟨hplain, fun hok heq hdone => ?_⟩
    by_cases hcalls : calls = []
    · subst hcalls
      exact prefix_nil.mp hplain
    · exact hwhole (heq.trans (hall hcalls hok)) hdone

/-! ## Two ends with a keystream of ones -/

def sampleInfo : CipherInfo := keystreamInfo 1 fun _ _ _ => 1

def sampleWriter : TcpConn sampleInfo := fresh [] none none

def sampleReceiver (feed : Feed UInt8 Error) : Receiver sampleInfo := ⟨sampleWriter, feed⟩

theorem reads_are_plaintext_sample :
    received (answers read (sampleReceiver [⟨[7, 4], none⟩, ⟨[7], none⟩]) [8, 8]) =
      [5, 6] := by
  have hall : ∀ out ∈ answers (writeStep [7]) sampleWriter [([5, 6], .ok)], out.err = none := by
    intro out hout
    rw [mem_singleton.mp hout]
    rfl
  have hrun : Run.Along read Meets (sampleReceiver [⟨[7, 4], none⟩, ⟨[7], none⟩]) [8, 8] :=
    ⟨fun _ => .inl rfl, .inr rfl, trivial⟩
  exact (reads_are_plaintext [7] [] none none [([5, 6], .ok)]
    (sampleReceiver [⟨[7, 4], none⟩, ⟨[7], none⟩]) rfl rfl (prefix_refl [7, 4, 7]) [8, 8]
    hrun).2 hall rfl rfl

/-- A read that returns data together with the end of the stream reports ciphertext: the second byte
is 7, not 6. -/
theorem reports_ciphertext : ¬ ∀ (info : CipherInfo) (rand key : Bytes) (dec : Option info.Stream)
    (iv : Option (Octets info.ivLen)) (calls : List WriteCall) (s : Receiver info) (ls : List ℕ),
    s.conn.cipher.key = key → s.conn.cipher.dec = none →
    rest s.feed <+: wire rand (fresh key dec iv) calls →
    received (answers read s ls) <+: (payloads calls).flatten := by
  intro hall
  have hfront := hall sampleInfo [7] [] none none [([5, 6], .ok)]
    (sampleReceiver [⟨[7, 4], none⟩, ⟨[7], some eof⟩]) [8, 8] rfl rfl (prefix_refl [7, 4, 7])
  have hne : [5, 7] ≠ ([5, 6] : Bytes) := by decide
  exact hne (hfront.eq_of_length rfl)

/-- An error inside the vector 7, 8 loses the 7: the next read takes 8, 4 for the vector, and the
first byte of the payload is gone. -/
example : received (answers read
    (⟨fresh [] none none, [⟨[7], some (.errorf "i/o timeout")⟩, ⟨[8, 4, 7], none⟩]⟩ :
      Receiver (keystreamInfo 2 fun _ _ _ => 1)) [8, 8]) = [6] := rfl

end Outbound.ShadowsocksStream
