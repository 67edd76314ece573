import Outbound.Shadowsocks.TcpConn

/-! The reader of a Shadowsocks AEAD stream returns what the writer was given, whatever fails under
the writer, and no nonce is used twice. -/
namespace Outbound.Shadowsocks.Tcp

open Lib Protocol List Option Bool Writer Reader Run Aead Counted

theorem tcpChunkMaxLen_pos : 0 < tcpChunkMaxLen := by decide

@[simp] theorem length_poolGet (memory : ℕ → UInt8) (size : ℕ) :
    (poolGet memory size).length = size := by
  simp [poolGet]

theorem encryptedPayloadLen_eq (n tagLen : ℕ) :
    encryptedPayloadLen n tagLen = n + chunkCount tcpChunkMaxLen n * (2 + tagLen + tagLen) := by
  rw [encryptedPayloadLen, chunkCount_eq_div tcpChunkMaxLen_pos]
  split_ifs <;> first | rfl | omega

def texts (b : Bytes) : List Bytes := chunks tcpChunkMaxLen b

theorem flatten_texts (b : Bytes) : (texts b).flatten = b := flatten_chunks tcpChunkMaxLen_pos b

theorem length_texts (b : Bytes) : (texts b).length = chunkCount tcpChunkMaxLen b.length := by
  simp [texts, chunks]

theorem length_text_lt {b t : Bytes} (h : t ∈ texts b) : t.length < 2 ^ 16 :=
  (length_le_of_mem_chunks h).trans_lt (by decide)

section Sealing

variable {cipher : Aead} {tagLen : ℕ}

theorem length_sealPairs_texts (htag : cipher.overhead = tagLen) (nonce b : Bytes) :
    (cipher.sealPairs nonce (texts b)).length = encryptedPayloadLen b.length tagLen := by
  rw [cipher.length_sealPairs, flatten_texts, length_texts, encryptedPayloadLen_eq,
    pairOverhead, htag]

theorem sealChunk_sealsChunk (htag : cipher.overhead = tagLen) (b : Bytes) :
    cipher.SealsChunk b (sealChunk cipher tagLen b) := by
  subst htag
  intro i l front tail nonce used hl hroom
  have hpair : cipher.pairOverhead = 2 + cipher.overhead + cipher.overhead := rfl
  have hput : putAt (front ++ tail) front.length (beBytes 2 l) =
      some (front ++ (beBytes 2 l ++ tail.drop 2)) := by
    rw [putAt_front front _ _ (by rw [length_beBytes]; omega), length_beBytes]
  have hfield : ((front ++ (beBytes 2 l ++ tail.drop 2)).drop front.length).take 2 =
      beBytes 2 l := by
    simp
  -- Sealed, the length takes the place of its two bytes and of the tag behind them.
  have hroom' : l + cipher.pairOverhead ≤ (beBytes 2 l ++ tail.drop 2).length := by
    rw [length_append, length_beBytes, length_drop]
    omega
  have hdrop : (beBytes 2 l ++ tail.drop 2).drop (l + cipher.pairOverhead) =
      tail.drop (l + cipher.pairOverhead) := by
    rw [hpair, drop_append, length_beBytes, drop_drop, drop_of_length_le, nil_append]
    · congr 1
      omega
    · rw [length_beBytes]
      omega
  simp only [sealChunk, bind_some, hput, hfield]
  rw [cipher.putAt_sealPair nonce front hl hroom', hdrop, length_append, cipher.length_sealPair, hl,
    hpair]
  congr 2
  omega

end Sealing

namespace Writer

variable (w : Writer) (c : Call) (key : Bytes)

theorem overhead_cipher : (w.cipher key).overhead = w.session.conf.tagLen :=
  w.session.conf.overhead key

def sealed (n : ℕ) : Writer :=
  { w with
    nonceWrite := incLE^[2 * n] w.nonceWrite
    used := w.used ++ (counterRun w.nonceWrite (2 * n)).map fun nonce => (key, nonce) }

theorem sealAndSend_eq (toPack : Bytes) {buf : Bytes} {offset : ℕ}
    (hbuf : buf.length = offset + encryptedPayloadLen toPack.length w.session.conf.tagLen) :
    w.sealAndSend c key buf offset toPack =
      (some ((w.sealed key (texts toPack).length).send c
          (buf.take offset ++ (w.cipher key).sealPairs w.nonceWrite (texts toPack))).1,
        ((w.sealed key (texts toPack).length).send c
          (buf.take offset ++ (w.cipher key).sealPairs w.nonceWrite (texts toPack))).2) := by
  have hroom : (buf.drop offset).length =
      encryptedPayloadLen toPack.length w.session.conf.tagLen := by
    rw [length_drop]
    omega
  have htake : ((w.cipher key).sealPairs w.nonceWrite (texts toPack)).take (buf.drop offset).length =
      (w.cipher key).sealPairs w.nonceWrite (texts toPack) := by
    apply take_of_length_le
    rw [length_sealPairs_texts (w.overhead_cipher key), hroom]
  have hsealed := cutLoop_sealsChunk (sealChunk_sealsChunk (w.overhead_cipher key) toPack)
    tcpChunkMaxLen_pos w.nonceWrite
    (by rw [hroom, encryptedPayloadLen_eq, pairOverhead, w.overhead_cipher])
  rw [← texts] at hsealed
  unfold sealAndSend sealFrame
  rw [hsealed]
  dsimp only
  rw [htake]
  rfl

theorem send_cases (frame : Bytes) :
    (w.send c frame).1.frame = frame ∧
      (((w.send c frame).1.err = none ∧ (w.send c frame).1.sent = frame ∧
          (w.send c frame).2 = { w with onceWrite := true }) ∨
        ((w.send c frame).1.err ≠ none ∧ (w.send c frame).1.sent <+: frame ∧
          (w.send c frame).2 = { w with writeBroken := true })) := by
  unfold send
  cases hfails : c.fails with
  | none => exact ⟨rfl, .inl ⟨rfl, rfl, rfl⟩⟩
  | some f =>
    obtain ⟨k, err⟩ := f
    split_ifs with hempty
    · exact ⟨rfl, .inl ⟨rfl, hempty.symm, rfl⟩⟩
    · exact ⟨rfl, .inr ⟨by simp, List.take_prefix k frame, rfl⟩⟩

def latch (s : Session) (key : Bytes) : Latch Error Writer Call (Bytes × Bytes) where
  write := write
  closed := closedWrite
  cipher := s.conf.newCipher key
  ready w nonce := w.session = s ∧ w.cipherWrite = some key ∧ w.onceWrite = true ∧
    w.writeBroken = false ∧ w.nonceWrite = nonce
  broken w := w.writeBroken = true
  used := used
  mark nonce := (key, nonce)
  texts c := Tcp.texts c.payload
  size c := encryptedPayloadLen c.payload.length s.conf.tagLen
  sound c := c.fails = none

theorem latch_seals {w v : Writer} {c : Call} {key buf toPack : Bytes} {offset : ℕ}
    (hkey : w.cipherWrite = some key) (hok : w.writeBroken = false)
    (hbuf : buf.length = offset + encryptedPayloadLen toPack.length w.session.conf.tagLen)
    (hwrite : v.write c = w.sealAndSend c key buf offset toPack) :
    (latch w.session key).Seals v c w.nonceWrite (buf.take offset) (texts toPack) buf.length
      w.used := by
  rw [w.sealAndSend_eq c key toPack hbuf] at hwrite
  have hframe : (buf.take offset ++ (w.cipher key).sealPairs w.nonceWrite (texts toPack)).length =
      buf.length := by
    rw [length_append, length_take, length_sealPairs_texts (w.overhead_cipher key)]
    omega
  obtain ⟨hsealed, hcases⟩ := (w.sealed key (texts toPack).length).send_cases c
    (buf.take offset ++ (w.cipher key).sealPairs w.nonceWrite (texts toPack))
  refine ⟨_, _, hwrite, by rw [hsealed, hframe], ?_, ?_, ?_⟩
  · rcases hcases with ⟨_, _, hnext⟩ | ⟨_, _, hnext⟩
    · rw [hnext]
      rfl
    · rw [hnext]
      rfl
  · intro hsound
    rw [send, show c.fails = none from hsound]
  · rcases hcases with ⟨herr, hsent, hnext⟩ | ⟨herr, hsent, hnext⟩
    · refine .inl ⟨herr, hsent, ?_⟩
      rw [hnext]
      exact ⟨rfl, hkey, rfl, hok, rfl⟩
    · refine .inr ⟨herr, hsent, ?_⟩
      rw [hnext]
      rfl

theorem latch_lawful (s : Session) (key : Bytes) : (latch s key).Lawful where
  closed_sent := rfl
  broken_write := fun w _ hbroken => if_pos hbroken
  ready_write := by
    rintro w c _ ⟨rfl, hkey, honce, hok, rfl⟩
    have hwrite : w.write c = w.sealAndSend c key
        (poolGet c.memory (encryptedPayloadLen c.payload.length w.session.conf.tagLen)) 0
        c.payload := by
      simp [write, hok, honce, hkey]
    have hseals := latch_seals hkey hok (by simp) hwrite
    rwa [length_poolGet] at hseals

def header (w : Writer) (b : Bytes) : Bytes :=
  match w.preamble b with
  | some (.ok header) => header
  | _ => []

def firstText : Bytes := w.header c.payload ++ (c.payload ++ w.suffix c)

theorem latch_seals_first {w : Writer} (honce : w.onceWrite = false) (hok : w.writeBroken = false)
    {c : Call} {h : Bytes} (hheader : w.preamble c.payload = some (.ok h)) :
    (latch w.session (w.session.subKey (poolGet c.random w.session.conf.saltLen))).Seals w c
      w.nonceWrite (poolGet c.random w.session.conf.saltLen) (texts (w.firstText c))
      (w.session.conf.saltLen + encryptedPayloadLen (w.firstText c).length w.session.conf.tagLen)
      w.used := by
  have hfirst : w.firstText c = h ++ (c.payload ++ w.suffix c) := by
    rw [firstText, header, hheader]
  rw [hfirst]
  set salt := poolGet c.random w.session.conf.saltLen
  set size := w.session.conf.saltLen + encryptedPayloadLen (h ++ (c.payload ++ w.suffix c)).length
    w.session.conf.tagLen
  have hlen : (salt ++ (poolGet c.memory size).drop w.session.conf.saltLen).length = size := by
    rw [length_append, length_drop, length_poolGet, length_poolGet]
    omega
  have hwrite : w.write c = { w with cipherWrite := some (w.session.subKey salt) }.sealAndSend c
      (w.session.subKey salt) (salt ++ (poolGet c.memory size).drop w.session.conf.saltLen)
      w.session.conf.saltLen (h ++ (c.payload ++ w.suffix c)) := by
    simp only [write, hok, honce, hheader, false_eq_true, if_false]
    rfl
  have hseals := latch_seals (w := { w with cipherWrite := some (w.session.subKey salt) }) (v := w)
    rfl hok hlen hwrite
  rwa [hlen, take_left' (length_poolGet c.random _)] at hseals

end Writer

namespace Reader

theorem overhead_cipher (r : Reader) : r.cipher.overhead = r.session.conf.tagLen :=
  r.session.conf.overhead r.cipherRead

variable {r : Reader}

theorem readChunk_append {n : ℕ} (hn : n < 2 ^ 16) {more : Bytes}
    (hrest : r.stream.rest = r.cipher.sealText r.nonceRead (beBytes 2 n) ++ more) :
    ∃ stream', r.readChunk =
        { r with stream := stream', nonceRead := incLE r.nonceRead }.readPayload n ∧
      stream'.rest = more := by
  have hlen : (r.cipher.sealText r.nonceRead (beBytes 2 n)).length =
      2 + r.session.conf.tagLen := by
    rw [r.cipher.length_seal, length_beBytes, r.overhead_cipher]
  obtain ⟨stream', hread, hrest'⟩ := Io.readFull_append hlen hrest
  have hnat : beNat ((beBytes 2 n).take 2) = n := by
    rw [take_of_length_le (length_beBytes 2 n).le]
    exact beNat_beBytes_of_lt hn
  refine ⟨stream', ?_, hrest'⟩
  simp only [readChunk, hread, r.cipher.open_seal, hnat]

theorem readChunk_sealPair {t more : Bytes} (ht : t.length < 2 ^ 16)
    (hrest : r.stream.rest = r.cipher.sealPair r.nonceRead t ++ more) :
    ∃ stream', r.readChunk = (.ok t, { r with
        stream := stream', nonceRead := incLE^[2] r.nonceRead }) ∧ stream'.rest = more := by
  rw [sealPair, append_assoc] at hrest
  obtain ⟨s₁, hchunk, hrest₁⟩ := readChunk_append ht hrest
  have hlen : (r.cipher.sealText (incLE r.nonceRead) t).length =
      t.length + r.session.conf.tagLen := by
    rw [r.cipher.length_seal, r.overhead_cipher]
  obtain ⟨s₂, hread, hrest₂⟩ := Io.readFull_append hlen hrest₁
  have hopen := r.cipher.open_seal (incLE r.nonceRead) t
  refine ⟨s₂, ?_, hrest₂⟩
  rw [hchunk]
  simp only [readPayload, hread]
  rw [show ({ r with stream := s₁, nonceRead := incLE r.nonceRead } : Reader).cipher = r.cipher
    from rfl, hopen]
  rfl

theorem readChunk_truncated (h : r.cipher.Truncated r.nonceRead r.stream.rest) :
    ∃ err stream' nonce', r.readChunk = (.error err, { r with
        stream := stream', nonceRead := nonce' }) ∧ stream'.rest = [] := by
  by_cases hshort : r.stream.rest.length < 2 + r.session.conf.tagLen
  · obtain ⟨stream', hread, hrest⟩ := Io.readFull_short hshort
    refine ⟨.sentinel (if r.stream.rest = [] then .eof else .unexpectedEOF), stream', r.nonceRead,
      ?_, hrest⟩
    simp only [readChunk, hread]
  · rcases h with hnil | ⟨t, ht, ⟨missing, hcut⟩, hlt⟩
    · rw [hnil, length_nil] at hshort
      omega
    · have hlen : (r.cipher.sealText r.nonceRead (beBytes 2 t.length)).length =
          2 + r.session.conf.tagLen := by
        rw [r.cipher.length_seal, length_beBytes, r.overhead_cipher]
      obtain ⟨cut, hrest, htail⟩ := exists_append_of_length_le hcut (by omega)
      obtain ⟨s₁, hchunk, hrest₁⟩ := readChunk_append ht hrest
      have hless : s₁.rest.length < t.length + r.session.conf.tagLen := by
        rw [length_sealPair, hrest, length_append, hlen, pairOverhead, r.overhead_cipher] at hlt
        rw [hrest₁]
        omega
      obtain ⟨s₂, hread, hrest₂⟩ := Io.readFull_short hless
      refine ⟨.sentinel (if s₁.rest = [] then .eof else .unexpectedEOF), s₂, incLE r.nonceRead, ?_,
        hrest₂⟩
      rw [hchunk]
      simp only [readPayload, hread]

/-- The chunks of texts that make up `q` are ahead on a stream, and perhaps a truncated one. -/
def Ahead (cipher : Aead) (nonce rest q : Bytes) : Prop :=
  ∃ todo cut, (∀ t ∈ todo, t ≠ [] ∧ t.length < 2 ^ 16) ∧
    rest = cipher.sealPairs nonce todo ++ cut ∧
    cipher.Truncated (incLE^[2 * todo.length] nonce) cut ∧ q = todo.flatten

def Leaves (r : Reader) (q : Bytes) : Prop :=
  if r.onceRead then
    ∃ q', Ahead r.cipher r.nonceRead r.stream.rest q' ∧ q = r.leftToRead ++ q'
  else
    r.leftToRead = [] ∧ ∃ salt body, r.stream.rest = salt ++ body ∧
      salt.length = r.session.conf.saltLen ∧ r.bloom.any (· salt) = false ∧
      Ahead (r.session.conf.newCipher (r.session.subKey salt)) r.nonceRead body q

structure Starved (r : Reader) : Prop where
  onceRead : r.onceRead = false
  rest : r.stream.rest.length < r.session.conf.saltLen

variable {q : Bytes}

theorem readOn_takes (honce : r.onceRead = true) (h : r.Leaves q) (l : ℕ) :
    ∃ q', (r.readOn l).2.Leaves q' ∧ (r.readOn l).2.onceRead = true ∧
      (r.readOn l).1.Takes l q q' := by
  simp only [Leaves, honce, if_true] at h
  obtain ⟨q', hahead, rfl⟩ := h
  by_cases hleft : r.leftToRead = []
  · obtain ⟨todo, cut, htodo, hrest, hcut, rfl⟩ := hahead
    simp only [readOn, hleft, ne_eq, not_true_eq_false, if_false]
    cases todo with
    | nil =>
      rw [sealPairs, nil_append] at hrest
      obtain ⟨err, stream', nonce', hread, hrest'⟩ := readChunk_truncated (r := r)
        (by rw [hrest]; exact hcut)
      rw [hread]
      refine ⟨[], ?_, honce, ReadOut.takes_fail err l⟩
      simp only [Leaves, honce, if_true]
      exact ⟨[], ⟨[], [], by simp, hrest', .inl rfl, rfl⟩, by rw [hleft]; rfl⟩
    | cons t ts =>
      obtain ⟨hne, ht⟩ := htodo t (by simp)
      rw [sealPairs, append_assoc] at hrest
      obtain ⟨stream', hread, hrest'⟩ := readChunk_sealPair ht hrest
      rw [length_cons, Nat.mul_succ, Function.iterate_add_apply] at hcut
      rw [hread]
      have hnext : Ahead r.cipher (incLE^[2] r.nonceRead) stream'.rest ts.flatten :=
        ⟨ts, cut, fun t' ht' => htodo t' (by simp [ht']), hrest', hcut, rfl⟩
      have htakes := ReadOut.takes_take (ε := Error) t ts.flatten l hne
      dsimp only
      by_cases hl : l < t.length
      · rw [if_pos hl]
        refine ⟨t.drop l ++ ts.flatten, ?_, honce, htakes⟩
        simp only [Leaves, honce, if_true]
        exact ⟨ts.flatten, hnext, rfl⟩
      · rw [take_of_length_le (by omega), drop_of_length_le (by omega)] at htakes
        rw [if_neg hl, take_of_length_le (by omega)]
        refine ⟨ts.flatten, ?_, honce, htakes⟩
        simp only [Leaves, honce, if_true]
        exact ⟨ts.flatten, hnext, by rw [hleft]; rfl⟩
  · rw [readOn, if_pos hleft]
    refine ⟨r.leftToRead.drop l ++ q', ?_, honce, ReadOut.takes_take _ _ l hleft⟩
    simp only [Leaves, honce, if_true]
    exact ⟨q', hahead, rfl⟩

theorem read_takes (h : r.Leaves q) (l : ℕ) :
    ∃ q', (r.read l).2.Leaves q' ∧ (r.read l).1.out.Takes l q q' ∧
      (r.read l).1.n = (r.read l).1.out.data.length := by
  cases honce : r.onceRead with
  | true =>
    obtain ⟨q', hleaves, _, htakes⟩ := readOn_takes honce h l
    rw [read, if_pos honce]
    exact ⟨q', hleaves, htakes, rfl⟩
  | false =>
    simp only [Leaves, honce, false_eq_true, if_false] at h
    obtain ⟨hleft, salt, body, hrest, hsalt, hfresh, hahead⟩ := h
    obtain ⟨stream', hread, hrest'⟩ := Io.readFull_append hsalt hrest
    have hstart : (r.start salt stream').Leaves q := by
      simp only [Leaves, start, if_true]
      exact ⟨q, by rw [hrest']; exact hahead, by rw [hleft]; rfl⟩
    obtain ⟨q', hleaves, _, htakes⟩ := readOn_takes (r := r.start salt stream') rfl hstart l
    simp only [read, honce, hread, hfresh, false_eq_true, if_false]
    exact ⟨q', hleaves, htakes, trivial⟩

theorem read_starved (h : r.Starved) (l : ℕ) :
    (r.read l).2.Starved ∧ (r.read l).1.out.Takes l [] [] := by
  obtain ⟨stream', hread, hrest⟩ := Io.readFull_short h.rest
  simp only [read, h.onceRead, hread, false_eq_true, if_false]
  refine ⟨⟨rfl, ?_⟩, ReadOut.takes_fail _ l⟩
  show stream'.rest.length < r.session.conf.saltLen
  rw [hrest]
  exact r.session.conf.saltLen_pos

theorem map_out_answers (r : Reader) (ls : List ℕ) :
    (answers read r ls).map out =
      answers (fun r l => ((read r l).1.out, (read r l).2)) r ls :=
  map_answers out read r ls

theorem delivers_of_leaves (h : r.Leaves q) (ls : List ℕ) :
    Delivers q ls ((answers read r ls).map out) ∧
      ∀ a ∈ answers read r ls, a.n = a.out.data.length := by
  constructor
  · rw [map_out_answers]
    apply answers_delivers _ Leaves _ r q h
    intro r q l hr
    obtain ⟨q', hleaves, htakes, _⟩ := read_takes hr l
    exact ⟨q', hleaves, htakes⟩
  · apply answers_forall read (fun r => ∃ q, r.Leaves q) (fun a => a.n = a.out.data.length) _ r
      ⟨q, h⟩
    rintro r l ⟨q, hr⟩
    obtain ⟨q', hleaves, _, hn⟩ := read_takes hr l
    exact ⟨hn, q', hleaves⟩

theorem delivers_of_starved (h : r.Starved) (ls : List ℕ) :
    Delivers [] ls ((answers read r ls).map out) := by
  rw [map_out_answers]
  apply answers_delivers _ (fun r q => r.Starved ∧ q = []) _ r [] ⟨h, rfl⟩
  rintro r q l ⟨hr, rfl⟩
  obtain ⟨hstarved, htakes⟩ := read_starved hr l
  exact ⟨[], ⟨hstarved, rfl⟩, htakes⟩

end Reader

namespace Writer

def plaintext (w : Writer) : List Call → Bytes
  | [] => []
  | c :: cs => w.firstText c ++ cs.flatMap Call.payload

def frameSizes (w : Writer) : List Call → List ℕ
  | [] => []
  | c :: cs =>
    (w.session.conf.saltLen +
      encryptedPayloadLen (w.firstText c).length w.session.conf.tagLen) ::
      cs.map fun c => encryptedPayloadLen c.payload.length w.session.conf.tagLen

theorem plaintext_of_ne_msg {w : Writer} (h : w.metadata.type ≠ .msg) (c : Call) (cs : List Call) :
    w.plaintext (c :: cs) = w.header c.payload ++ (c :: cs).flatMap Call.payload := by
  simp [plaintext, firstText, suffix, h]

def salt (w : Writer) (c : Call) : Bytes := poolGet c.random w.session.conf.saltLen

end Writer

theorem flatten_all_texts (first : Bytes) (cs : List Call) :
    (texts first ++ cs.flatMap fun c => texts c.payload).flatten =
        first ++ cs.flatMap Call.payload ∧
      ∀ t ∈ texts first ++ cs.flatMap fun c => texts c.payload, t ≠ [] ∧ t.length < 2 ^ 16 := by
  constructor
  · rw [flatten_append, flatten_texts]
    congr 1
    induction cs with
    | nil => rfl
    | cons c cs ih => simp [flatten_texts, ih]
  · have hany : ∀ b, ∀ t ∈ texts b, t ≠ [] ∧ t.length < 2 ^ 16 := fun b t ht =>
      ⟨ne_nil_of_mem_chunks tcpChunkMaxLen_pos ht, length_text_lt ht⟩
    intro t ht
    rcases mem_append.mp ht with hmem | hmem
    · exact hany first t hmem
    · obtain ⟨c, _, hc⟩ := mem_flatMap.mp hmem
      exact hany c.payload t hc

theorem delivers_of_sends {s : Session} {bloom : Option (Bytes → Bool)} {stream : Source UInt8}
    {salt : Bytes} {ts : List Bytes} {sizes : List ℕ} {outs : List (Written Error)}
    (hsalt : salt.length = s.conf.saltLen) (hfresh : bloom.any (· salt) = false)
    (hts : ∀ t ∈ ts, t ≠ [] ∧ t.length < 2 ^ 16)
    (h : Sends closedWrite (s.conf.newCipher (s.subKey salt)) (replicate s.conf.nonceLen 0)
      salt ts sizes outs) (hstream : stream.rest = sent outs) (ls : List ℕ) :
    ∃ q, q <+: ts.flatten ∧ ((∀ out ∈ outs, out.err = none) → q = ts.flatten) ∧
      Delivers q ls ((answers read (.new s bloom stream) ls).map out) ∧
      (s.conf.saltLen ≤ stream.rest.length →
        ∀ a ∈ answers read (.new s bloom stream) ls, a.n = a.out.data.length) := by
  have hleaves : ∀ q body, sent outs = salt ++ body →
      Reader.Ahead (s.conf.newCipher (s.subKey salt)) (replicate s.conf.nonceLen 0) body q →
      (new s bloom stream).Leaves q := fun q body hsent hahead =>
    ⟨rfl, salt, body, hstream.trans hsent, hsalt, hfresh, hahead⟩
  by_cases hall : ∀ out ∈ outs, out.err = none
  · have hahead := hleaves ts.flatten _ (h.whole hall)
      ⟨ts, [], hts, (append_nil _).symm, .inl rfl, rfl⟩
    obtain ⟨hdelivers, hcounted⟩ := delivers_of_leaves hahead ls
    exact ⟨ts.flatten, prefix_rfl, fun _ => rfl, hdelivers, fun _ => hcounted⟩
  by_cases hshort : stream.rest.length < s.conf.saltLen
  · refine ⟨[], List.nil_prefix, fun hok => absurd hok hall, ?_, fun hge => by omega⟩
    exact delivers_of_starved ⟨rfl, hshort⟩ ls
  · obtain ⟨missing, hmissing⟩ := h.front
    obtain ⟨front, hfront, htail⟩ := exists_append_of_length_le hmissing (by
      rw [hsalt, ← hstream]
      omega)
    obtain ⟨done, todo, cut, hsplit, hcutEq, hcut⟩ :=
      exists_cut _ (fun t ht => (hts t ht).2) ⟨missing, htail.symm⟩
    have hahead := hleaves done.flatten front hfront
      ⟨done, cut, fun t ht => hts t (by rw [hsplit]; exact mem_append_left _ ht), hcutEq, hcut,
        rfl⟩
    obtain ⟨hdelivers, hcounted⟩ := delivers_of_leaves hahead ls
    refine ⟨done.flatten, ?_, fun hok => absurd hok hall, hdelivers, fun _ => hcounted⟩
    simp [hsplit]

/-- A client with a target it can encode writes, and a server with the same key that has not seen
the salt reads. Every frame has its computed size, and after a failed write none is sent. The server
reads a front of the target, the first payload with the padding of a message, and the other
payloads, and all of it if no write failed. No key is used twice with a nonce. -/
theorem stream_round_trip (s : Session) (m : Protocol.Metadata) (hclient : m.isClient = true)
    (hencodable : Encodable s.net m) (cs : List Call) (bloom : Option (Bytes → Bool))
    (hfresh : ∀ c ∈ cs.head?, bloom.any (· ((new s m).salt c)) = false) (ls : List ℕ) :
    ∃ outs, answers write (.new s m) cs = outs.map some ∧
      Latched closedWrite ((new s m).frameSizes cs) outs ∧
      (m.type ≠ .msg → ∀ c ∈ cs.head?, (new s m).plaintext cs =
        (new s m).header c.payload ++ cs.flatMap Call.payload) ∧
      ((exec write (.new s m) cs).used.length ≤ 256 ^ s.conf.nonceLen →
        (exec write (.new s m) cs).used.Nodup) ∧
      ∀ stream : Source UInt8, stream.rest = sent outs →
        ∃ q, q <+: (new s m).plaintext cs ∧
          ((∀ out ∈ outs, out.err = none) → q = (new s m).plaintext cs) ∧
          Delivers q ls ((answers read (.new s bloom stream) ls).map out) ∧
          (s.conf.saltLen ≤ stream.rest.length →
            ∀ a ∈ answers read (.new s bloom stream) ls, a.n = a.out.data.length) := by
  cases cs with
  | nil =>
    refine ⟨[], rfl, .nil, by simp, fun _ => nodup_nil, ?_⟩
    intro stream hstream
    have hstarved : (new s bloom stream).Starved := by
      refine ⟨rfl, ?_⟩
      show stream.rest.length < s.conf.saltLen
      rw [hstream]
      exact s.conf.saltLen_pos
    refine ⟨[], prefix_rfl, fun _ => rfl, delivers_of_starved hstarved ls, ?_⟩
    intro hge
    exact absurd hstarved.rest (Nat.not_lt.mpr hge)
  | cons c cs =>
    obtain ⟨h, hheader⟩ := hencodable (.ofNat c.payload.length)
    have hpreamble : (new s m).preamble c.payload = some (.ok h) :=
      (if_pos (.inl hclient)).trans hheader
    obtain ⟨outs, hanswers, hsends, _, n, _, _, hused⟩ := (latch_lawful s _).runs_first
      (latch_seals_first (w := .new s m) rfl rfl hpreamble) cs
    obtain ⟨hflatten, htexts⟩ := flatten_all_texts ((new s m).firstText c) cs
    refine ⟨outs, hanswers, hsends.latched, ?_, ?_, ?_⟩
    · intro hmsg c' hc'
      obtain rfl : c = c' := some.inj hc'
      exact plaintext_of_ne_msg hmsg c cs
    · intro hlen
      have hmarks : (exec write (.new s m) (c :: cs)).used =
          (counterRun (replicate s.conf.nonceLen 0) n).map
            fun nonce => (s.subKey ((new s m).salt c), nonce) := hused
      rw [hmarks] at hlen ⊢
      rw [length_map, counterRun, length_map, length_range] at hlen
      apply List.Nodup.map (fun a b hab => (Prod.mk.inj hab).2)
      rwa [nodup_counterRun_iff, length_replicate]
    · intro stream hstream
      have hdelivers := delivers_of_sends (length_poolGet c.random _) (hfresh c rfl) htexts hsends
        hstream ls
      rwa [hflatten] at hdelivers

def sampleSession : Session where
  conf :=
    { keyLen := 16
      saltLen := 16
      nonceLen := 12
      tagLen := 16
      newCipher := fun _ => .lengthFraming
      overhead := fun _ => overhead_lengthFraming
      saltLen_pos := by decide }
  masterKey := [1, 2]
  hkdf key salt _ n := (key ++ salt).take n
  net := sampleText
  scaled n := if n = 1 then 10 else 0
  scaled_one := rfl

def sampleCall (payload : Bytes) (fails : Option (ℕ × Error)) : Call :=
  ⟨payload, fun i => .ofNat i, fun _ => 9, fails⟩

def namedTarget : Protocol.Metadata := ⟨.domain, [97, 46, 98], 80, .zero, 0, true⟩

theorem stream_round_trip_sample :
    Encodable sampleSession.net namedTarget ∧
      ∃ outs : List (Written Error), answers write (.new sampleSession namedTarget)
        [sampleCall [1] none, sampleCall [2] (some (3, .errorf "reset")), sampleCall [3] none] =
          outs.map some := by
  have hencodable : Encodable sampleSession.net namedTarget := fun _ => ⟨_, rfl⟩
  obtain ⟨outs, hanswers, _⟩ := stream_round_trip sampleSession namedTarget rfl hencodable
    [sampleCall [1] none, sampleCall [2] (some (3, .errorf "reset")), sampleCall [3] none] none
    (fun _ _ => rfl) [10]
  exact ⟨hencodable, outs, hanswers⟩

def messageTarget : Protocol.Metadata := ⟨.msg, [], 0, .zero, 1, true⟩

/-- The first payload of a message comes with five bytes of padding, which the peer reads as part of
the stream although no write failed. -/
theorem message_padding_in_stream :
    Encodable sampleSession.net messageTarget ∧
      (write (.new sampleSession messageTarget) (sampleCall [7] none)).1.map Written.err =
        some none ∧
      ¬ received ((answers read (.new sampleSession none (.ofList
          (((write (.new sampleSession messageTarget) (sampleCall [7] none)).1.map
            Written.sent).getD []))) [100]).map out) <+:
        (new sampleSession messageTarget).header [7] ++ [7] := by
  refine ⟨fun _ => ⟨_, rfl⟩, ?_, ?_⟩
  · decide +kernel
  · decide +kernel

end Outbound.Shadowsocks.Tcp
