import Outbound.Lib.Fragments
import Outbound.Vmess.Conn

/-! A VMess reader returns what a VMess writer was given, and draws what the writer drew. -/
namespace Outbound.Vmess

open Lib List Option Writer Reader Run

variable (c : Codecs) (s : Session)

namespace Codecs

@[simp] theorem maxPaddingLen_advance : c.advance.maxPaddingLen = c.maxPaddingLen := rfl

@[simp] theorem maxPaddingLen_iterate (k : ℕ) :
    (advance^[k] c).maxPaddingLen = c.maxPaddingLen := by
  induction k with
  | zero => rfl
  | succ k ih => rw [Function.iterate_succ_apply', maxPaddingLen_advance, ih]

theorem toNat_maxPaddingLen_le : c.maxPaddingLen.toNat ≤ 64 := by
  unfold maxPaddingLen
  split_ifs <;> decide

end Codecs

namespace Writer

theorem overhead_cipher (w : Writer) : w.cipher.overhead = 16 :=
  w.session.crypto.overhead_newAEAD _

variable {w : Writer}

theorem initWriteOnce_of_initWrite (h : w.initWrite = true) : w.initWriteOnce = (none, w) := by
  rw [initWriteOnce, h, if_pos rfl]

variable (w)

theorem sealFromPool_snd (b : Bytes) :
    (w.sealFromPool b).2 = { w with codecs := w.codecs.advance, sealed := w.sealed + 1 } := by
  simp only [sealFromPool, codecs_sealChunk]

theorem sealPackets_snd (ts : List Bytes) (w : Writer) :
    (sealPackets ts w).2 = { w with
      codecs := Codecs.advance^[ts.length] w.codecs, sealed := w.sealed + ts.length } := by
  induction ts generalizing w with
  | nil => rfl
  | cons t ts ih =>
    simp only [sealPackets, ih, sealFromPool_snd, length_cons, Function.iterate_succ_apply]
    rw [Nat.add_assoc, Nat.add_comm 1]

theorem sealPackets_append (ts us : List Bytes) (w : Writer) :
    sealPackets (ts ++ us) w =
      ((sealPackets ts w).1 ++ (sealPackets us (sealPackets ts w).2).1,
        (sealPackets us (sealPackets ts w).2).2) := by
  induction ts generalizing w with
  | nil => rfl
  | cons t ts ih => simp [sealPackets, ih]

def payloadSize : ℕ := maxChunkSize - w.cipher.overhead - 2 - w.codecs.maxPaddingLen.toNat

theorem payloadSize_pos : 0 < w.payloadSize := by
  have hpad := w.codecs.toNat_maxPaddingLen_le
  unfold payloadSize maxChunkSize
  rw [overhead_cipher]
  omega

def texts (b : Bytes) : List Bytes :=
  (range (chunkCount w.payloadSize b.length)).map (chunk w.payloadSize b)

theorem flatten_texts (b : Bytes) : (w.texts b).flatten = b :=
  flatten_chunks w.payloadSize_pos b

theorem texts_ne_nil {b t : Bytes} (ht : t ∈ w.texts b) : t ≠ [] := by
  obtain ⟨j, hj, rfl⟩ := mem_map.mp ht
  exact ne_nil_of_length_pos (length_chunk_pos w.payloadSize_pos (mem_range.mp hj))

theorem texts_fit {b t : Bytes} (ht : t ∈ w.texts b) : FitsSize w.cipher w.codecs t := by
  obtain ⟨j, _, rfl⟩ := mem_map.mp ht
  have hlen := length_chunk_le w.payloadSize b j
  have hpad := w.codecs.toNat_maxPaddingLen_le
  unfold FitsSize
  unfold payloadSize maxChunkSize at hlen ⊢
  rw [overhead_cipher] at hlen ⊢
  omega

theorem chunks_eq (size : ℕ) : w.chunks size = (w.payloadSize, chunkCount w.payloadSize size) := by
  rw [chunkCount_eq_div w.payloadSize_pos]
  change (if size % w.payloadSize = 0 then _ else _) = _
  split_ifs <;> rfl

variable {w}

theorem writeChunks_eq (b : Bytes) (k left j : ℕ) (w : Writer) :
    writeChunks b k left (j * k) w =
      ((sealPackets ((range' j left).map (chunk k b)) w).1, (j + left) * k,
        (sealPackets ((range' j left).map (chunk k b)) w).2) := by
  induction left generalizing j w with
  | zero => rfl
  | succ left ih =>
    have hwindow : (b.take (min (j * k + k) b.length)).drop (j * k) = chunk k b j := by
      rw [drop_take, chunk]
      apply take_eq_take_iff.mpr
      rw [length_drop]
      omega
    have hnext : j * k + k = (j + 1) * k := (Nat.succ_mul j k).symm
    rw [range'_succ, map_cons]
    simp only [writeChunks, hwindow, sealPackets]
    rw [hnext, ih, Nat.add_assoc j 1 left, Nat.add_comm 1 left]

theorem write_tcp {b : Bytes} (hopen : w.writeClosed = false)
    (htcp : w.session.network = .tcp) (hb : b ≠ []) :
    w.write b = (⟨b.length, none,
        w.initWriteOnce.1.getD [] ++ (sealPackets (w.initWriteOnce.2.texts b) w.initWriteOnce.2).1⟩,
      (sealPackets (w.initWriteOnce.2.texts b) w.initWriteOnce.2).2) := by
  have hsession : w.initWriteOnce.2.session = w.session := by
    unfold initWriteOnce
    split_ifs <;> rfl
  set v := w.initWriteOnce.2 with hv
  have hpos := v.payloadSize_pos
  have hcover := le_chunkCount_mul hpos b.length
  simp only [write, hopen, Bool.false_eq_true, if_false, hb, ← hv, hsession, htcp, writeStream,
    chunks_eq]
  cases hpre : w.initWriteOnce.1 with
  | none =>
    have hloop := writeChunks_eq b v.payloadSize (chunkCount v.payloadSize b.length) 0 v
    rw [Nat.zero_mul, Nat.zero_add, ← range_eq_range'] at hloop
    simp only [hloop, Nat.min_eq_right hcover]
    rfl
  | some header =>
    have hcount : 0 < chunkCount v.payloadSize b.length := by
      simpa [lt_chunkCount_iff hpos] using length_pos_of_ne_nil hb
    obtain ⟨m, hm⟩ := Nat.exists_eq_succ_of_ne_zero (Nat.ne_of_gt hcount)
    have hfirst : b.take (min v.payloadSize b.length) = chunk v.payloadSize b 0 := by
      rw [chunk, Nat.zero_mul, drop_zero]
      apply take_eq_take_iff.mpr
      omega
    have hloop := writeChunks_eq b v.payloadSize m 1 (v.sealFromPool (chunk v.payloadSize b 0)).2
    rw [Nat.one_mul, Nat.add_comm 1 m, ← Nat.succ_eq_add_one, ← hm] at hloop
    have htexts : v.texts b =
        chunk v.payloadSize b 0 :: (range' 1 m).map (chunk v.payloadSize b) := by
      rw [texts, hm, range_eq_range', Nat.succ_eq_add_one, range'_succ, map_cons]
    simp only [hfirst, htexts, sealPackets]
    rw [hm, Nat.succ_sub_one]
    simp only [hloop, Nat.min_eq_right hcover, append_assoc, getD_some]

def emitted (w : Writer) (bs : List Bytes) : Bytes := (answers write w bs).flatMap WriteOut.sent

theorem run_tcp_of_initWrite (hinit : w.initWrite = true)
    (hopen : w.writeClosed = false) (htcp : w.session.network = .tcp) (bs : List Bytes)
    (hbs : ∀ b ∈ bs, b ≠ []) :
    (answers write w bs).map (fun out => (out.n, out.err)) = bs.map (fun b => (b.length, none)) ∧
      w.emitted bs = (sealPackets (bs.flatMap w.texts) w).1 ∧
      exec write w bs = (sealPackets (bs.flatMap w.texts) w).2 := by
  induction bs generalizing w with
  | nil => exact ⟨rfl, rfl, rfl⟩
  | cons b bs ih =>
    have hwrite := write_tcp hopen htcp (hbs b mem_cons_self)
    simp only [initWriteOnce_of_initWrite hinit, getD_none, nil_append] at hwrite
    set v := (sealPackets (w.texts b) w).2 with hv
    have hsame := sealPackets_snd (w.texts b) w
    rw [← hv] at hsame
    have htexts : v.texts = w.texts := by
      funext b
      simp only [texts, payloadSize, cipher, hsame, Codecs.maxPaddingLen_iterate]
    obtain ⟨hanswers, hemitted, hexec⟩ := ih (w := v) (by rw [hsame]; exact hinit)
      (by rw [hsame]; exact hopen) (by rw [hsame]; exact htcp)
      (fun b hb => hbs b (mem_cons_of_mem _ hb))
    rw [htexts] at hemitted hexec
    unfold emitted at hemitted
    simp [emitted, answers, exec_cons, hwrite, sealPackets_append, ← hv, hanswers, hemitted, hexec]

theorem run_tcp (hopen : w.writeClosed = false) (htcp : w.session.network = .tcp)
    (bs : List Bytes) (hbs : ∀ b ∈ bs, b ≠ []) (hne : bs ≠ []) :
    (answers write w bs).map (fun out => (out.n, out.err)) = bs.map (fun b => (b.length, none)) ∧
      w.emitted bs = w.initWriteOnce.1.getD [] ++
        (sealPackets (bs.flatMap w.initWriteOnce.2.texts) w.initWriteOnce.2).1 ∧
      exec write w bs =
        (sealPackets (bs.flatMap w.initWriteOnce.2.texts) w.initWriteOnce.2).2 := by
  obtain ⟨b, bs, rfl⟩ := exists_cons_of_ne_nil hne
  have hwrite := write_tcp hopen htcp (hbs b mem_cons_self)
  have hclosed : w.initWriteOnce.2.writeClosed = false := by
    unfold initWriteOnce
    split_ifs <;> exact hopen
  have hinit : w.initWriteOnce.2.initWrite = true := by
    unfold initWriteOnce
    split_ifs with h
    · exact h
    · rfl
  have hsession : w.initWriteOnce.2.session.network = .tcp := by
    unfold initWriteOnce
    split_ifs <;> exact htcp
  have hwrite' := write_tcp hclosed hsession (hbs b mem_cons_self)
  simp only [initWriteOnce_of_initWrite hinit, getD_none, nil_append] at hwrite'
  obtain ⟨hanswers, hemitted, hexec⟩ := run_tcp_of_initWrite hinit hclosed hsession (b :: bs) hbs
  -- After its first write a connection is where it is when that write finds it initialised.
  simp only [emitted, answers, exec_cons, map_cons, flatMap_cons, hwrite] at *
  simp only [hwrite'] at hanswers hemitted hexec
  exact ⟨hanswers, by simp [hemitted], hexec⟩

end Writer

namespace Reader

theorem overhead_respHeaderLenCipher : s.respHeaderLenCipher.overhead = 16 :=
  s.crypto.overhead_newAesGcm _

theorem overhead_respHeaderCipher : s.respHeaderCipher.overhead = 16 :=
  s.crypto.overhead_newAesGcm _

theorem checkRespHeader_respHeader : checkRespHeader s s.respHeader = none := by
  simp [checkRespHeader, Session.respHeader]

variable {stream : Source UInt8}

theorem readRespHeader_append {s : Session} {rest : Bytes}
    (hs : stream.rest = s.encryptRespHeader s.respHeader ++ rest) :
    ∃ stream', readRespHeader s stream = (none, stream') ∧ stream'.rest = rest := by
  rw [Session.encryptRespHeader, append_assoc] at hs
  have hlen : (s.respHeaderLenCipher.sealText s.respHeaderLenNonce
      (beBytes 2 s.respHeader.length)).length = 18 := by
    rw [s.respHeaderLenCipher.length_seal, length_beBytes, overhead_respHeaderLenCipher]
  obtain ⟨s₁, hread₁, hrest₁⟩ := Io.readFull_append hlen hs
  have hbody : (s.respHeaderCipher.sealText s.respHeaderNonce s.respHeader).length =
      s.respHeader.length + 16 := by
    rw [s.respHeaderCipher.length_seal, overhead_respHeaderCipher]
  obtain ⟨s₂, hread₂, hrest₂⟩ := Io.readFull_append hbody hrest₁
  have hsize : beNat ((beBytes 2 s.respHeader.length).take 2) = s.respHeader.length := by
    exact beNat_beBytes_of_lt (show 4 < 256 ^ 2 by decide)
  refine ⟨s₂, ?_, hrest₂⟩
  simp only [readRespHeader, hread₁, Aead.open_seal, readRespHeaderBody, hsize, hread₂,
    checkRespHeader_respHeader]

variable {r : Reader}

theorem init_append {rest : Bytes} (hpending : r.initRead = .pending)
    (hrest : r.stream.rest = r.session.encryptRespHeader r.session.respHeader ++ rest) :
    ∃ stream', r.init = (none, { r with
        initRead := .ready, codecs := r.session.bodyCodecs !r.isClient, stream := stream' }) ∧
      stream'.rest = rest := by
  obtain ⟨stream', hread, hrest'⟩ := readRespHeader_append hrest
  refine ⟨stream', ?_, hrest'⟩
  simp [init, hpending, hread]

theorem init_of_ne_pending (h : r.initRead ≠ .pending) : r.init = (none, r) := by
  rw [init, if_neg h]

/-- Where a reader stands that is fed what the writer `w` emits for the texts `all`: the chunks of
`done` are read and those of `todo` are on the stream. -/
def Standing (w : Writer) (done todo : List Bytes) (r : Reader) : Prop :=
  match r.initRead with
  | .pending => done = [] ∧ r.leftToRead = [] ∧
    (r.stream.rest = w.session.encryptRespHeader w.session.respHeader ++
        (sealPackets todo w).1 ∨ todo = [] ∧ r.stream.rest = [])
  | .ready => r.stream.rest = (sealPackets todo (sealPackets done w).2).1
  | .failed => todo = [] ∧ r.leftToRead = []

/-- The reader has `q` still to return, and its codecs are where those of the writer were behind the
same chunk. -/
structure Leaves (w : Writer) (all : List Bytes) (r : Reader) (q : Bytes) : Prop where
  session : r.session = w.session
  peer : r.isClient = !w.isClient
  fresh : w.codecs = w.session.bodyCodecs w.isClient
  standing : ∃ done todo, all = done ++ todo ∧ q = r.leftToRead ++ todo.flatten ∧
    r.codecs = (sealPackets done w).2.codecs ∧ r.Standing w done todo

theorem cipher_eq {w : Writer} (hsession : r.session = w.session)
    (hpeer : r.isClient = !w.isClient) : r.cipher = w.cipher := by
  simp [cipher, Writer.cipher, hsession, hpeer]

variable {w : Writer} {all : List Bytes}

theorem readChunk_standing {done ts : List Bytes} {t : Bytes} (hne : t ≠ [])
    (hfits : FitsSize w.cipher w.codecs t)
    (hstream : stream.rest = (sealPackets (t :: ts) (sealPackets done w).2).1) :
    ∃ s', readChunk w.cipher (sealPackets done w).2.codecs stream =
        (.ok t, (sealPackets (done ++ [t]) w).2.codecs, s') ∧
      s'.rest = (sealPackets ts (sealPackets (done ++ [t]) w).2).1 := by
  have hsnd := sealPackets_snd done w
  have hcipher : (sealPackets done w).2.cipher = w.cipher := by
    rw [hsnd]
    rfl
  have hfits' : FitsSize w.cipher (sealPackets done w).2.codecs t := by
    rw [hsnd]
    simpa only [FitsSize, Codecs.maxPaddingLen_iterate] using hfits
  have hdone : (sealPackets (done ++ [t]) w).2 =
      ((sealPackets done w).2.sealFromPool t).2 := by
    simp only [sealPackets_append, sealPackets]
  simp only [sealPackets, sealFromPool, hcipher] at hstream
  obtain ⟨s', hread, hrest⟩ := readChunk_sealChunk hne hfits' hstream
  refine ⟨s', ?_, ?_⟩
  · rw [hread, hdone, sealFromPool_snd]
  · rw [hrest, hdone, sealFromPool_snd, codecs_sealChunk]

variable {q : Bytes}

section

variable (hnet : w.session.network ≠ .udp)

include hnet

section

variable (hall : ∀ t ∈ all, t ≠ [] ∧ FitsSize w.cipher w.codecs t)

include hall

variable (h : r.Leaves w all q)

include h

/-- The next chunk goes to the caller as far as it fits; the rest stays for the reads to come. -/
theorem readNext_takes (hready : r.initRead = .ready) (hleft : r.leftToRead = []) (l : ℕ) :
    ∃ q', (r.readNext l).2.Leaves w all q' ∧ (r.readNext l).1.Takes l q q' := by
  obtain ⟨done, todo, rfl, rfl, hcodecs, hstanding⟩ := h.standing
  have hcipher := cipher_eq h.session h.peer
  simp only [Standing, hready] at hstanding
  rw [hleft, nil_append]
  cases todo with
  | nil =>
    obtain ⟨s', hread, hrest⟩ := readChunk_end r.cipher r.codecs hstanding
    simp only [readNext, hread]
    refine ⟨[], ⟨h.session, h.peer, h.fresh, done, [], rfl, ?_, hcodecs, ?_⟩, ReadOut.takes_fail _ l⟩
    · simp [hleft]
    · simp only [Standing, hready]
      exact hrest
  | cons t ts =>
    obtain ⟨hne, hfits⟩ := hall t (by simp)
    obtain ⟨s', hread, hrest⟩ := readChunk_standing hne hfits hstanding
    have htakes := ReadOut.takes_take (ε := Error) t ts.flatten l hne
    have hnet' : r.session.network ≠ .udp := by rwa [h.session]
    simp only [readNext, hcipher, hcodecs, hread, if_neg hnet']
    rw [flatten_cons]
    by_cases hl : l < t.length
    · rw [if_pos hl]
      refine ⟨_, ⟨h.session, h.peer, h.fresh, done ++ [t], ts, by simp, rfl, rfl, ?_⟩, htakes⟩
      simp only [Standing, hready]
      exact hrest
    · rw [take_of_length_le (by omega), drop_of_length_le (by omega)] at htakes
      rw [if_neg hl]
      refine ⟨_, ⟨h.session, h.peer, h.fresh, done ++ [t], ts, by simp, ?_, rfl, ?_⟩, htakes⟩
      · rw [hleft]
      · simp only [Standing, hready]
        exact hrest

theorem readReady_takes (hinit : r.initRead ≠ .pending) (l : ℕ) :
    ∃ q', (r.readReady l).2.Leaves w all q' ∧ (r.readReady l).1.Takes l q q' := by
  obtain ⟨done, todo, hsplit, hq, hcodecs, hstanding⟩ := id h.standing
  cases hr : r.initRead with
  | pending => exact absurd hr hinit
  | failed =>
    simp only [Standing, hr] at hstanding
    have hnil : q = [] := by rw [hq, hstanding.1, hstanding.2]; rfl
    simp only [readReady, hr, if_true]
    rw [hnil] at h ⊢
    exact ⟨[], h, ReadOut.takes_fail _ l⟩
  | ready =>
    by_cases hleft : r.leftToRead = []
    · simp only [readReady, hr, hleft, reduceCtorEq, if_false, ne_eq, not_true_eq_false]
      exact readNext_takes hnet hall h hr hleft l
    · have hnet' : r.session.network ≠ .udp := by rwa [h.session]
      simp only [readReady, hr, hleft, reduceCtorEq, if_false, ne_eq, not_false_eq_true, if_true,
        hnet']
      rw [hq]
      refine ⟨_, ⟨h.session, h.peer, h.fresh, done, todo, hsplit, rfl, hcodecs, ?_⟩,
        ReadOut.takes_take _ _ l hleft⟩
      simp only [Standing, hr] at hstanding ⊢
      exact hstanding

theorem read_takes (l : ℕ) : ∃ q', (r.read l).2.Leaves w all q' ∧ (r.read l).1.Takes l q q' := by
  by_cases hpending : r.initRead = .pending
  · obtain ⟨done, todo, hsplit, hq, hcodecs, hstanding⟩ := id h.standing
    simp only [Standing, hpending] at hstanding
    obtain ⟨hdone, hleft, hrest | ⟨htodo, hrest⟩⟩ := hstanding
    · rw [← h.session] at hrest
      obtain ⟨s', hinit, hrest'⟩ := init_append hpending hrest
      subst hdone
      simp only [read, hinit]
      apply readReady_takes hnet hall
      · refine ⟨h.session, h.peer, h.fresh, [], todo, hsplit, hq, ?_, ?_⟩
        · change r.session.bodyCodecs (!r.isClient) = w.codecs
          simp [h.session, h.peer, h.fresh]
        · exact hrest'
      · simp
    · obtain ⟨s', hread, _⟩ := Io.readFull_nil (k := 18) (by decide) hrest
      have hnil : q = [] := by rw [hq, hleft, htodo]; rfl
      simp only [read, init, hpending, readRespHeader, hread]
      rw [hnil]
      exact ⟨[], ⟨h.session, h.peer, h.fresh, done, todo, hsplit, by simp [hleft, htodo], hcodecs,
        htodo, hleft⟩, ReadOut.takes_fail _ l⟩
  · simp only [read, init_of_ne_pending hpending]
    exact readReady_takes hnet hall h hpending l

end

end

theorem new_leaves {s : Session} {fromClient : Bool} {noise : ℕ → ℕ → UInt8} {ts : List Bytes}
    (hstream : stream.rest = (Writer.new s fromClient noise).initWriteOnce.1.getD [] ++
      (sealPackets ts (Writer.new s fromClient noise).initWriteOnce.2).1 ∨
        ts = [] ∧ stream.rest = []) :
    (new s (!fromClient) stream).Leaves (Writer.new s fromClient noise).initWriteOnce.2 ts
      ts.flatten := by
  cases fromClient with
  | true =>
    refine ⟨rfl, rfl, rfl, [], ts, rfl, rfl, rfl, ?_⟩
    rcases hstream with hstream | ⟨rfl, hstream⟩
    · exact hstream
    · exact hstream
  | false =>
    refine ⟨rfl, rfl, rfl, [], ts, rfl, rfl, rfl, rfl, rfl, ?_⟩
    exact hstream

end Reader

/-- Whatever the options, the payloads and the sizes of the reads, the reader returns the payloads
in order. The sizes of their chunks fit 16 bits, and behind every chunk its codecs have drawn what
those of the writer had drawn there. -/
theorem vmess_stream_round_trip (htcp : s.network = .tcp) (fromClient : Bool)
    (noise : ℕ → ℕ → UInt8) (bs : List Bytes) (hbs : ∀ b ∈ bs, b ≠ []) (stream : Source UInt8)
    (hstream : stream.rest = (new s fromClient noise).emitted bs) :
    (answers write (new s fromClient noise) bs).map (fun out => (out.n, out.err)) =
        bs.map (fun b => (b.length, none)) ∧
      ∃ w ts, w = (new s fromClient noise).initWriteOnce.2 ∧ ts.flatten = bs.flatten ∧
        (∀ t ∈ ts, t ≠ [] ∧ FitsSize w.cipher w.codecs t) ∧
        exec write (new s fromClient noise) bs =
          (if bs = [] then new s fromClient noise else (sealPackets ts w).2) ∧
        stream.rest = (if bs = [] then [] else s.preamble fromClient) ++ (sealPackets ts w).1 ∧
        ∀ ls : List ℕ,
          Delivers bs.flatten ls (answers read (new s (!fromClient) stream) ls) ∧
          ∃ k ≤ ts.length,
            (exec read (new s (!fromClient) stream) ls).codecs =
              (sealPackets (ts.take k) w).2.codecs ∧
            received (answers read (new s (!fromClient) stream) ls) ++
                (exec read (new s (!fromClient) stream) ls).leftToRead =
              (ts.take k).flatten := by
  set w₀ := new s fromClient noise with hw₀
  set w := w₀.initWriteOnce.2 with hw
  have hpre : w₀.initWriteOnce.1.getD [] = s.preamble fromClient := by
    cases fromClient <;> rfl
  have htexts : ∀ t ∈ bs.flatMap w.texts, t ≠ [] ∧ FitsSize w.cipher w.codecs t := by
    intro t ht
    obtain ⟨b, _, ht⟩ := mem_flatMap.mp ht
    exact ⟨w.texts_ne_nil ht, w.texts_fit ht⟩
  have hflat : (bs.flatMap w.texts).flatten = bs.flatten := by
    clear hstream hbs htexts
    induction bs with
    | nil => rfl
    | cons b bs ih =>
      simp [ih, w.flatten_texts]
  have hnet : w.session.network ≠ .udp := by
    rw [show w.session = s by cases fromClient <;> rfl, htcp]
    simp
  -- Nothing is on the stream before the first write, not even the response header.
  have hrun : (answers write w₀ bs).map (fun out => (out.n, out.err)) =
        bs.map (fun b => (b.length, none)) ∧
      w₀.emitted bs = (if bs = [] then [] else s.preamble fromClient) ++
        (sealPackets (bs.flatMap w.texts) w).1 ∧
      exec write w₀ bs =
        (if bs = [] then w₀ else (sealPackets (bs.flatMap w.texts) w).2) := by
    by_cases hne : bs = []
    · subst hne
      exact ⟨rfl, rfl, rfl⟩
    · obtain ⟨hanswers, hemitted, hexec⟩ := run_tcp (w := w₀) rfl htcp bs hbs hne
      rw [if_neg hne, if_neg hne, ← hpre]
      exact ⟨hanswers, hemitted, hexec⟩
  obtain ⟨hanswers, hemitted, hexec⟩ := hrun
  rw [hemitted] at hstream
  have hleaves : (new s (!fromClient) stream).Leaves w (bs.flatMap w.texts)
      (bs.flatMap w.texts).flatten := by
    apply new_leaves
    by_cases hne : bs = []
    · subst hne
      exact .inr ⟨rfl, hstream⟩
    · rw [if_neg hne, ← hpre] at hstream
      exact .inl hstream
  have hstep := fun r q l h => read_takes hnet htexts (r := r) (q := q) h l
  refine ⟨hanswers, w, bs.flatMap w.texts, rfl, hflat, htexts, hexec, hstream, fun ls => ?_⟩
  rw [hflat] at hleaves
  refine ⟨answers_delivers read (Reader.Leaves w (bs.flatMap w.texts)) hstep _ _ hleaves ls, ?_⟩
  obtain ⟨q', hleaves', hq⟩ :=
    exec_leaves read (Reader.Leaves w (bs.flatMap w.texts)) hstep _ _ hleaves ls
  obtain ⟨done, todo, hsplit, hq', hcodecs, _⟩ := hleaves'.standing
  have hdone : (bs.flatMap w.texts).take done.length = done := by
    rw [hsplit]
    exact take_left
  refine ⟨done.length, ?_, ?_, ?_⟩
  · rw [hsplit, length_append]
    omega
  · rwa [hdone]
  · rw [← hflat, hsplit, flatten_append, hq', ← append_assoc] at hq
    rw [hdone]
    exact (append_cancel_right hq).symm

def samplePrimitives : Primitives where
  newAEAD _ := Aead.lengthFraming
  nonceSize := 12
  newAesGcm _ := Aead.lengthFraming
  kdf key _ := key
  sha256 b := b
  shake _ n := .ofNat (n * 1000)
  overhead_newAEAD _ := Aead.overhead_lengthFraming
  overhead_newAesGcm _ := Aead.overhead_lengthFraming

def sampleKey : Octets 16 := ⟨replicate 16 5, by decide⟩

def sampleSession (network : Network) : Session where
  crypto := samplePrimitives
  requestBodyKey := sampleKey
  requestBodyIV := sampleKey
  requestOptions := 13
  responseAuth := 7
  network := network
  metadata := ⟨.ipv4, [], 53, .zero, 0, false⟩

theorem vmess_stream_round_trip_two_writes :
    received (answers read (new (sampleSession .tcp) true
      (.ofList ((new (sampleSession .tcp) false (fun _ _ => 0)).emitted [[1, 2, 3], [4]])))
        [1, 1, 9, 9]) = [1, 2, 3, 4] := by
  obtain ⟨_, _, _, _, _, _, _, _, hreads⟩ := vmess_stream_round_trip (sampleSession .tcp) rfl false
    (fun _ _ => 0) [[1, 2, 3], [4]] (by decide)
    (.ofList ((new (sampleSession .tcp) false (fun _ _ => 0)).emitted [[1, 2, 3], [4]]))
    (Source.rest_ofList _)
  exact (hreads [1, 1, 9, 9]).1.complete (by decide) (by decide)

end Outbound.Vmess
