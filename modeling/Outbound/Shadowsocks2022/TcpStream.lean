import Outbound.Shadowsocks2022.TcpRequest

/-! Whole request streams: what a run of writes sends, under which nonces, and what the server gets
back. -/
namespace Outbound.Shadowsocks2022.Tcp

open Lib Socks5 List Call Writer
open Shadowsocks.Tcp (poolGet closedWrite length_poolGet)

namespace Writer

def sealed (w : Writer) (key nonce : Bytes) (used : List Bytes) : Writer :=
  { w with nonceWrite := nonce, used := w.used ++ used.map fun nonce => (key, nonce) }

theorem sendSealed_eq (w : Writer) (c : Call) (key : Bytes) {s : Aead.Sealing}
    (hbuf : s.buf.length = s.offset) :
    w.sendSealed c key s = (some ((w.sealed key s.nonce s.used).send c s.buf).1,
      ((w.sealed key s.nonce s.used).send c s.buf).2) := by
  have htake : s.buf.take s.offset = s.buf := take_of_length_le hbuf.le
  unfold sendSealed
  rw [htake]
  rfl

theorem send_cases (w : Writer) (c : Call) (frame : Bytes) :
    (w.send c frame).1.frame = frame ∧ (c.fails = none → (w.send c frame).1.err = none) ∧
      (((w.send c frame).1.err = none ∧ (w.send c frame).1.sent = frame ∧
          (w.send c frame).2 = { w with onceWrite := true }) ∨
        ((w.send c frame).1.err ≠ none ∧ (w.send c frame).1.sent <+: frame ∧
          (w.send c frame).2 = { w with writeBroken := true })) := by
  unfold send
  cases hfails : c.fails with
  | none => exact ⟨rfl, fun _ => rfl, .inl ⟨rfl, rfl, rfl⟩⟩
  | some f =>
    obtain ⟨k, err⟩ := f
    split_ifs with hempty
    · exact ⟨rfl, by simp, .inl ⟨rfl, hempty.symm, rfl⟩⟩
    · exact ⟨rfl, by simp, .inr ⟨by simp, List.take_prefix k frame, rfl⟩⟩

def latch (core : Core) (key : Bytes) : Latch Error Writer Call (Bytes × Bytes) where
  write := write
  closed := closedWrite
  cipher := core.conf.newCipher key
  ready w nonce := w.core = core ∧ w.cipherWrite = some key ∧ w.onceWrite = true ∧
    w.writeBroken = false ∧ w.nonceWrite = nonce
  broken w := w.writeBroken = true
  used := used
  mark nonce := (key, nonce)
  texts c := chunks chunkMaxLen c.payload
  size c := encryptedPayloadLen c.payload.length core.conf.tagLen
  sound c := c.fails = none

theorem latch_seals {w v : Writer} {c : Call} {key head nonce : Bytes} {ts used : List Bytes}
    {size : ℕ} (hkey : w.cipherWrite = some key) (hok : w.writeBroken = false)
    (hsize : (head ++ (w.core.conf.newCipher key).sealPairs nonce ts).length = size)
    (hwrite : v.write c = w.sendSealed c key
      (.behind (w.core.conf.newCipher key) head nonce ts size used)) :
    (latch w.core key).Seals v c nonce head ts size
      (w.used ++ used.map fun nonce => (key, nonce)) := by
  rw [Aead.Sealing.behind, w.sendSealed_eq c key hsize] at hwrite
  have hused : (w.sealed key (incLE^[2 * ts.length] nonce)
      (used ++ counterRun nonce (2 * ts.length))).used =
        w.used ++ used.map (fun nonce => (key, nonce)) ++
          (counterRun nonce (2 * ts.length)).map fun nonce => (key, nonce) := by
    simp [sealed]
  obtain ⟨hframe, hsound, hcases⟩ := (w.sealed key (incLE^[2 * ts.length] nonce)
    (used ++ counterRun nonce (2 * ts.length))).send_cases c
      (head ++ (w.core.conf.newCipher key).sealPairs nonce ts)
  refine ⟨_, _, hwrite, by rw [hframe, hsize], ?_, hsound, ?_⟩
  · rcases hcases with ⟨_, _, hnext⟩ | ⟨_, _, hnext⟩
    · rwa [hnext]
    · rwa [hnext]
  · rcases hcases with ⟨herr, hsent, hnext⟩ | ⟨herr, hsent, hnext⟩
    · refine .inl ⟨herr, hsent, ?_⟩
      rw [hnext]
      exact ⟨rfl, hkey, rfl, hok, rfl⟩
    · refine .inr ⟨herr, hsent, ?_⟩
      rw [hnext]
      rfl

theorem latch_lawful (core : Core) (key : Bytes) : (latch core key).Lawful where
  closed_sent := rfl
  broken_write := fun w _ hbroken => if_pos hbroken
  ready_write := by
    rintro w c _ ⟨rfl, hkey, honce, hok, rfl⟩
    have hframe := sealPayload_eq (w.overhead_cipher key) c.payload w.nonceWrite
      (length_poolGet c.memory (encryptedPayloadLen c.payload.length w.core.conf.tagLen))
    have hwrite : w.write c = w.sendSealed c key
        (.behind (w.core.conf.newCipher key) [] w.nonceWrite (chunks chunkMaxLen c.payload)
          (encryptedPayloadLen c.payload.length w.core.conf.tagLen) []) := by
      unfold write
      rw [hok, honce, hkey, if_neg Bool.false_ne_true, if_pos rfl]
      simp [hframe, Aead.Sealing.behind]
    have hseals := latch_seals hkey hok (by
      exact length_sealPairs_chunks (w.overhead_cipher key) w.nonceWrite c.payload) hwrite
    rwa [map_nil, append_nil] at hseals

variable {w : Writer} {addr : AddressInfo} {addrLen : ℕ}

def key (core : Core) (c : Call) : Bytes := core.sessionKey (poolGet c.random core.conf.saltLen)

variable (haddr : w.addr = some addr) (h : addrInfoEncodedLen (some addr) = .ok addrLen)
  (honce : w.onceWrite = false) (hok : w.writeBroken = false)

include haddr h honce hok

theorem write_first {c : Call} {s : Aead.Sealing}
    (hframe : { w with cipherWrite := some (key w.core c) }.firstFrame c
      (poolGet c.random w.core.conf.saltLen) addrLen = some (.ok s)) :
    w.write c = { w with cipherWrite := some (key w.core c) }.sendSealed c (key w.core c) s := by
  unfold write
  rw [hok, honce, haddr]
  dsimp only
  rw [if_neg Bool.false_ne_true, if_neg Bool.false_ne_true, h]
  dsimp only
  rw [key, haddr, hok, honce] at hframe
  rw [hframe]
  rfl

theorem latch_seals_first (c : Call) :
    (latch w.core (key w.core c)).Seals w c (incLE^[2] w.nonceWrite)
      (requestHead w.core w.nonceWrite addr addrLen c)
      (chunks chunkMaxLen (remainingPayload w.core addrLen c))
      (layout w.core addrLen c.payload.length).totalSize
      (w.used ++ [w.nonceWrite, incLE w.nonceWrite].map fun nonce => (key w.core c, nonce)) := by
  have hframe := firstFrame_eq (w := { w with cipherWrite := some (key w.core c) }) haddr h c
  have hsize : (requestHead w.core w.nonceWrite addr addrLen c ++
      (w.core.conf.newCipher (key w.core c)).sealPairs (incLE^[2] w.nonceWrite)
        (chunks chunkMaxLen (remainingPayload w.core addrLen c))).length =
        (layout w.core addrLen c.payload.length).totalSize := by
    rw [requestHead]
    simp only [length_append, length_poolGet, length_identityHeaders, Aead.length_seal,
      length_fixedHeaderPlain, w.overhead_cipher, length_varText w.core h,
      length_sealPairs_chunks (w.overhead_cipher _), remainingPayload, length_drop]
    rfl
  exact latch_seals (w := { w with cipherWrite := some (key w.core c) }) rfl hok hsize
    (write_first haddr h honce hok hframe)

end Writer

section Server

variable {addr : AddressInfo} {addrLen : ℕ} {now : ℕ}

theorem decodeFixedHeader_plain {time : UInt64} {n : ℕ} (hn : n < 2 ^ 16)
    (hpast : time.toNat ≤ now + 30) (hfuture : now ≤ time.toNat + 30) :
    decodeFixedHeader now (fixedHeaderPlain time n) = some n := by
  have htime : beNat (((fixedHeaderPlain time n).drop 1).take 8) = time.toNat := by
    simpa [fixedHeaderPlain] using beNat_beBytes_of_lt time.toNat_lt
  have hlen : beNat ((fixedHeaderPlain time n).drop 9) = n := by
    simpa [fixedHeaderPlain] using beNat_beBytes_of_lt hn
  rw [decodeFixedHeader, htime, if_pos ⟨rfl, hpast, hfuture⟩, hlen]

theorem decodeVarHeader_varText (h : addrInfoEncodedLen (some addr) = .ok addrLen)
    (initialPayload : Bytes) :
    decodeVarHeader (varText addr initialPayload) =
      if initialPayload = [] then none else some (onWire addr, initialPayload) := by
  obtain ⟨_, _, hread⟩ := addrInfoBytes_spec h
  have hpadding : beNat ((beBytes 2 0 ++ initialPayload).take 2) = 0 := by
    rfl
  have hpayload : (beBytes 2 0 ++ initialPayload).drop (2 + 0) = initialPayload :=
    drop_left' (length_beBytes 2 0)
  simp only [decodeVarHeader, varText, hread, hpadding, hpayload]
  rw [if_neg (by rw [length_append, length_beBytes]; omega)]
  simp

theorem take_initialPayload_eq_nil_iff (core : Core) (hle : addrLen ≤ 259) (payload : Bytes) :
    payload.take (layout core addrLen payload.length).initialPayloadLen = [] ↔ payload = [] := by
  obtain ⟨_, _, _, hpos⟩ := layout_spec core hle payload.length
  rw [take_eq_nil_iff]
  constructor
  · rintro (hzero | hnil)
    · by_contra hne
      exact (hpos (length_pos_iff.mpr hne)).ne' hzero
    · exact hnil
  · exact .inr

theorem decodeSealed_seal (core : Core) (h : addrInfoEncodedLen (some addr) = .ok addrLen)
    (cipher : Aead) (nonce payload : Bytes) {time : UInt64} {ts : List Bytes}
    (hts : ∀ t ∈ ts, t.length < 2 ^ 16) (hpast : time.toNat ≤ now + 30)
    (hfuture : now ≤ time.toNat + 30) :
    decodeSealed cipher nonce now
        (cipher.sealText nonce (fixedHeaderPlain time
            (layout core addrLen payload.length).firstVarHeaderLen) ++
          (cipher.sealText (incLE nonce) (varText addr
            (payload.take (layout core addrLen payload.length).initialPayloadLen)) ++
          cipher.sealPairs (incLE^[2] nonce) ts)) =
      if payload = [] then none
      else some (onWire addr, payload.take
        (layout core addrLen payload.length).initialPayloadLen ++ ts.flatten) := by
  obtain ⟨_, hle, _⟩ := addrInfoBytes_spec h
  obtain ⟨_, _, hfits, _⟩ := layout_spec core hle payload.length
  have hvarText := length_varText core h payload
  have hchunks : decodeChunks cipher (cipher.sealPairs (incLE^[2] nonce) ts).length
      (incLE^[2] nonce) (cipher.sealPairs (incLE^[2] nonce) ts) = some ts.flatten := by
    apply decodeChunks_sealPairs cipher ts hts
    rw [cipher.length_sealPairs, Aead.pairOverhead]
    have hmul : ts.length * 1 ≤ ts.length * (2 + cipher.overhead + cipher.overhead) :=
      Nat.mul_le_mul_left _ (by omega)
    omega
  rw [decodeSealed, openNext_seal cipher nonce (length_fixedHeaderPlain _ _), Option.bind_some,
    decodeFixedHeader_plain hfits hpast hfuture, Option.bind_some,
    openNext_seal cipher (incLE nonce) hvarText, Option.bind_some, decodeVarHeader_varText h]
  simp only [take_initialPayload_eq_nil_iff core hle]
  split_ifs with hempty
  · rfl
  · rw [Option.bind_some, hchunks, Option.map_some]

/-- The server gets back the target and the bytes of a whole stream, if its first write had any. -/
theorem decodeRequest_head {w : Writer} (h : addrInfoEncodedLen (some addr) = .ok addrLen)
    (hnonce : w.nonceWrite = replicate w.core.conf.nonceLen 0) (c : Call) {ts : List Bytes}
    (hts : ∀ t ∈ ts, t.length < 2 ^ 16) (hpast : c.now.toNat ≤ now + 30)
    (hfuture : now ≤ c.now.toNat + 30) :
    decodeRequest w.core now (requestHead w.core w.nonceWrite addr addrLen c ++
        (w.core.conf.newCipher (key w.core c)).sealPairs (incLE^[2] w.nonceWrite) ts) =
      if c.payload = [] then none
      else some (onWire addr, c.payload.take
        (layout w.core addrLen c.payload.length).initialPayloadLen ++ ts.flatten) := by
  have hsalt : (poolGet c.random w.core.conf.saltLen).length = w.core.conf.saltLen :=
    length_poolGet _ _
  rw [requestHead, decodeRequest]
  simp only [append_assoc]
  rw [if_neg (by rw [length_append, hsalt]; omega), take_left' hsalt,
    drop_left' hsalt, checkIdentity_identityHeaders, Option.bind_some, ← hnonce]
  exact decodeSealed_seal w.core h _ w.nonceWrite c.payload hts hpast hfuture

end Server

def frameSizes (core : Core) (addrLen : ℕ) : List Bytes → List ℕ
  | [] => []
  | b :: bs => (layout core addrLen b.length).totalSize ::
      bs.map fun b => encryptedPayloadLen b.length core.conf.tagLen

def sealCount (core : Core) (addrLen : ℕ) : List Bytes → ℕ
  | [] => 0
  | b :: bs =>
    2 + 2 * (chunkCount chunkMaxLen (b.length - (layout core addrLen b.length).initialPayloadLen) +
      (bs.map fun b => chunkCount chunkMaxLen b.length).sum)

/-- A stream that starts with the write `c`: salt, identity headers, the two header chunks, and the
chunks of `ts`. The length of each text is announced in the chunk before it. -/
def wire (core : Core) (c : Call) (var : Bytes) (ts : List Bytes) : Bytes :=
  let salt := poolGet c.random core.conf.saltLen
  let cipher := core.conf.newCipher (core.sessionKey salt)
  let nonce := replicate core.conf.nonceLen 0
  salt ++ identityHeaders core salt core.pskList ++
    cipher.sealText nonce (fixedHeaderPlain c.now var.length) ++
    cipher.sealText (incLE nonce) var ++ cipher.sealPairs (incLE^[2] nonce) ts

/-- What the writes `cs` of a new connection to `addr` are for. -/
structure Conveys (core : Core) (addr : AddressInfo) (addrLen : ℕ) (cs : List Call)
    (outs : List (Written Error)) : Prop where
  answers : Run.answers write (.new core (some addr)) cs = outs.map some
  latched : Latched closedWrite (frameSizes core addrLen (cs.map payload)) outs
  front : ∀ c ∈ cs.head?, ∃ var ts, var.length < 2 ^ 16 ∧ (∀ t ∈ ts, t.length < 2 ^ 16) ∧
    sent outs <+: wire core c var ts
  nonces : ∀ c ∈ cs.head?, ∃ n, (Run.exec write (.new core (some addr)) cs).used =
    (counterRun (replicate core.conf.nonceLen 0) n).map fun nonce => (key core c, nonce)
  fresh : (Run.exec write (.new core (some addr)) cs).used.Nodup
  decoded : (∀ out ∈ outs, out.err = none) → ∀ c ∈ cs.head?, ∀ now : ℕ,
    c.now.toNat ≤ now + 30 → now ≤ c.now.toNat + 30 →
      decodeRequest core now (sent outs) = some (onWire addr, (cs.map payload).flatten)

section Runs

variable {core : Core} {addr : AddressInfo} {addrLen : ℕ}

def texts (core : Core) (addrLen : ℕ) (c : Call) (cs : List Call) : List Bytes :=
  chunks chunkMaxLen (c.payload.drop (layout core addrLen c.payload.length).initialPayloadLen) ++
    cs.flatMap fun c => chunks chunkMaxLen c.payload

theorem length_texts (core : Core) (addrLen : ℕ) (c : Call) (cs : List Call) :
    2 + 2 * (texts core addrLen c cs).length =
      sealCount core addrLen ((c :: cs).map payload) := by
  rw [texts, length_append, length_flatMap, map_cons, sealCount, map_map]
  simp only [chunks, length_map, length_range, length_drop]
  rfl

theorem length_text_lt {c : Call} {cs : List Call} {t : Bytes} (ht : t ∈ texts core addrLen c cs) :
    t.length < 2 ^ 16 := by
  have hmax : chunkMaxLen < 2 ^ 16 := by decide
  rcases mem_append.mp ht with hmem | hmem
  · exact (length_le_of_mem_chunks hmem).trans_lt hmax
  · obtain ⟨c', _, hmem'⟩ := mem_flatMap.mp hmem
    exact (length_le_of_mem_chunks hmem').trans_lt hmax

theorem flatten_texts (core : Core) (addrLen : ℕ) (c : Call) (cs : List Call) :
    c.payload.take (layout core addrLen c.payload.length).initialPayloadLen ++
        (texts core addrLen c cs).flatten =
      ((c :: cs).map payload).flatten := by
  have hrest : (cs.flatMap fun c => chunks chunkMaxLen c.payload).flatten =
      (cs.map payload).flatten := by
    induction cs with
    | nil => rfl
    | cons c cs ih =>
      rw [flatMap_cons, flatten_append, ih, chunks, flatten_chunks chunkMaxLen_pos]
      rfl
  rw [texts, flatten_append, hrest, chunks, flatten_chunks chunkMaxLen_pos,
    ← append_assoc, take_append_drop]
  rfl

theorem run_spec (core : Core) (h : addrInfoEncodedLen (some addr) = .ok addrLen) (c : Call)
    (cs : List Call) :
    ∃ outs, Run.answers write (.new core (some addr)) (c :: cs) = outs.map some ∧
      Sends closedWrite (core.conf.newCipher (key core c))
        (incLE^[2] (replicate core.conf.nonceLen 0))
        (requestHead core (replicate core.conf.nonceLen 0) addr addrLen c)
        (texts core addrLen c cs)
        (frameSizes core addrLen ((c :: cs).map payload)) outs ∧
      ((∀ c' ∈ c :: cs, c'.fails = none) → ∀ out ∈ outs, out.err = none) ∧
      ∃ n ≤ sealCount core addrLen ((c :: cs).map payload),
        ((∀ out ∈ outs, out.err = none) →
          n = sealCount core addrLen ((c :: cs).map payload)) ∧
        (Run.exec write (.new core (some addr)) (c :: cs)).used =
          (counterRun (replicate core.conf.nonceLen 0) n).map
            fun nonce => (key core c, nonce) := by
  obtain ⟨outs, hanswers, hsends, hsound, n, hn, hall, hused⟩ :=
    (latch_lawful core (key core c)).runs_first
      (latch_seals_first (w := .new core (some addr)) rfl h rfl rfl c) cs
  have hlen := length_texts core addrLen c cs
  have hsizes : frameSizes core addrLen ((c :: cs).map payload) =
      (layout core addrLen c.payload.length).totalSize ::
        cs.map fun c => encryptedPayloadLen c.payload.length core.conf.tagLen := by
    simp [frameSizes]
  have hn' : n ≤ 2 * (texts core addrLen c cs).length := hn
  have hall' : (∀ out ∈ outs, out.err = none) → n = 2 * (texts core addrLen c cs).length := hall
  refine ⟨outs, hanswers, hsizes ▸ hsends, hsound, 2 + n, by omega, fun hok => ?_, ?_⟩
  · rw [← hlen, hall' hok]
  · refine hused.trans ?_
    rw [counterRun_add, map_append]
    rfl

theorem decodeRequest_sends (h : addrInfoEncodedLen (some addr) = .ok addrLen) {c : Call}
    {cs : List Call} {sizes : List ℕ} {outs : List (Written Error)}
    (hsends : Sends closedWrite (core.conf.newCipher (key core c))
      (incLE^[2] (replicate core.conf.nonceLen 0))
      (requestHead core (replicate core.conf.nonceLen 0) addr addrLen c)
      (texts core addrLen c cs) sizes outs)
    (hok : ∀ out ∈ outs, out.err = none) {now : ℕ} (hpast : c.now.toNat ≤ now + 30)
    (hfuture : now ≤ c.now.toNat + 30) :
    decodeRequest core now (sent outs) =
      if c.payload = [] then none
      else some (onWire addr, ((c :: cs).map payload).flatten) := by
  have hdecode := decodeRequest_head (w := .new core (some addr)) h rfl c
    (fun t (ht : t ∈ texts core addrLen c cs) => length_text_lt ht) hpast hfuture
  rwa [hsends.whole hok, ← flatten_texts core addrLen c cs]

def plain (payload : Bytes) : Call := ⟨payload, fun _ => 0, fun _ => 0, 0, none⟩

theorem nodup_marks_iff (key : Bytes) (nonceLen n : ℕ) :
    ((counterRun (replicate nonceLen 0) n).map fun nonce => (key, nonce)).Nodup ↔
      n ≤ 256 ^ nonceLen := by
  rw [nodup_map_iff fun a b hab => (Prod.mk.inj hab).2, nodup_counterRun_iff, length_replicate]

end Runs

/-- Writes to an accepted target reach the server whatever the connection does, just when the first
has a payload and there are nonces for all that is sealed. -/
theorem request_stream_iff (core : Core) (addr : AddressInfo) {addrLen : ℕ}
    (h : addrInfoEncodedLen (some addr) = .ok addrLen) (payloads : List Bytes) :
    (∀ cs : List Call, cs.map payload = payloads →
        ∃ outs, Conveys core addr addrLen cs outs) ↔
      (∀ b ∈ payloads.head?, b ≠ []) ∧
        sealCount core addrLen payloads ≤ 256 ^ core.conf.nonceLen := by
  constructor
  · intro hall
    obtain ⟨outs, hconveys⟩ := hall (payloads.map plain) (by
      rw [map_map]
      exact map_id _)
    cases payloads with
    | nil => exact ⟨by simp, Nat.zero_le _⟩
    | cons b bs =>
      obtain ⟨outs', hanswers, hsends, hsound, n, _, hn, hused⟩ :=
        run_spec core h (plain b) (bs.map plain)
      have hsame : outs' = outs := by
        apply map_injective_iff.mpr (Option.some_injective _)
        exact hanswers.symm.trans hconveys.answers
      subst hsame
      have hok := hsound (by simp [plain])
      have hfresh := hconveys.fresh
      rw [map_cons, hused, nodup_marks_iff, hn hok] at hfresh
      constructor
      · rintro b' hb' rfl
        cases hb'
        have hdecoded := hconveys.decoded hok (plain []) rfl 0 (by simp [plain])
          (by simp)
        rw [decodeRequest_sends h hsends hok (by simp [plain]) (by simp)] at hdecoded
        cases hdecoded
      · have hpayloads : (plain b :: bs.map plain).map payload = b :: bs := by
          rw [map_cons, map_map]
          exact congrArg _ (map_id bs)
        rwa [hpayloads] at hfresh
  · rintro ⟨hne, hcount⟩ cs rfl
    cases cs with
    | nil => exact ⟨[], rfl, .nil, by simp, by simp, nodup_nil, by simp⟩
    | cons c cs =>
      obtain ⟨outs, hanswers, hsends, _, n, hle, _, hused⟩ := run_spec core h c cs
      refine ⟨outs, hanswers, hsends.latched, ?_, ?_, ?_, ?_⟩
      · rintro c' hc'
        cases hc'
        obtain ⟨_, hlen, _⟩ := addrInfoBytes_spec h
        obtain ⟨_, _, hfits, _⟩ := layout_spec core hlen c.payload.length
        have hvarText := length_varText core h c.payload
        refine ⟨_, texts core addrLen c cs, hvarText.trans_lt hfits, fun t ht => length_text_lt ht, ?_⟩
        rw [wire, hvarText]
        exact hsends.front
      · rintro c' hc'
        cases hc'
        exact ⟨n, hused⟩
      · rw [hused, nodup_marks_iff]
        exact hle.trans hcount
      · rintro hok c' hc' now hpast hfuture
        cases hc'
        rw [decodeRequest_sends h hsends hok hpast hfuture, if_neg]
        exact hne c.payload rfl

def sampleCore : Core where
  conf :=
    { saltLen := 16
      nonceLen := 12
      tagLen := 16
      newCipher := fun _ => .lengthFraming
      newBlockCipher := fun _ =>
        { encrypt := fun b => (b ++ replicate blockSize 0).take blockSize
          decrypt := fun b => b
          length_encrypt := by
            intro b
            rw [length_take, length_append, length_replicate]
            omega
          decrypt_encrypt := fun b hb => take_left' hb }
      overhead := fun _ => Aead.overhead_lengthFraming }
  pskList := [[1, 2], [3, 4]]
  pskList_ne_nil := by decide
  deriveKey context material n := (context ++ material).take n
  sum512 b := (b ++ replicate 64 0).take 64
  length_sum512 := by
    intro b
    rw [length_take, length_append, length_replicate]
    omega

def namedTarget : AddressInfo := ⟨addressTypeDomain, [97, 46, 98], .zero, 80⟩

theorem request_stream_iff_sample :
    addrInfoEncodedLen (some namedTarget) = .ok 7 ∧
      ∀ cs : List Call, cs.map payload = [[5, 6], [], [7]] →
        ∃ outs, Conveys sampleCore namedTarget 7 cs outs := by
  have haccepted : addrInfoEncodedLen (some namedTarget) = .ok 7 := rfl
  refine ⟨haccepted, (request_stream_iff sampleCore namedTarget haccepted [[5, 6], [], [7]]).mpr ?_⟩
  constructor
  · rintro b hb rfl
    cases hb
  · decide

/-- A first write without payload succeeds, and the server rejects what it sent. -/
theorem empty_first_write_rejected :
    addrInfoEncodedLen (some namedTarget) = .ok 7 ∧
      (write (.new sampleCore (some namedTarget)) (plain [])).1.map Written.err =
        some none ∧
      decodeRequest sampleCore 0 (((write (.new sampleCore (some namedTarget))
        (plain [])).1.map Written.sent).getD []) = none := by
  refine ⟨rfl, ?_, ?_⟩
  · decide +kernel
  · decide +kernel

end Outbound.Shadowsocks2022.Tcp
