import Outbound.Shadowsocksr.AuthChain

/-! What `Encode` puts on the wire, and the values of the server's `TcpMss` it copes with. -/
namespace Outbound.Shadowsocksr

open Lib List Option UInt8

structure Chunk where
  data : Bytes
  wire : Bytes

variable (env : Env)

/-- The hash after a chunk: over everything but its own two bytes of tag. -/
def nextHash (id : UInt32) (wire : Bytes) : Octets 16 :=
  env.hmac (chunkKey env id) (wire.take (wire.length - 2))

/-- The chunk announces the length of its data, has the encrypted data between its two ends, and is
tagged with the hash after it. -/
structure Chunk.Carries (stream : ℕ → UInt8) (hash : Octets 16) (id : UInt32)
    (pos : ℕ) (c : Chunk) : Prop where
  length : announced hash c.wire = c.data.length
  data : ∃ front back, c.wire = front ++ Keystream.xorFrom stream pos c.data ++ back ∧
    2 ≤ front.length ∧ 2 ≤ back.length
  tag : c.wire.drop (c.wire.length - 2) = (nextHash env (id + 1) c.wire).1.take 2

/-- A sequence of chunks, each masked by the hash after the one before it. -/
def Chained (env : Env) (stream : ℕ → UInt8) : Octets 16 → UInt32 → ℕ → List Chunk → Prop
  | _, _, _, [] => True
  | hash, id, pos, c :: cs => c.Carries env stream hash id pos ∧
    Chained env stream (nextHash env (id + 1) c.wire) (id + 1) (pos + c.data.length) cs

variable (a : AuthChainA) (mss : UInt16) (s : Session) (data : Bytes)

def FramedFrom (cs : List Chunk) : Prop :=
  match a.session with
  | none => cs = []
  | some s =>
    Chained env s.cipher.stream s.lastClientHash a.chunkID s.cipher.encrypted cs

variable (now : ℕ) (p : Bytes) (n fuel : ℕ)

/-- What stands before the chunks of a payload, and the state they go on from. -/
def heading : Bytes × AuthChainA :=
  if 0 < p.length ∧ a.hasSentHeader = false then authHead env a now else ([], a)

/-- The output is the header, where it is due, and a sequence of chunks whose data is the payload. -/
def Framed (out : Bytes) : Prop :=
  ∃ cs : List Chunk, out = (heading env a now p).1 ++ cs.flatMap Chunk.wire ∧
    cs.flatMap Chunk.data = p ∧ FramedFrom env (heading env a now p).2 cs

def leftAfterHead : ℕ :=
  if 0 < p.length ∧ a.hasSentHeader = false then p.length - headSize p else p.length

def AuthChainA.storeMss : AuthChainA := { a with tcpMss := mss.toNat }

theorem framedFrom_nil : FramedFrom env a [] := by
  unfold FramedFrom
  split
  · rfl
  · trivial

/-- Masking with the hash and unmasking gives the length back, as long as it has 16 bits. -/
theorem announced_masked (hash : Octets 16) (n : ℕ) (rest : Bytes) (h : n < 65536) :
    announced hash ([ofNat n ^^^ hash.1.getD 14 0,
      ofNat (n >>> 8) ^^^ hash.1.getD 15 0] ++ rest) = n := by
  have hlo : ofNat n ^^^ hash.1.getD 14 0 ^^^ hash.1.getD 14 0 = ofNat n := by
    rw [UInt8.xor_assoc, UInt8.xor_self, UInt8.xor_zero]
  have hhi : ofNat (n >>> 8) ^^^ hash.1.getD 15 0 ^^^ hash.1.getD 15 0 =
      ofNat (n >>> 8) := by
    rw [UInt8.xor_assoc, UInt8.xor_self, UInt8.xor_zero]
  change (ofNat (n >>> 8) ^^^ hash.1.getD 15 0 ^^^ hash.1.getD 15 0).toNat <<< 8 +
    (ofNat n ^^^ hash.1.getD 14 0 ^^^ hash.1.getD 14 0).toNat = n
  rw [hlo, hhi, toNat_ofNat', toNat_ofNat', Nat.shiftLeft_eq, Nat.shiftRight_eq_div_pow]
  omega

structure Packed
    (b : Bytes × AuthChainA) : Prop where
  carries : Chunk.Carries env s.cipher.stream s.lastClientHash a.chunkID s.cipher.encrypted
    ⟨data, b.1⟩
  chunkID : b.2.chunkID = a.chunkID + 1
  session : ∃ s', b.2.session = some s' ∧
    s'.lastClientHash = nextHash env (a.chunkID + 1) b.1 ∧
    s'.cipher.stream = s.cipher.stream ∧ s'.cipher.encrypted = s.cipher.encrypted + data.length
  tcpMss : b.2.tcpMss = a.tcpMss

theorem framedFrom_cons {env : Env} {a : AuthChainA} {s : Session} {data : Bytes}
    {b : Bytes × AuthChainA} {cs : List Chunk} (hs : a.session = some s)
    (h : Packed env a s data b) (hcs : FramedFrom env b.2 cs) :
    FramedFrom env a (⟨data, b.1⟩ :: cs) := by
  obtain ⟨s', hs', hhash, hstream, hpos⟩ := h.session
  have htail : Chained env s.cipher.stream (nextHash env (a.chunkID + 1) b.1) (a.chunkID + 1)
      (s.cipher.encrypted + data.length) cs := by
    unfold FramedFrom at hcs
    rw [hs'] at hcs
    dsimp only at hcs
    rwa [hhash, hstream, hpos, h.chunkID] at hcs
  unfold FramedFrom
  rw [hs]
  exact ⟨h.carries, htail⟩

theorem padded_eq :
    ∃ front back, (padded env a s data n).1 =
      front ++ Keystream.xorFrom s.cipher.stream s.cipher.encrypted data ++ back := by
  unfold padded
  split
  · exact ⟨_, _, rfl⟩
  · next h =>
    have hnil : data = [] := eq_nil_of_length_eq_zero (by omega)
    subst hnil
    exact ⟨_, [], (by rw [Keystream.xorFrom_nil, append_nil, append_nil])⟩

theorem padded_tcpMss : (padded env a s data n).2.tcpMss = a.tcpMss := by
  unfold padded
  split <;> rfl

theorem packChunk_packed {a : AuthChainA} {s : Session} (hs : a.session = some s)
    {data : Bytes} (hlen : data.length < 65536) :
    ∃ b, packChunk env a data = some b ∧ Packed env a s data b := by
  set rand := env.rnd data.length a.randomClient s.lastClientHash with hrand
  set a₁ : AuthChainA := { a with randomClient := rand.2 } with ha₁
  have heq : packChunk env a data = some (packData env a₁ s data rand.1) :=
    map_eq_some_iff.mpr ⟨s, hs, rfl⟩
  refine ⟨_, heq, ?_⟩
  obtain ⟨front, back, hbody⟩ := padded_eq env a₁ s data rand.1
  set body := (padded env a₁ s data rand.1).1 with hbodyDef
  set out := [ofNat data.length ^^^ s.lastClientHash.1.getD 14 0,
    ofNat (data.length >>> 8) ^^^ s.lastClientHash.1.getD 15 0] ++ body with hout
  set hash := env.hmac (chunkKey env (a.chunkID + 1)) out with hhash
  have hwire : (packData env a₁ s data rand.1).1 = out ++ hash.1.take 2 := rfl
  have htag : (hash.1.take 2).length = 2 := by
    simp [hash.2]
  have hcut : (out ++ hash.1.take 2).length - 2 = out.length := by
    rw [length_append, htag]
    omega
  have hnext : nextHash env (a.chunkID + 1) (out ++ hash.1.take 2) = hash := by
    rw [nextHash, hcut, take_left]
  constructor
  · constructor
    · change announced s.lastClientHash (out ++ hash.1.take 2) = data.length
      simpa [hout] using announced_masked _ _ _ hlen
    · refine ⟨[ofNat data.length ^^^ s.lastClientHash.1.getD 14 0,
        ofNat (data.length >>> 8) ^^^ s.lastClientHash.1.getD 15 0] ++ front,
        back ++ hash.1.take 2, ?_, ?_, ?_⟩
      · change out ++ hash.1.take 2 = _
        rw [hout, hbody]
        simp
      · rw [length_append, length_cons, length_cons, length_nil]
        omega
      · rw [length_append, htag]
        omega
    · change (out ++ hash.1.take 2).drop ((out ++ hash.1.take 2).length - 2) =
        (nextHash env (a.chunkID + 1) (out ++ hash.1.take 2)).1.take 2
      rw [hnext, hcut, drop_left]
  · rfl
  · refine ⟨_, rfl, ?_, rfl, rfl⟩
    rw [hwire, hnext]
  · exact padded_tcpMss env a₁ s data rand.1

/-! ## The loop -/

theorem piece_natCast (i n : ℕ) (h : i + n ≤ p.length) :
    piece p i n = some ((p.drop i).take n) := by
  have hto : ((i : ℤ) + n).toNat = i + n := by omega
  rw [piece, if_pos ⟨by omega, by omega⟩, hto, Int.toNat_natCast, sliceBetween,
    if_pos ⟨by omega, h⟩, Nat.add_sub_cancel_left]

theorem encodeFrom_of_neg {unit : ℤ} (hunit : unit < 0) (fuel : ℕ)
    (a : AuthChainA) (offset : ℤ) (k : ℕ) (buf : Bytes) :
    encodeFrom env p unit fuel a offset k buf = none := by
  cases fuel with
  | zero => rfl
  | succ fuel =>
    have hloop : unit < (k : ℤ) := by omega
    have hsize : ¬ (0 ≤ unit) := by omega
    simp [encodeFrom, hloop, piece, hsize]

theorem encodeFrom_of_zero (a : AuthChainA) (offset : ℤ) {k : ℤ}
    (hk : 0 < k) (buf : Bytes) : encodeFrom env p 0 fuel a offset k buf = none := by
  induction fuel generalizing a offset buf with
  | zero => rfl
  | succ fuel ih =>
    rw [encodeFrom, if_pos hk]
    cases hdata : piece p offset 0 with
    | none => rfl
    | some data =>
      cases hb : packChunk env a data with
      | none => simp [hb]
      | some b =>
        simp only [bind_eq_bind, bind_some, hb, Int.sub_zero, Int.add_zero]
        exact ih b.2 offset (buf ++ b.1)

/-- With a positive unit of 16 bits the loop ends, and the rest of the payload is sent in chunks. -/
theorem encodeFrom_framed {unit : ℕ} (hpos : 0 < unit)
    (hunit : unit < 65536) (fuel : ℕ) (a : AuthChainA) (i k : ℕ) (buf : Bytes)
    (hs : 0 < k → a.session.isSome = true) (hik : i + k = p.length) (hfuel : k < fuel) :
    ∃ cs b, encodeFrom env p unit fuel a i k buf = some (buf ++ cs.flatMap Chunk.wire, b) ∧
      cs.flatMap Chunk.data = p.drop i ∧ FramedFrom env a cs := by
  induction fuel generalizing a i k buf with
  | zero => omega
  | succ fuel ih =>
    by_cases hloop : unit < k
    · obtain ⟨s, hsome⟩ := isSome_iff_exists.mp (hs (by omega))
      have hlen : ((p.drop i).take unit).length = unit := by
        rw [length_take, length_drop]
        omega
      obtain ⟨b, hb, hpacked⟩ := packChunk_packed env hsome (by rw [hlen]; exact hunit)
      obtain ⟨s', hs', -⟩ := hpacked.session
      have hsome' : b.2.session.isSome = true := by simp [hs']
      obtain ⟨cs, c, hrun, hdata, hcs⟩ := ih b.2 (i + unit) (k - unit) (buf ++ b.1)
        (fun _ => hsome') (by omega) (by omega)
      refine ⟨⟨(p.drop i).take unit, b.1⟩ :: cs, c, ?_, ?_, framedFrom_cons hsome hpacked hcs⟩
      · have hk : ((k - unit : ℕ) : ℤ) = (k : ℤ) - unit := by omega
        rw [encodeFrom, if_pos (by omega), piece_natCast p i unit (by omega)]
        simp only [bind_eq_bind, bind_some, hb]
        rw [← hk, ← Nat.cast_add, hrun, flatMap_cons, append_assoc]
      · rw [flatMap_cons, hdata, ← drop_drop, take_append_drop]
    · rw [encodeFrom, if_neg (by omega)]
      by_cases hlast : 0 < k
      · obtain ⟨s, hsome⟩ := isSome_iff_exists.mp (hs hlast)
        have hlen : (p.drop i).length < 65536 := by
          rw [length_drop]
          omega
        obtain ⟨b, hb, hpacked⟩ := packChunk_packed env hsome hlen
        refine ⟨[⟨p.drop i, b.1⟩], b.2, ?_, ?_,
          framedFrom_cons hsome hpacked (framedFrom_nil env b.2)⟩
        · rw [if_pos (by omega), Int.toNat_natCast, sliceFrom, if_pos (by omega)]
          simp [hb, pure]
        · simp
      · refine ⟨[], a, ?_, ?_, framedFrom_nil env a⟩
        · rw [if_neg (by omega), flatMap_nil, append_nil]
        · rw [flatMap_nil, drop_eq_nil_of_le (by omega)]

/-! ## Whole payloads -/

@[simp] theorem unitSize_storeMss :
    unitSize env (a.storeMss mss) = (mss.toNat : ℤ) - env.overhead := rfl

theorem nextConnection_tcpMss : (nextConnection env a).tcpMss = a.tcpMss := by
  unfold nextConnection
  dsimp only
  split <;> rfl

theorem packAuthData_packed :
    ∃ s b, (authHead env a now).2.session = some s ∧
      packAuthData env a now (p.take (headSize p)) = some ((authHead env a now).1 ++ b.1, b.2) ∧
      Packed env (authHead env a now).2 s (p.take (headSize p)) b := by
  have hlen : (p.take (headSize p)).length < 65536 := by
    rw [length_take, headSize]
    omega
  obtain ⟨s, hs⟩ : ∃ s, (authHead env a now).2.session = some s := ⟨_, rfl⟩
  obtain ⟨b, hb, hpacked⟩ := packChunk_packed env hs hlen
  refine ⟨s, b, hs, ?_, hpacked⟩
  unfold packAuthData
  simp [hb, pure]

/-- Both ways into the loop: something fixed is written, and what is left goes through the loop with
the unit of the state. -/
theorem encode_eq_loop (a : AuthChainA) (now : ℕ) (p : Bytes) :
    ∃ (b : AuthChainA) (buf : Bytes) (i : ℕ), i + leftAfterHead a p = p.length ∧
      (0 < leftAfterHead a p → b.session.isSome = true) ∧
      encode env fuel a now p =
        encodeFrom env p (unitSize env a) fuel b i (leftAfterHead a p) buf ∧
      ∀ cs, FramedFrom env b cs → cs.flatMap Chunk.data = p.drop i →
        Framed env a now p (buf ++ cs.flatMap Chunk.wire) := by
  by_cases hhead : 0 < p.length ∧ a.hasSentHeader = false
  · obtain ⟨s, b, hs, hpack, hpacked⟩ := packAuthData_packed env a now p
    have hunit : unitSize env b.2 = unitSize env a := by
      unfold unitSize
      rw [hpacked.tcpMss, ← nextConnection_tcpMss env a]
      rfl
    have hsize : headSize p ≤ p.length := Nat.min_le_right _ _
    have hleft : leftAfterHead a p = p.length - headSize p := if_pos hhead
    obtain ⟨s', hs', -⟩ := hpacked.session
    refine ⟨b.2, (authHead env a now).1 ++ b.1, headSize p, by omega, ?_, ?_, ?_⟩
    · simp [hs']
    · simp [encode, hhead, hpack, hleft, Nat.cast_sub hsize, ← hunit]
    · intro cs hcs hdata
      have hheading : heading env a now p = authHead env a now := if_pos hhead
      refine ⟨⟨p.take (headSize p), b.1⟩ :: cs, ?_, ?_, ?_⟩
      · simp [hheading]
      · rw [flatMap_cons, hdata, take_append_drop]
      · rw [hheading]
        exact framedFrom_cons hs hpacked hcs
  · have hleft : leftAfterHead a p = p.length := if_neg hhead
    refine ⟨a, [], 0, by omega, ?_, ?_, ?_⟩
    · intro hpos
      apply a.session_of_sent
      by_contra hsent
      exact hhead ⟨by omega, Bool.eq_false_iff.mpr hsent⟩
    · simp [encode, hhead, hleft]
    · intro cs hcs hdata
      have hheading : heading env a now p = ([], a) := if_neg hhead
      refine ⟨cs, ?_, hdata, ?_⟩
      · rw [hheading]
      · rwa [hheading]

/-- `Encode` ends without a panic and frames the payload exactly when the server's `TcpMss` is above
the overhead, or equal to it with nothing left behind the header chunk. -/
theorem encode_framed_iff :
    (∃ fuel out b, encode env fuel (a.storeMss mss) now p = some (out, b) ∧
      Framed env (a.storeMss mss) now p out) ↔
    env.overhead < mss.toNat ∨ env.overhead = mss.toNat ∧ leftAfterHead a p = 0 := by
  have hleft : leftAfterHead (a.storeMss mss) p = leftAfterHead a p := rfl
  constructor
  · rintro ⟨fuel, out, c, hrun, -⟩
    obtain ⟨b, buf, i, -, -, heq, -⟩ := encode_eq_loop env fuel (a.storeMss mss) now p
    rw [unitSize_storeMss, hleft] at heq
    rcases Nat.lt_trichotomy env.overhead mss.toNat with hlt | heqv | hgt
    · exact .inl hlt
    · refine .inr ⟨heqv, Nat.eq_zero_of_not_pos fun hpos => ?_⟩
      have hzero : (mss.toNat : ℤ) - env.overhead = 0 := by omega
      rw [hzero, encodeFrom_of_zero env p fuel b i (by omega) buf, hrun] at heq
      cases heq
    · rw [encodeFrom_of_neg env p (by omega) fuel b i _ buf, hrun] at heq
      cases heq
  · intro hcond
    obtain ⟨b, buf, i, hi, hsome, heq, hframed⟩ :=
      encode_eq_loop env (p.length + 1) (a.storeMss mss) now p
    rw [unitSize_storeMss, hleft] at heq
    rw [hleft] at hi hsome
    rcases hcond with hlt | ⟨heqv, hzero⟩
    · have hmss := mss.toNat_lt
      have hunit : (mss.toNat : ℤ) - env.overhead = (mss.toNat - env.overhead : ℕ) := by omega
      have hpos : 0 < mss.toNat - env.overhead := by omega
      obtain ⟨cs, c, hrun, hdata, hcs⟩ := encodeFrom_framed env p hpos (by omega) (p.length + 1) b i
        (leftAfterHead a p) buf hsome hi (by omega)
      refine ⟨p.length + 1, _, c, ?_, hframed cs hcs hdata⟩
      rw [heq, hunit, hrun]
    · have hdrop : ([] : List Chunk).flatMap Chunk.data = p.drop i := by
        rw [flatMap_nil, drop_eq_nil_of_le (by omega)]
      refine ⟨p.length + 1, _, b, ?_, hframed [] (framedFrom_nil env b) hdrop⟩
      rw [heq, hzero, encodeFrom, if_neg (by omega), if_neg (by simp), flatMap_nil, append_nil]

/-! ## A server that announces no more than the overhead -/

/-- A hash for which no padding is drawn in front of two bytes. -/
def sampleHash : Octets 16 := ⟨[0, 0, 0, 122, 0, 0, 0, 0, 0, 0, 0, 0, 0, 0, 0, 0], rfl⟩

def sampleEnv : Env where
  iv := []
  key := []
  userKey := []
  uid := Octets.ofBytes 4 []
  salt := []
  overhead := 4
  hmac := fun _ _ => sampleHash
  rnd := authChainAGetRandLen
  base64 := id
  aes := fun _ _ => Octets.ofBytes 16 []
  rc4 := fun _ _ => 0
  entropy := fun _ => 0

def sampleState : AuthChainA :=
  (AuthChainA.new 1460 0 none).setSession true ⟨sampleHash, sampleHash, ⟨fun _ => 0, 0, 0⟩⟩

/-- After it a payload of one byte is never done. -/
theorem encode_loops_after_decode : ¬ ∀ (env : Env) (a b : AuthChainA) (received out : Bytes)
    (n now : ℕ) (p : Bytes), decode env a received = some (.ok (out, n), b) →
      ∃ fuel wire c, encode env fuel b now p = some (wire, c) ∧ Framed env b now p wire := by
  intro hall
  obtain ⟨b, hdec, hmss, hsent⟩ : ∃ b, decode sampleEnv sampleState [2, 0, 4, 0, 0, 0] =
      some (.ok ([], 6), b) ∧ b.tcpMss = 4 ∧ b.hasSentHeader = true := ⟨_, rfl, rfl, rfl⟩
  obtain ⟨fuel, wire, c, hrun, -⟩ := hall sampleEnv sampleState b _ _ _ 0 [1] hdec
  obtain ⟨d, buf, i, -, -, heq, -⟩ := encode_eq_loop sampleEnv fuel b 0 [1]
  have hleft : leftAfterHead b [1] = 1 := by
    rw [leftAfterHead, hsent]
    rfl
  have hunit : unitSize sampleEnv b = 0 := by
    rw [unitSize, hmss]
    rfl
  rw [hunit, hleft, encodeFrom_of_zero sampleEnv [1] fuel d i (by omega) buf, hrun] at heq
  cases heq

end Outbound.Shadowsocksr
