import Outbound.Lib.Aead
import Outbound.Lib.Counter
import Outbound.Lib.Fragments
import Outbound.Lib.Slice

/-! Streams of sealed chunks: the length of each text is sealed in front of the text, and every
sealing takes the next value of a counter as its nonce. A loop that seals window by window into a
buffer of the right size fills it with such a stream. -/
namespace Outbound.Lib.Aead

open List Function

variable (cipher : Aead)

/-- One chunk: two sealed bytes of length, and the sealed text. -/
def sealPair (nonce text : Bytes) : Bytes :=
  cipher.sealText nonce (beBytes 2 text.length) ++ cipher.sealText (incLE nonce) text

def sealPairs : Bytes → List Bytes → Bytes
  | _, [] => []
  | nonce, t :: ts => cipher.sealPair nonce t ++ sealPairs (incLE^[2] nonce) ts

def pairOverhead : ℕ := 2 + cipher.overhead + cipher.overhead

variable (nonce : Bytes)

theorem length_sealPair (text : Bytes) :
    (cipher.sealPair nonce text).length = text.length + cipher.pairOverhead := by
  rw [sealPair, length_append, cipher.length_seal, cipher.length_seal, length_beBytes, pairOverhead]
  omega

theorem length_sealPairs (ts : List Bytes) :
    (cipher.sealPairs nonce ts).length = ts.flatten.length + ts.length * cipher.pairOverhead := by
  induction ts generalizing nonce with
  | nil => simp [sealPairs]
  | cons t ts ih =>
    rw [sealPairs, length_append, length_sealPair, ih, flatten_cons, length_append,
      length_cons, Nat.succ_mul]
    omega

theorem sealPairs_append (ts us : List Bytes) :
    cipher.sealPairs nonce (ts ++ us) =
      cipher.sealPairs nonce ts ++ cipher.sealPairs (incLE^[2 * ts.length] nonce) us := by
  induction ts generalizing nonce with
  | nil => rfl
  | cons t ts ih =>
    simp [cons_append, sealPairs, ih, append_assoc, length_cons, Nat.mul_succ, iterate_add_apply]

/-- The sealed length and the sealed text behind it are the chunk of the text. -/
theorem putAt_sealPair (front : Bytes) {tail text : Bytes} {l : ℕ} (hl : text.length = l)
    (hroom : l + cipher.pairOverhead ≤ tail.length) {β : Type*} (f : Bytes → β) :
    ((putAt (front ++ tail) front.length (cipher.sealText nonce (beBytes 2 l))).bind fun buf =>
      (putAt buf (front.length + (2 + cipher.overhead))
        (cipher.sealText (incLE nonce) text)).map f) =
      some (f (front ++ (cipher.sealPair nonce text ++ tail.drop (l + cipher.pairOverhead)))) := by
  have hlen : (cipher.sealText nonce (beBytes 2 l)).length = 2 + cipher.overhead := by
    rw [cipher.length_seal, length_beBytes]
  have htext : (cipher.sealText (incLE nonce) text).length = l + cipher.overhead := by
    rw [cipher.length_seal, hl]
  have hoff : front.length + (2 + cipher.overhead) =
      (front ++ cipher.sealText nonce (beBytes 2 l)).length := by
    rw [length_append, hlen]
  have hrest : 2 + cipher.overhead + (l + cipher.overhead) = l + cipher.pairOverhead := by
    rw [pairOverhead]
    omega
  rw [putAt_front front _ _ (by omega), Option.bind_some, hlen, ← append_assoc, hoff, putAt_front,
    htext, drop_drop, hrest]
  · simp [sealPair, hl]
  · rw [htext, length_drop]
    omega

/-- A stream of chunks that ends inside the chunk of some text. -/
def Truncated (cut : Bytes) : Prop :=
  cut = [] ∨ ∃ t, t.length < 2 ^ 16 ∧ cut <+: cipher.sealPair nonce t ∧
    cut.length < (cipher.sealPair nonce t).length

/-- A front of a stream of chunks is the chunks of the first texts and a truncated chunk. -/
theorem exists_cut {nonce front : Bytes} {ts : List Bytes} (hts : ∀ t ∈ ts, t.length < 2 ^ 16)
    (h : front <+: cipher.sealPairs nonce ts) :
    ∃ done todo cut, ts = done ++ todo ∧ front = cipher.sealPairs nonce done ++ cut ∧
      cipher.Truncated (incLE^[2 * done.length] nonce) cut := by
  induction ts generalizing nonce front with
  | nil => exact ⟨[], [], [], rfl, prefix_nil.mp h, .inl rfl⟩
  | cons t ts ih =>
    by_cases hlt : front.length < (cipher.sealPair nonce t).length
    · refine ⟨[], t :: ts, front, rfl, rfl, .inr ⟨t, hts t (by simp), ?_, hlt⟩⟩
      exact prefix_of_prefix_length_le h (prefix_append _ _) hlt.le
    · obtain ⟨rest, hrest⟩ := h
      obtain ⟨front', rfl, htail⟩ := exists_append_of_length_le hrest (by omega)
      obtain ⟨done, todo, cut, hsplit, hfront, hcut⟩ :=
        ih (fun t' ht' => hts t' (by simp [ht'])) ⟨rest, htail.symm⟩
      refine ⟨t :: done, todo, cut, by rw [hsplit]; rfl, ?_, ?_⟩
      · simp [sealPairs, hfront]
      · rwa [length_cons, Nat.mul_succ, iterate_add_apply]

/-- A loop that seals into a buffer: the buffer, how far it is filled, the nonce, and the nonces
used. -/
structure Sealing where
  buf : Bytes
  offset : ℕ
  nonce : Bytes
  used : List Bytes

/-- With the chunks of `ts` behind `head`, after the sealings with `used`. -/
def Sealing.behind (head nonce : Bytes) (ts : List Bytes) (size : ℕ) (used : List Bytes) : Sealing :=
  ⟨head ++ cipher.sealPairs nonce ts, size, incLE^[2 * ts.length] nonce,
    used ++ counterRun nonce (2 * ts.length)⟩

/-- The round of a loop that puts the chunk of a window of `b` behind what is filled. -/
def SealsChunk (b : Bytes) (round : ℕ → ℕ → Option Sealing → Option Sealing) : Prop :=
  ∀ (i l : ℕ) (front tail nonce : Bytes) (used : List Bytes), ((b.drop i).take l).length = l →
    l + cipher.pairOverhead ≤ tail.length →
    round i l (some ⟨front ++ tail, front.length, nonce, used⟩) =
      some ⟨front ++ (cipher.sealPair nonce ((b.drop i).take l) ++
          tail.drop (l + cipher.pairOverhead)),
        (front ++ cipher.sealPair nonce ((b.drop i).take l)).length, incLE^[2] nonce,
        used ++ [nonce, incLE nonce]⟩

variable {cipher} {b : Bytes} {round : ℕ → ℕ → Option Sealing → Option Sealing}

theorem foldl_sealsChunk (hround : cipher.SealsChunk b round) {k : ℕ} (buf nonce : Bytes)
    (hbuf : b.length + chunkCount k b.length * cipher.pairOverhead ≤ buf.length)
    (hk : 0 < k) (n : ℕ) (hn : n ≤ chunkCount k b.length) :
    (range n).foldl (fun st j => round (j * k) (min k (b.length - j * k)) st)
        (some ⟨buf, 0, nonce, []⟩) =
      some ⟨cipher.sealPairs nonce ((chunks k b).take n) ++
          buf.drop (cipher.sealPairs nonce ((chunks k b).take n)).length,
        (cipher.sealPairs nonce ((chunks k b).take n)).length, incLE^[2 * n] nonce,
        counterRun nonce (2 * n)⟩ := by
  induction n with
  | zero => simp [sealPairs, counterRun]
  | succ n ih =>
    have htake : (chunks k b).take (n + 1) = (chunks k b).take n ++ [chunk k b n] := by
      rw [take_add_one, chunks, getElem?_map, getElem?_range hn]
      rfl
    have hcount : ((chunks k b).take n).length = n := by
      rw [length_take, chunks, length_map, length_range]
      omega
    have hnext : cipher.sealPairs nonce ((chunks k b).take (n + 1)) =
        cipher.sealPairs nonce ((chunks k b).take n) ++
          cipher.sealPair (incLE^[2 * n] nonce) (chunk k b n) := by
      simp [htake, cipher.sealPairs_append, hcount, sealPairs]
    -- What is sealed after this round is a front of what will be sealed in the end.
    have hroom : (cipher.sealPairs nonce ((chunks k b).take (n + 1))).length ≤ buf.length := by
      have hall : (cipher.sealPairs nonce (chunks k b)).length =
          b.length + chunkCount k b.length * cipher.pairOverhead := by
        simp [cipher.length_sealPairs, chunks, flatten_chunks hk]
      rw [← hall, ← take_append_drop (n + 1) (chunks k b), cipher.sealPairs_append,
        length_append] at hbuf
      omega
    rw [hnext, length_append, cipher.length_sealPair] at hroom
    rw [range_succ, foldl_append, ih (by omega), foldl_cons, foldl_nil, hround]
    · rw [take_window, hnext, append_assoc, drop_drop, Nat.mul_succ, counterRun_add,
        Nat.add_comm (2 * n) 2, iterate_add_apply, ← length_chunk,
        ← cipher.length_sealPair (incLE^[2 * n] nonce), ← length_append]
      rfl
    · simp
    · rw [length_drop, ← length_chunk]
      omega

theorem cutLoop_sealsChunk (hround : cipher.SealsChunk b round) {k : ℕ} (hk : 0 < k)
    {buf : Bytes} (nonce : Bytes)
    (hbuf : buf.length = b.length + chunkCount k b.length * cipher.pairOverhead) :
    cutLoop k b.length round b.length 0 (some ⟨buf, 0, nonce, []⟩) =
      some ⟨cipher.sealPairs nonce (chunks k b), buf.length, incLE^[2 * (chunks k b).length] nonce,
        counterRun nonce (2 * (chunks k b).length)⟩ := by
  have hlength : (chunks k b).length = chunkCount k b.length := by
    simp [chunks]
  have hall : (cipher.sealPairs nonce (chunks k b)).length = buf.length := by
    rw [cipher.length_sealPairs, hbuf, hlength, chunks, flatten_chunks hk]
  have hloop := cutLoop_eq_foldl hk b.length round b.length 0 (some ⟨buf, 0, nonce, []⟩) (by omega)
    (by omega)
  rwa [Nat.zero_mul, Nat.min_zero, Nat.sub_zero, ← range_eq_range',
    foldl_sealsChunk hround buf nonce hbuf.ge hk _ le_rfl, ← hlength, take_length, hall,
    drop_length, append_nil] at hloop

end Outbound.Lib.Aead
