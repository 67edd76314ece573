import Outbound.Io
import Outbound.Lib.Aead

/-! The chunk stream of VMess: masked sizes, padding and counted nonces on both ends. -/
namespace Outbound.Vmess

open Lib List UInt16

def maxChunkSize : ℕ := 2 ^ 14

def optionChunkLengthMasking : UInt8 := 4

def optionGlobalPadding : UInt8 := 8

def containOption (options option : UInt8) : Bool := options &&& option == option

/-- What a value of the SHAKE stream is drawn for. -/
inductive Draw where
  | padding
  | mask
deriving DecidableEq

/-- The size parser, the padding generator and the nonce generator of one direction. `shake` is the
stream of 16-bit values of the seeded hash, and `drawn` says what was taken from it so far. -/
structure Codecs where
  masking : Bool
  padding : Bool
  shake : ℕ → UInt16
  drawn : List Draw
  nonce : Bytes
  nonceSize : ℕ
  count : UInt16

/-- Without masking there is no SHAKE stream, and no padding either. -/
def initChunkCodecs (shake : Bytes → ℕ → UInt16) (options : UInt8) (iv : Octets 16)
    (nonceSize : ℕ) : Codecs where
  masking := containOption options optionChunkLengthMasking
  padding := containOption options optionChunkLengthMasking &&
    containOption options optionGlobalPadding
  shake := shake iv.1
  drawn := []
  nonce := iv.1
  nonceSize := nonceSize
  count := 0

namespace Codecs

variable (c : Codecs)

def next (d : Draw) : UInt16 × Codecs :=
  (c.shake c.drawn.length, { c with drawn := c.drawn ++ [d] })

def nextPaddingLen : UInt16 × Codecs :=
  if c.padding then ((c.next .padding).1 % 64, (c.next .padding).2) else (0, c)

def maxPaddingLen : UInt16 := if c.padding then 64 else 0

def sizeBytes (_ : Codecs) : ℕ := 2

def encode (size : UInt16) : Bytes × Codecs :=
  if c.masking then (beBytes 2 ((c.next .mask).1 ^^^ size).toNat, (c.next .mask).2)
  else (beBytes 2 size.toNat, c)

def decode (b : Bytes) : UInt16 × Codecs :=
  if c.masking then ((c.next .mask).1 ^^^ .ofNat (beNat b), (c.next .mask).2)
  else (.ofNat (beNat b), c)

/-- `GenerateChunkNonce`: the counter in the first two bytes, the IV behind it. -/
def nextNonce : Bytes × Codecs :=
  (beBytes 2 c.count.toNat ++ (c.nonce.drop 2).take (c.nonceSize - 2),
    { c with count := c.count + 1 })

/-- The codecs after a chunk: a padding length and a mask are drawn where the options have them,
and a nonce is used. -/
def advance : Codecs where
  masking := c.masking
  padding := c.padding
  shake := c.shake
  drawn := c.drawn ++ (if c.padding then [.padding] else []) ++ (if c.masking then [.mask] else [])
  nonce := c.nonce
  nonceSize := c.nonceSize
  count := c.count + 1

end Codecs

def sealChunk (cipher : Aead) (c : Codecs) (b : Bytes) (noise : ℕ → UInt8) : Bytes × Codecs :=
  let paddingSize := c.nextPaddingLen
  let encryptedSize := b.length + cipher.overhead
  let size := paddingSize.2.encode (.ofNat (encryptedSize + paddingSize.1.toNat))
  let nonce := size.2.nextNonce
  (size.1 ++ cipher.sealText nonce.1 b ++ (range paddingSize.1.toNat).map noise, nonce.2)

structure Size where
  size : UInt16
  padding : UInt16

def readSize (c : Codecs) (s : Source UInt8) : Except Error Size × Codecs × Source UInt8 :=
  let sizeBuf := Io.readFull s 2
  match sizeBuf.err with
  | some err => (.error err, c, sizeBuf.stream)
  | none =>
    let padding := c.nextPaddingLen
    let size := padding.2.decode sizeBuf.data
    (.ok ⟨size.1, padding.1⟩, size.2, sizeBuf.stream)

/-- The rest of `readChunk` once the size is known. The chunk that holds no text is the end of the
stream; its text is not read and its nonce is not used. -/
def readSealed (cipher : Aead) (c : Codecs) (s : Source UInt8) (z : Size) :
    Except Error Bytes × Codecs × Source UInt8 :=
  if z.size = ofNat cipher.overhead + z.padding then (.error (.sentinel .eof), c, s)
  else if z.size.toNat < z.padding.toNat then
    (.error (.errorf
      s!"vmess: chunk size {z.size.toNat} is smaller than its padding {z.padding.toNat}"), c, s)
  else
    let frame := Io.readFull s z.size.toNat
    match frame.err with
    | some err => (.error err, c, frame.stream)
    | none =>
      let nonce := c.nextNonce
      match cipher.openText nonce.1 (frame.data.take (frame.data.length - z.padding.toNat)) with
      | none => (.error (.errorf "cipher: message authentication failed"), nonce.2, frame.stream)
      | some plain => (.ok plain, nonce.2, frame.stream)

def readChunk (cipher : Aead) (c : Codecs) (s : Source UInt8) :
    Except Error Bytes × Codecs × Source UInt8 :=
  match readSize c s with
  | (.error err, c, s) => (.error err, c, s)
  | (.ok z, c, s) => readSealed cipher c s z

namespace Codecs

variable (c : Codecs) (size : UInt16)

theorem toNat_nextPaddingLen_le : c.nextPaddingLen.1.toNat ≤ c.maxPaddingLen.toNat := by
  unfold nextPaddingLen maxPaddingLen
  split_ifs
  · simpa using Nat.le_of_lt (Nat.mod_lt _ (by decide))
  · exact Nat.le_refl 0

theorem length_encode : (c.encode size).1.length = 2 := by
  unfold encode
  split_ifs <;> exact length_beBytes _ _

theorem decode_encode : c.decode (c.encode size).1 = (size, (c.encode size).2) := by
  have hnat (x : UInt16) : beNat (beBytes 2 x.toNat) = x.toNat := beNat_beBytes_of_lt x.toNat_lt
  unfold decode encode
  split_ifs
  · rw [hnat, UInt16.ofNat_toNat, ← UInt16.xor_assoc, UInt16.xor_self, UInt16.zero_xor]
  · simp [hnat]

theorem nextNonce_encode_nextPaddingLen :
    (c.nextPaddingLen.2.encode size).2.nextNonce.2 = c.advance := by
  unfold nextPaddingLen encode nextNonce advance next
  cases hp : c.padding <;> cases hm : c.masking <;> simp [hp, hm]

end Codecs

@[simp] theorem codecs_sealChunk (cipher : Aead) (c : Codecs) (b : Bytes) (noise : ℕ → UInt8) :
    (sealChunk cipher c b noise).2 = c.advance :=
  c.nextNonce_encode_nextPaddingLen _

/-- The text of a chunk, its tag and the longest padding fit the 16-bit size. -/
def FitsSize (cipher : Aead) (c : Codecs) (b : Bytes) : Prop :=
  b.length + cipher.overhead + c.maxPaddingLen.toNat ≤ 0xffff

instance (cipher : Aead) (c : Codecs) (b : Bytes) : Decidable (FitsSize cipher c b) :=
  inferInstanceAs (Decidable (_ ≤ _))

variable {cipher : Aead} {c : Codecs} {b : Bytes}

theorem toNat_size (h : FitsSize cipher c b) :
    (ofNat (b.length + cipher.overhead + c.nextPaddingLen.1.toNat)).toNat =
      b.length + cipher.overhead + c.nextPaddingLen.1.toNat := by
  have hpad := c.toNat_nextPaddingLen_le
  unfold FitsSize at h
  exact Nat.mod_eq_of_lt (by omega)

variable {s : Source UInt8} {noise : ℕ → UInt8} {rest : Bytes}

theorem readSize_sealChunk (hs : s.rest = (sealChunk cipher c b noise).1 ++ rest) :
    ∃ s', readSize c s = (.ok ⟨.ofNat (b.length + cipher.overhead + c.nextPaddingLen.1.toNat),
        c.nextPaddingLen.1⟩,
        (c.nextPaddingLen.2.encode
          (.ofNat (b.length + cipher.overhead + c.nextPaddingLen.1.toNat))).2, s') ∧
      s'.rest = cipher.sealText (c.nextPaddingLen.2.encode
          (.ofNat (b.length + cipher.overhead + c.nextPaddingLen.1.toNat))).2.nextNonce.1 b ++
        ((range c.nextPaddingLen.1.toNat).map noise ++ rest) := by
  simp only [sealChunk, append_assoc] at hs
  obtain ⟨s', hread, hrest⟩ := Io.readFull_append (Codecs.length_encode _ _) hs
  refine ⟨s', ?_, hrest⟩
  simp only [readSize, hread, Codecs.decode_encode]

theorem readChunk_sealChunk (hb : b ≠ []) (hfits : FitsSize cipher c b)
    (hs : s.rest = (sealChunk cipher c b noise).1 ++ rest) :
    ∃ s', readChunk cipher c s = (.ok b, c.advance, s') ∧ s'.rest = rest := by
  obtain ⟨s₁, hsize, hrest₁⟩ := readSize_sealChunk hs
  have hnat := toNat_size hfits
  have hpos := length_pos_of_ne_nil hb
  set z : UInt16 := .ofNat (b.length + cipher.overhead + c.nextPaddingLen.1.toNat) with hz
  set nonce := (c.nextPaddingLen.2.encode z).2.nextNonce with hnonce
  have hlen : (cipher.sealText nonce.1 b ++
      (range c.nextPaddingLen.1.toNat).map noise).length = z.toNat := by
    simp [hnat, cipher.length_seal]
  rw [← append_assoc] at hrest₁
  obtain ⟨s₂, hframe, hrest₂⟩ := Io.readFull_append hlen hrest₁
  have hnotEnd : ¬ z = ofNat cipher.overhead + c.nextPaddingLen.1 := by
    intro h
    have h' := congrArg toNat h
    rw [hnat, UInt16.toNat_add, UInt16.toNat_ofNat', Nat.mod_add_mod] at h'
    omega
  have hcut : (cipher.sealText nonce.1 b ++
      (range c.nextPaddingLen.1.toNat).map noise).take
        (z.toNat - c.nextPaddingLen.1.toNat) = cipher.sealText nonce.1 b := by
    apply take_left'
    rw [cipher.length_seal]
    omega
  refine ⟨s₂, ?_, hrest₂⟩
  simp only [readChunk, hsize, readSealed]
  rw [if_neg hnotEnd, if_neg (by omega)]
  simp only [hframe, hlen]
  rw [hcut, ← hnonce, cipher.open_seal]
  simp only [hnonce, Codecs.nextNonce_encode_nextPaddingLen]

theorem readChunk_sealChunk_nil (hs : s.rest = (sealChunk cipher c [] noise).1 ++ rest) :
    (readChunk cipher c s).1 = .error (.sentinel .eof) := by
  obtain ⟨s₁, hsize, _⟩ := readSize_sealChunk hs
  simp only [readChunk, hsize, readSealed]
  simp

theorem readChunk_end (cipher : Aead) (c : Codecs) (hs : s.rest = []) :
    ∃ s', readChunk cipher c s = (.error (.sentinel .eof), c, s') ∧ s'.rest = [] := by
  obtain ⟨s', hread, hrest⟩ := Io.readFull_nil (k := 2) (by decide) hs
  refine ⟨s', ?_, hrest⟩
  simp only [readChunk, readSize, hread]

end Outbound.Vmess
