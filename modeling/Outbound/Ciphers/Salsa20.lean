import Outbound.Lib.Keystream
import Outbound.Lib.Memory
import Outbound.Lib.Run

/-! The Salsa20 stream: an adapter that pads its input to the start of a block of 64 bytes. -/
namespace Outbound.Ciphers

open Lib Memory List Keystream

structure Slice where
  off : ℕ
  len : ℕ
  cap : ℕ
  len_le_cap : len ≤ cap

structure SalsaStreamCipher where
  nonce : Octets 8
  key : Octets 32
  counter : ℕ

def newSalsa20Stream (key iv : Bytes) : SalsaStreamCipher :=
  ⟨Octets.ofBytes 8 iv, Octets.ofBytes 32 key, 0⟩

/-- The keystream of a nonce and a key, from its first block on. -/
abbrev Salsa := Octets 8 → Octets 32 → ℕ → UInt8

/-- `salsa.XORKeyStream` on a buffer, from the given block on. -/
def salsaXORKeyStream (salsa : Salsa) (nonce : Octets 8) (block : ℕ) (key : Octets 32)
    (buf : Bytes) : Bytes :=
  xorFrom (salsa nonce key) (64 * block) buf

/-- One call: the slices, the memory they lie in, and what stands in a buffer from the pool. -/
structure XORCall where
  dst : Slice
  src : Slice
  fits : src.len ≤ dst.len
  memory : ℕ → UInt8
  pooled : ℕ → UInt8

def SalsaStreamCipher.padLen (c : SalsaStreamCipher) : ℕ := c.counter % 64

/-- The padding is made in the destination where that has the capacity for it, and in a buffer from
the pool otherwise. -/
def SalsaStreamCipher.xorKeyStream (salsa : Salsa) (c : SalsaStreamCipher) (call : XORCall) :
    (ℕ → UInt8) × SalsaStreamCipher :=
  let dst := call.dst
  let src := load call.memory call.src.off call.src.len
  let dataSize := call.src.len + c.padLen
  let block := c.counter / 64
  let memory :=
    if dataSize ≤ dst.cap then
      -- `buf` is `dst[:dataSize]`: the copies go through the memory, each from what the one before left
      let copied := store call.memory (dst.off + c.padLen) src
      let xored := store copied dst.off
        (salsaXORKeyStream salsa c.nonce block c.key (load copied dst.off dataSize))
      store xored dst.off ((load xored (dst.off + c.padLen) call.src.len).take dst.len)
    else
      let buf := load (store call.pooled c.padLen src) 0 dataSize
      let xored := salsaXORKeyStream salsa c.nonce block c.key buf
      store call.memory dst.off ((xored.drop c.padLen).take dst.len)
  (memory, { c with counter := c.counter + call.src.len })

namespace XORCall

variable (call : XORCall)

def input : Bytes := load call.memory call.src.off call.src.len

def output (after : ℕ → UInt8) : Bytes := load after call.dst.off call.src.len

/-- No byte outside `dst[:len(src)]` has another value. -/
def Framed (after : ℕ → UInt8) : Prop :=
  ∀ a, a < call.dst.off ∨ call.dst.off + call.src.len ≤ a → after a = call.memory a

end XORCall

/-! ## One call -/

variable (off n : ℕ) (salsa : Salsa) (c : SalsaStreamCipher) (call : XORCall)

theorem drop_salsaXORKeyStream {front : Bytes} (hfront : front.length = c.padLen) (src : Bytes) :
    (salsaXORKeyStream salsa c.nonce (c.counter / 64) c.key (front ++ src)).drop c.padLen =
      xorFrom (salsa c.nonce c.key) c.counter src := by
  have hpos : 64 * (c.counter / 64) + front.length = c.counter := by
    rw [hfront]
    exact Nat.div_add_mod c.counter 64
  rw [salsaXORKeyStream, xorFrom_append, hpos]
  apply drop_left'
  rw [length_xorFrom, hfront]

theorem load_copied (m : ℕ → UInt8) (off : ℕ) (src : Bytes) {n : ℕ} (hn : src.length = n) :
    load (store m (off + c.padLen) src) off (n + c.padLen) =
      load (store m (off + c.padLen) src) off c.padLen ++ src := by
  rw [Nat.add_comm n, load_add, ← hn, load_store_self]

/-- The last thing a call does is to write the encrypted source to the destination. Without padding,
or with a buffer from the pool, it is the only place it writes to. -/
theorem xorKeyStream_eq_store : ∃ m, (c.xorKeyStream salsa call).1 =
      store m call.dst.off (xorFrom (salsa c.nonce c.key) c.counter call.input) ∧
    (c.padLen = 0 ∨ call.dst.cap < call.src.len + c.padLen → call.Framed m) := by
  have hfits := call.fits
  have hsrc : call.input.length = call.src.len := length_load _ _ _
  set out := xorFrom (salsa c.nonce c.key) c.counter call.input with hout
  have hlen : out.length = call.src.len := by rw [hout, length_xorFrom, hsrc]
  have htake : out.take call.dst.len = out := take_of_length_le (by omega)
  by_cases hcap : call.src.len + c.padLen ≤ call.dst.cap
  · set copied := store call.memory (call.dst.off + c.padLen) call.input with hcopied
    set buf := salsaXORKeyStream salsa c.nonce (c.counter / 64) c.key
      (load copied call.dst.off (call.src.len + c.padLen)) with hbuf
    have hbuflen : buf.length = call.src.len + c.padLen := by
      rw [hbuf, salsaXORKeyStream, length_xorFrom, length_load]
    have hdrop : buf.drop c.padLen = out := by
      rw [hbuf, hcopied, load_copied c _ _ _ hsrc]
      exact drop_salsaXORKeyStream salsa c (length_load _ _ _) _
    have hback : load (store copied call.dst.off buf) (call.dst.off + c.padLen) call.src.len =
        out := by
      rw [load_store _ _ (by omega), hdrop, take_of_length_le (by omega)]
    refine ⟨store copied call.dst.off buf, ?_, fun hcond => ?_⟩
    · unfold SalsaStreamCipher.xorKeyStream
      dsimp only
      rw [if_pos hcap]
      change store (store copied call.dst.off buf) call.dst.off ((load
        (store copied call.dst.off buf) (call.dst.off + c.padLen) call.src.len).take
          call.dst.len) = _
      rw [hback, htake]
    · intro a ha
      rw [store_of_outside _ _ (by omega), hcopied, store_of_outside _ _ (by omega)]
  · refine ⟨call.memory, ?_, fun _ a _ => rfl⟩
    unfold SalsaStreamCipher.xorKeyStream
    dsimp only
    have hdrop := drop_salsaXORKeyStream salsa c
      (length_load (store call.pooled (0 + c.padLen) call.input) 0 c.padLen) call.input
    rw [← load_copied c _ _ _ hsrc, Nat.zero_add, ← hout] at hdrop
    rw [if_neg hcap]
    change store call.memory call.dst.off ((drop c.padLen (salsaXORKeyStream salsa c.nonce
      (c.counter / 64) c.key (load (store call.pooled c.padLen call.input) 0
        (call.src.len + c.padLen)))).take call.dst.len) = _
    rw [hdrop, htake]

theorem length_xorFrom_input : (xorFrom (salsa c.nonce c.key) c.counter call.input).length =
    call.src.len := by
  rw [length_xorFrom]
  exact length_load _ _ _

theorem output_xorKeyStream : call.output (c.xorKeyStream salsa call).1 =
    xorFrom (salsa c.nonce c.key) c.counter call.input := by
  obtain ⟨m, hm, -⟩ := xorKeyStream_eq_store salsa c call
  rw [XORCall.output, hm, ← length_xorFrom_input salsa c call, load_store_self]

theorem framed_xorKeyStream (h : c.padLen = 0 ∨ call.dst.cap < call.src.len + c.padLen) :
    call.Framed (c.xorKeyStream salsa call).1 := by
  obtain ⟨m, hm, hframed⟩ := xorKeyStream_eq_store salsa c call
  intro a ha
  have hlen := length_xorFrom_input salsa c call
  rw [hm, store_of_outside _ _ (by omega)]
  exact hframed h a ha

/-! ## Runs -/

/-- The room a run of calls leaves for the padding: at every call there is none to make, or the
destination has no capacity for it. -/
def NoRoomToPad : ℕ → List (Slice × Slice) → Prop
  | _, [] => True
  | counter, (dst, src) :: calls =>
    (counter % 64 = 0 ∨ dst.cap < src.len + counter % 64) ∧ NoRoomToPad (counter + src.len) calls

def XORCall.slices : Slice × Slice := (call.dst, call.src)

/-- The outputs of a run are its inputs combined with the keystream from its start, and every call
keeps to its destination. -/
def Adapts (calls : List XORCall) : Prop :=
  (calls.zip (Run.answers (SalsaStreamCipher.xorKeyStream salsa) c calls)).flatMap
      (fun r => r.1.output r.2) =
    xorFrom (salsa c.nonce c.key) c.counter (calls.flatMap XORCall.input) ∧
  ∀ r ∈ calls.zip (Run.answers (SalsaStreamCipher.xorKeyStream salsa) c calls), r.1.Framed r.2

theorem adapts_nil : Adapts salsa c [] :=
  ⟨rfl, fun _ hr => absurd hr not_mem_nil⟩

theorem adapts_cons (calls : List XORCall) : Adapts salsa c (call :: calls) ↔
    call.Framed (c.xorKeyStream salsa call).1 ∧
      Adapts salsa (c.xorKeyStream salsa call).2 calls := by
  have hlen : call.input.length = call.src.len := length_load _ _ _
  have hsplit : xorFrom (salsa c.nonce c.key) c.counter
        ((call :: calls).flatMap XORCall.input) =
      call.output (c.xorKeyStream salsa call).1 ++
        xorFrom (salsa c.nonce c.key) (c.counter + call.src.len)
          (calls.flatMap XORCall.input) := by
    simp [xorFrom_append, hlen, output_xorKeyStream]
  unfold Adapts
  rw [hsplit, Run.answers, zip_cons_cons, flatMap_cons, append_cancel_left_eq, forall_mem_cons]
  exact and_left_comm

variable {calls : List XORCall}

theorem adapts_of_noRoomToPad
    (h : NoRoomToPad c.counter (calls.map XORCall.slices)) : Adapts salsa c calls := by
  induction calls generalizing c with
  | nil => exact adapts_nil salsa c
  | cons call calls ih =>
    rw [adapts_cons]
    exact ⟨framed_xorKeyStream salsa c call h.1, ih _ h.2⟩

/-! ## A memory of zeros and a keystream of ones -/

def ones : Salsa := fun _ _ _ => 1

def XORCall.blank : XORCall :=
  { call with memory := fun _ => 0, pooled := fun _ => 0 }

theorem load_zeros : load (fun _ => (0 : UInt8)) off n = replicate n 0 := by
  simp [load]

theorem store_zeros : store (fun _ => (0 : UInt8)) off (replicate n 0) = fun _ => 0 := by
  funext a
  unfold store
  rw [getElem?_replicate]
  split_ifs <;> rfl

theorem xorFrom_ones (pos n : ℕ) : xorFrom (fun _ => 1) pos (replicate n 0) = replicate n 1 := by
  induction n generalizing pos with
  | zero => rfl
  | succ n ih =>
    simp [replicate_succ, xorFrom, ih]

theorem xorKeyStream_blank (hpad : 0 < c.padLen) (hcap : call.src.len + c.padLen ≤ call.dst.cap) :
    (c.xorKeyStream ones call.blank).1 (call.dst.off + call.src.len) = 1 := by
  have hlt : call.src.len < (replicate (call.src.len + c.padLen) (1 : UInt8)).length := by
    rw [length_replicate]
    omega
  have hblank : call.blank.src.len + c.padLen ≤ call.blank.dst.cap := hcap
  unfold SalsaStreamCipher.xorKeyStream
  dsimp only
  rw [if_pos hblank]
  change store (store (store (fun _ => 0) _ (load (fun _ => 0) _ _)) _ (xorFrom
    (fun _ => 1) _ (load (store (fun _ => 0) _ (load (fun _ => 0) _ _)) _ _))) _ _ _ = _
  rw [load_zeros, store_zeros, load_zeros, xorFrom_ones, store_of_outside]
  · exact (store_add _ _ hlt).trans (getElem_replicate _)
  · right
    rw [length_take, length_load]
    change call.dst.off + min call.dst.len call.src.len ≤ call.dst.off + call.src.len
    omega

theorem noRoomToPad_of_adapts (h : Adapts ones c (calls.map XORCall.blank)) :
    NoRoomToPad c.counter (calls.map XORCall.slices) := by
  induction calls generalizing c with
  | nil => trivial
  | cons call calls ih =>
    rw [map_cons, adapts_cons] at h
    refine ⟨?_, ih _ h.2⟩
    by_contra hroom
    rw [not_or] at hroom
    have hpad : 0 < c.padLen := Nat.pos_of_ne_zero hroom.1
    have hcap : call.src.len + c.padLen ≤ call.dst.cap := Nat.le_of_not_lt hroom.2
    have hkept : (c.xorKeyStream ones call.blank).1 (call.dst.off + call.src.len) = 0 :=
      h.1 _ (.inr (Nat.le_refl _))
    rw [xorKeyStream_blank c call hpad hcap] at hkept
    cases hkept

/-- The slices of a run of calls are used as they should be, whatever stands in the memory and
whatever the keystream, exactly when no call has both padding to make and the capacity for it. -/
theorem adapts_iff (key iv : Bytes) (calls : List XORCall) :
    (∀ salsa calls', calls'.map XORCall.slices = calls.map XORCall.slices →
      Adapts salsa (newSalsa20Stream key iv) calls') ↔
    NoRoomToPad 0 (calls.map XORCall.slices) := by
  constructor
  · intro h
    apply noRoomToPad_of_adapts (newSalsa20Stream key iv)
    apply h
    rw [map_map]
    rfl
  · intro h salsa calls' hslices
    apply adapts_of_noRoomToPad salsa (newSalsa20Stream key iv)
    rwa [hslices]

def sampleCall (cap : ℕ) (h : 1 ≤ cap) : XORCall :=
  ⟨⟨off, 1, cap, h⟩, ⟨off, 1, cap, h⟩, Nat.le_refl 1, fun _ => 0, fun _ => 0⟩

/-- In a buffer of four bytes one byte is encrypted in place, and then the next one. The third byte,
which belongs to neither call, changes. -/
theorem overwrites_behind_destination : ¬ ∀ (salsa : Salsa) (key iv : Bytes) (calls : List XORCall),
    (∀ call ∈ calls, call.dst = call.src) → Adapts salsa (newSalsa20Stream key iv) calls := by
  intro h
  have hcap : 1 ≤ 4 := by omega
  have hrest : 1 ≤ 3 := by omega
  have hinPlace : ∀ call ∈ [sampleCall 0 4 hcap, sampleCall 1 3 hrest], call.dst = call.src :=
    forall_mem_cons.mpr ⟨rfl, forall_mem_singleton.mpr rfl⟩
  have hadapts : Adapts ones (newSalsa20Stream [] [])
      ([sampleCall 0 4 hcap, sampleCall 1 3 hrest].map XORCall.blank) := h ones [] [] _ hinPlace
  have hsecond : 1 % 64 = 0 ∨ 3 < 1 + 1 % 64 := (noRoomToPad_of_adapts _ hadapts).2.1
  omega

end Outbound.Ciphers
