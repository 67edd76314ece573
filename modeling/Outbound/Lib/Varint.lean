import Outbound.Lib.Bytes

/-! Variable-length integers of QUIC: the two high bits of the first byte give the number of
bytes, 1, 2, 4 or 8, and the other bits hold the number in network order. -/
namespace Outbound.Lib

open UInt8 (ofNat)

def maxVarInt1 : ℕ := 63

def maxVarInt2 : ℕ := 16383

def maxVarInt4 : ℕ := 1073741823

def maxVarInt8 : ℕ := 4611686018427387903

variable (i : ℕ)

def varintTag : ℕ :=
  if i ≤ maxVarInt1 then 0 else if i ≤ maxVarInt2 then 1 else if i ≤ maxVarInt4 then 2 else 3

def varintLen : ℕ := 2 ^ varintTag i

/-- The bytes of `i`, for `i` up to `maxVarInt8`. -/
def varintPut : Bytes :=
  let tag := varintTag i
  (ofNat (i >>> (8 * (2 ^ tag - 1))) ||| ofNat (tag <<< 6)) :: beBytes (2 ^ tag - 1) i

/-- The number at the front of `b` and how many bytes it takes. -/
def varintParse (b : Bytes) : Option (ℕ × ℕ) :=
  match b with
  | [] => none
  | first :: rest =>
    let len := 2 ^ (first >>> 6).toNat
    if b.length < len then none
    else some (beNat ((first &&& 0x3f) :: rest.take (len - 1)), len)

theorem varintLen_pos : 0 < varintLen i := Nat.two_pow_pos _

theorem varintLen_le : varintLen i ≤ 8 := by
  unfold varintLen varintTag
  split_ifs <;> decide

@[simp] theorem length_varintPut : (varintPut i).length = varintLen i := by
  have hpos := varintLen_pos i
  simp only [varintPut, List.length_cons, length_beBytes]
  exact Nat.sub_add_cancel hpos

theorem varintTag_le : varintTag i ≤ 3 := by
  unfold varintTag
  split_ifs <;> omega

/-- The bits left over by the tag hold every number that gets this tag. -/
theorem shiftRight_lt_of_le {i : ℕ} (hi : i ≤ maxVarInt8) : i / 256 ^ (varintLen i - 1) < 64 := by
  unfold varintLen varintTag
  unfold maxVarInt8 at hi
  split_ifs with h1 h2 h4
  · unfold maxVarInt1 at h1
    norm_num
    omega
  · unfold maxVarInt2 at h2
    norm_num
    omega
  · unfold maxVarInt4 at h4
    norm_num
    omega
  · norm_num
    omega

theorem tagged_byte (x tag : ℕ) (hx : x < 64) (htag : tag ≤ 3) :
    ((ofNat x ||| ofNat (tag <<< 6)) >>> 6).toNat = tag ∧
      (ofNat x ||| ofNat (tag <<< 6)) &&& 0x3f = ofNat x := by
  have hall : ∀ (t : Fin 4) (y : Fin 64),
      ((ofNat y ||| ofNat (t.val <<< 6)) >>> 6).toNat = t ∧
        (ofNat y ||| ofNat (t.val <<< 6)) &&& 0x3f = ofNat y := by
    decide
  exact hall ⟨tag, by omega⟩ ⟨x, hx⟩

theorem varintParse_varintPut {i : ℕ} (hi : i ≤ maxVarInt8) (rest : Bytes) :
    varintParse (varintPut i ++ rest) = some (i, varintLen i) := by
  have hpos := varintLen_pos i
  have hx := shiftRight_lt_of_le hi
  have hshift : i >>> (8 * (varintLen i - 1)) = i / 256 ^ (varintLen i - 1) := by
    rw [Nat.shiftRight_eq_div_pow, Nat.pow_mul]
  obtain ⟨htag, hlow⟩ := tagged_byte _ _ hx (varintTag_le i)
  have hput : varintPut i = (ofNat (i / 256 ^ (varintLen i - 1)) |||
      ofNat (varintTag i <<< 6)) :: beBytes (varintLen i - 1) i := by
    rw [← hshift]
    rfl
  have hlen : ¬ (varintPut i ++ rest).length < varintLen i := by
    rw [List.length_append, length_varintPut]
    omega
  have hlt : i < 256 ^ varintLen i := by
    have hcpos : 0 < 256 ^ (varintLen i - 1) := Nat.pow_pos (by omega)
    have hbound := (Nat.div_lt_iff_lt_mul hcpos).mp hx
    have hpow : 256 ^ varintLen i = 256 ^ (varintLen i - 1) * 256 := by
      rw [← pow_succ, Nat.sub_add_cancel hpos]
    omega
  rw [hput, List.cons_append] at hlen ⊢
  unfold varintParse
  simp only [htag]
  rw [show 2 ^ varintTag i = varintLen i from rfl, if_neg hlen, hlow,
    List.take_left' (length_beBytes _ _), ← beBytes_succ, Nat.sub_add_cancel hpos,
    beNat_beBytes_of_lt hlt]

end Outbound.Lib
