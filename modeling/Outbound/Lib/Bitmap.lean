import Mathlib.Tactic.ByContra
import Outbound.Lib.Loop

/-! Bit sets over a list of `n`-bit words: bit `d` lives in word `d / n` at position `d % n`.
The shift is the in-place one, whole words first and the remaining bits with a carry after. -/
namespace Outbound.Bitmap
open Outbound.Loop BitVec

variable {n : ℕ} (k b : ℕ) (ws : List (BitVec n)) (d : ℕ)

def bit : Bool :=
  (ws.getD (d / n) 0#n).getLsbD (d % n)

def setBit : List (BitVec n) :=
  ws.set (d / n) (ws.getD (d / n) 0#n ||| (1#n <<< (d % n)))

def shiftWords : List (BitVec n) :=
  let moved := forDown k (fun i t => t.set i (t.getD (i - k) 0#n)) ws.length ws
  forUp (fun i t => t.set i 0#n) k moved

/-- Word `i` moved up by `b` bits, with the bits carried out of the word below. -/
def carryWord (i : ℕ) (ws : List (BitVec n)) : BitVec n :=
  (ws.getD i 0#n <<< b) ||| (ws.getD (i - 1) 0#n >>> (n - b))

def shiftBits : List (BitVec n) :=
  let carried := forDown 1 (fun i t => t.set i (carryWord b i t)) ws.length ws
  carried.set 0 (carried.getD 0 0#n <<< b)

@[simp] theorem length_setBit : (setBit ws d).length = ws.length := by
  simp [setBit]

@[simp] theorem length_shiftWords : (shiftWords k ws).length = ws.length := by
  simp only [shiftWords]
  rw [length_forUp_set, length_forDown_set k (fun i t => t.getD (i - k) 0#n)]

@[simp] theorem length_shiftBits : (shiftBits b ws).length = ws.length := by
  simp only [shiftBits, List.length_set]
  rw [length_forDown_set 1 (carryWord b)]

@[simp] theorem bit_replicate_zero : bit (List.replicate k 0#n) d = false := by
  have hz : (List.replicate k 0#n).getD (d / n) 0#n = 0#n := by
    rw [List.getD_eq_getElem?_getD, List.getElem?_replicate]
    split_ifs <;> rfl
  rw [bit, hz, getLsbD_zero]

theorem getLsbD_and_mask (w : BitVec n) (i j : ℕ) (hi : i < n) :
    (w &&& (1#n <<< i)).getLsbD j = (decide (j = i) && w.getLsbD i) := by
  rw [getLsbD_and, getLsbD_shiftLeft, getLsbD_one]
  by_cases hj : j = i
  · subst hj
    simp [hi, Nat.zero_lt_of_lt hi]
  · have hz : (!decide (j < i) && (decide (0 < n) && decide (j - i = 0))) = false := by
      by_cases hlt : j < i
      · simp [hlt]
      · simp only [hlt, decide_false, Bool.not_false, Bool.true_and, Bool.and_eq_false_iff,
          decide_eq_false_iff_not]
        omega
    rw [Bool.and_assoc (decide (j < n)), hz]
    simp [hj]

theorem and_mask_ne_zero (w : BitVec n) (i : ℕ) (hi : i < n) :
    ((w &&& (1#n <<< i)) != 0#n) = w.getLsbD i := by
  rw [Bool.eq_iff_iff, bne_iff_ne]
  constructor
  · intro hne
    by_contra hbit
    apply hne
    apply eq_of_getLsbD_eq
    intro j _
    rw [getLsbD_and_mask w i j hi, getLsbD_zero, Bool.eq_false_iff.mpr hbit, Bool.and_false]
  · intro hbit hzero
    have hj := getLsbD_and_mask w i i hi
    rw [hzero, getLsbD_zero, hbit] at hj
    simp at hj

theorem bit_setBit (e : ℕ) (hn : 0 < n) (hd : d / n < ws.length) :
    bit (setBit ws d) e = (decide (e = d) || bit ws e) := by
  have hdn := Nat.div_add_mod d n
  have hen := Nat.div_add_mod e n
  unfold bit setBit
  rw [getD_set ws (d / n) (e / n) _ 0#n hd]
  by_cases hw : e / n = d / n
  · have hone : (1#n).getLsbD (e % n - d % n) = decide (e % n - d % n = 0) := by
      simp [hn]
    rw [if_pos hw, getLsbD_or, getLsbD_shiftLeft, hone, hw]
    by_cases hb : e % n = d % n
    · have he : e = d := by rw [← hdn, ← hen, hw, hb]
      simp [he, hn, Nat.mod_lt]
    · have he : e ≠ d := fun h => hb (by rw [h])
      have hz : (!decide (e % n < d % n) && decide (e % n - d % n = 0)) = false := by
        by_cases hlt : e % n < d % n
        · simp [hlt]
        · simp only [hlt, decide_false, Bool.not_false, Bool.true_and, decide_eq_false_iff_not]
          omega
      rw [Bool.and_assoc, hz]
      simp [he]
  · have he : e ≠ d := fun h => hw (by rw [h])
    rw [if_neg hw]
    simp [he]

theorem getD_shiftWords (hk : k ≤ ws.length) (j : ℕ) (hj : j < ws.length) :
    (shiftWords k ws).getD j 0#n = if j < k then 0#n else ws.getD (j - k) 0#n := by
  let f : ℕ → List (BitVec n) → BitVec n := fun i t => t.getD (i - k) 0#n
  have hlen := length_forDown_set k f ws.length ws
  have hget := getD_forDown_set k 0#n f (fun i _ _ h => h _ (Nat.sub_le i k)) ws.length ws (Nat.le_refl _) j
  change (forUp (fun i t => t.set i 0#n) k
    (forDown k (fun i t => t.set i (f i t)) ws.length ws)).getD j 0#n = _
  rw [getD_forUp_set 0#n 0#n k _ (by omega) j, hget]
  split_ifs <;> first | rfl | omega

theorem getD_shiftBits (j : ℕ) (hj : j < ws.length) :
    (shiftBits b ws).getD j 0#n = if j = 0 then ws.getD 0 0#n <<< b else carryWord b j ws := by
  have hf : ∀ i (s t : List (BitVec n)), (∀ k ≤ i, s.getD k 0#n = t.getD k 0#n) →
      carryWord b i s = carryWord b i t := by
    intro i s t h
    unfold carryWord
    rw [h i (Nat.le_refl i), h (i - 1) (Nat.sub_le i 1)]
  have hlen := length_forDown_set 1 (carryWord b) ws.length ws
  have hget := getD_forDown_set 1 0#n (carryWord b) hf ws.length ws (Nat.le_refl _)
  unfold shiftBits
  rw [getD_set _ 0 j _ 0#n (by omega), hget 0, hget j]
  by_cases h0 : j = 0
  · simp [h0]
  · rw [if_neg h0, if_neg h0, if_pos (by omega)]

/-- A whole-word shift moves bit `d` to bit `d + n * k`. -/
theorem bit_shiftWords (hn : 0 < n) (hk : k ≤ ws.length) (d : ℕ) (hd : d < n * ws.length) :
    bit (shiftWords k ws) d = (decide (n * k ≤ d) && bit ws (d - n * k)) := by
  have hlt : d / n < ws.length := Nat.div_lt_of_lt_mul hd
  unfold bit
  rw [getD_shiftWords k ws hk _ hlt]
  by_cases hs : n * k ≤ d
  · have hq : k ≤ d / n := (Nat.le_div_iff_mul_le hn).mpr (by rwa [Nat.mul_comm])
    rw [if_neg (by omega), Nat.sub_mul_div, Nat.sub_mul_mod hs]
    simp [hs]
  · have hq : d / n < k := Nat.div_lt_of_lt_mul (by omega)
    rw [if_pos hq]
    simp [hs]

/-- A shift by less than a word moves bit `d` to bit `d + b`, across word boundaries. -/
theorem bit_shiftBits (hbn : b < n) (d : ℕ)
    (hd : d < n * ws.length) : bit (shiftBits b ws) d = (decide (b ≤ d) && bit ws (d - b)) := by
  have hn : 0 < n := by omega
  have hlt : d / n < ws.length := Nat.div_lt_of_lt_mul hd
  have hdm := Nat.div_add_mod d n
  have hr : d % n < n := Nat.mod_lt d hn
  unfold bit
  rw [getD_shiftBits b ws _ hlt]
  unfold carryWord
  by_cases hbr : b ≤ d % n
  · have hsub : d - b = n * (d / n) + (d % n - b) := by omega
    have hdiv : (d - b) / n = d / n := by
      rw [hsub, Nat.mul_add_div hn, Nat.div_eq_of_lt (show d % n - b < n by omega), Nat.add_zero]
    have hmod : (d - b) % n = d % n - b := by
      rw [hsub, Nat.mul_add_mod, Nat.mod_eq_of_lt (by omega)]
    have hle : b ≤ d := Nat.le_trans hbr (Nat.mod_le d n)
    have hcarry : ∀ w : BitVec n, (w >>> (n - b)).getLsbD (d % n) = false := by
      intro w
      simpa using getLsbD_of_ge w _ (by omega)
    rw [hdiv, hmod]
    split_ifs with h0
    · rw [h0, getLsbD_shiftLeft]
      simp [hr, hle, Nat.not_lt.mpr hbr]
    · rw [getLsbD_or, getLsbD_shiftLeft, hcarry]
      simp [hr, hle, Nat.not_lt.mpr hbr]
  · have hlow : ∀ w : BitVec n, (w <<< b).getLsbD (d % n) = false := by
      intro w
      rw [getLsbD_shiftLeft]
      simp [Nat.not_le.mp hbr]
    split_ifs with h0
    · rw [hlow]
      have hdb : ¬ b ≤ d := by
        rw [h0, Nat.mul_zero, Nat.zero_add] at hdm
        omega
      simp [hdb]
    · have hq : 1 ≤ d / n := Nat.pos_of_ne_zero h0
      have hmul : n * (d / n) = n * (d / n - 1) + n := by
        rw [← Nat.mul_succ, Nat.succ_eq_add_one, Nat.sub_add_cancel hq]
      have hsub : d - b = n * (d / n - 1) + (n - b + d % n) := by omega
      have hdiv : (d - b) / n = d / n - 1 := by
        rw [hsub, Nat.mul_add_div hn, Nat.div_eq_of_lt (show n - b + d % n < n by omega),
          Nat.add_zero]
      have hmod : (d - b) % n = n - b + d % n := by
        rw [hsub, Nat.mul_add_mod, Nat.mod_eq_of_lt (by omega)]
      have hle : b ≤ d := by omega
      rw [getLsbD_or, hlow, getLsbD_ushiftRight, hdiv, hmod]
      simp [hle]

end Outbound.Bitmap
