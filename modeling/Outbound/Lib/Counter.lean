import Outbound.Lib.Bytes
import Mathlib.Data.List.Nodup
import Mathlib.Data.Nat.ModEq

/-! Counters kept in little-endian bytes: they run through all values of their length before one
comes back. -/
namespace Outbound.Lib

open List Function

/-- The number with the given little-endian bytes. -/
def leNat : Bytes → ℕ
  | [] => 0
  | x :: b => x.toNat + 256 * leNat b

/-- The next value of a counter; after the last one it starts again. -/
def incLE : Bytes → Bytes
  | [] => []
  | x :: b => if x + 1 ≠ 0 then (x + 1) :: b else 0 :: incLE b

@[simp] theorem length_incLE (b : Bytes) : (incLE b).length = b.length := by
  induction b with
  | nil => rfl
  | cons x b ih =>
    unfold incLE
    split_ifs
    · simp
    · simp [ih]

theorem leNat_lt (b : Bytes) : leNat b < 256 ^ b.length := by
  induction b with
  | nil => simp [leNat]
  | cons x b ih =>
    have hx := x.toNat_lt
    rw [leNat, length_cons, pow_succ']
    omega

theorem leNat_incLE (b : Bytes) : leNat (incLE b) = (leNat b + 1) % 256 ^ b.length := by
  induction b with
  | nil => rfl
  | cons x b ih =>
    have hb := leNat_lt b
    have hx := x.toNat_lt
    have hstep : (x + 1).toNat = (x.toNat + 1) % 256 := by simp [UInt8.toNat_add]
    rw [length_cons, pow_succ']
    unfold incLE
    split_ifs with hcarry
    · rw [leNat, leNat, hstep]
      have hlt : x.toNat + 1 < 256 := by
        by_contra hge
        have hzero : (x + 1).toNat = 0 := by omega
        exact hcarry (UInt8.toNat_inj.mp hzero)
      rw [Nat.mod_eq_of_lt hlt, Nat.mod_eq_of_lt (by omega)]
      omega
    · have hlast : x.toNat = 255 := by
        have hzero := congrArg UInt8.toNat (not_not.mp hcarry)
        rw [hstep, UInt8.toNat_zero] at hzero
        omega
      have hsum : x.toNat + 256 * leNat b + 1 = 256 * (leNat b + 1) := by omega
      rw [leNat, leNat, ih, hsum, Nat.mul_mod_mul_left, UInt8.toNat_zero, Nat.zero_add]

theorem leNat_inj {a b : Bytes} (hlen : a.length = b.length) (h : leNat a = leNat b) : a = b := by
  induction a generalizing b with
  | nil => exact (length_eq_zero_iff.mp hlen.symm).symm
  | cons x a ih =>
    cases b with
    | nil => simp at hlen
    | cons y b =>
      have hx := x.toNat_lt
      have hy := y.toNat_lt
      rw [leNat, leNat] at h
      have hhead : x = y := UInt8.toNat_inj.mp (by omega)
      have htail : a = b := ih (by simpa using hlen) (by omega)
      rw [hhead, htail]

variable (b : Bytes) (n : ℕ)

@[simp] theorem length_iterate_incLE : (incLE^[n] b).length = b.length := by
  induction n with
  | zero => rfl
  | succ n ih => rw [iterate_succ_apply', length_incLE, ih]

theorem leNat_iterate_incLE : leNat (incLE^[n] b) = (leNat b + n) % 256 ^ b.length := by
  induction n with
  | zero => exact (Nat.mod_eq_of_lt (leNat_lt b)).symm
  | succ n ih =>
    rw [iterate_succ_apply', leNat_incLE, ih, length_iterate_incLE, Nat.mod_add_mod, Nat.add_assoc]

def counterRun : List Bytes := (range n).map fun i => incLE^[i] b

theorem counterRun_add (m n : ℕ) :
    counterRun b (m + n) = counterRun b m ++ counterRun (incLE^[m] b) n := by
  unfold counterRun
  rw [range_add, map_append, map_map]
  congr 1
  apply map_congr_left
  intro i _
  show incLE^[m + i] b = incLE^[i] (incLE^[m] b)
  rw [Nat.add_comm, iterate_add_apply]

/-- No value comes twice before all have come, and then the first comes again. -/
theorem nodup_counterRun_iff : (counterRun b n).Nodup ↔ n ≤ 256 ^ b.length := by
  constructor
  · intro hnodup
    by_contra hlt
    have hwrap : incLE^[256 ^ b.length] b = incLE^[0] b := by
      apply leNat_inj
      · simp
      · rw [leNat_iterate_incLE, leNat_iterate_incLE, Nat.add_mod_right, Nat.add_zero]
    have hpos : 0 < 256 ^ b.length := Nat.pow_pos (by decide)
    have hzero := inj_on_of_nodup_map hnodup (mem_range.mpr (by omega))
      (mem_range.mpr (by omega)) hwrap
    omega
  · intro hn
    apply List.Nodup.map_on _ nodup_range
    intro i hi j hj heq
    rw [mem_range] at hi hj
    have hmod := congrArg leNat heq
    rw [leNat_iterate_incLE, leNat_iterate_incLE] at hmod
    have hcong : i ≡ j [MOD 256 ^ b.length] := Nat.ModEq.add_left_cancel' (leNat b) hmod
    exact hcong.eq_of_lt_of_lt (by omega) (by omega)

end Outbound.Lib
