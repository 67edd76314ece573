import Mathlib.Data.List.Induction
import Mathlib.Tactic.Ring

/-! Byte strings, big-endian numbers in them, and arrays of a fixed number of bytes. -/
namespace Outbound.Lib

open List

abbrev Bytes := List UInt8

variable (b : Bytes)

/-- The number with the given big-endian bytes. -/
def beNat : ℕ := b.foldl (fun n x => n * 256 + x.toNat) 0

/-- The low `w` bytes of `n`, most significant first. -/
def beBytes : ℕ → ℕ → Bytes
  | 0, _ => []
  | w + 1, n => beBytes w (n / 256) ++ [UInt8.ofNat n]

@[simp] theorem beNat_nil : beNat [] = 0 := rfl

theorem beNat_concat (x : UInt8) : beNat (b ++ [x]) = beNat b * 256 + x.toNat := by
  simp [beNat, foldl_append]

variable (w n : ℕ)

@[simp] theorem length_beBytes : (beBytes w n).length = w := by
  induction w generalizing n with
  | zero => rfl
  | succ w ih => simp [beBytes, ih]

theorem beBytes_succ : beBytes (w + 1) n = UInt8.ofNat (n / 256 ^ w) :: beBytes w n := by
  induction w generalizing n with
  | zero => simp [beBytes]
  | succ w ih =>
    rw [beBytes, ih, beBytes, cons_append, Nat.div_div_eq_div_mul, pow_succ', Nat.mul_comm]

theorem beNat_beBytes : beNat (beBytes w n) = n % 256 ^ w := by
  induction w generalizing n with
  | zero => simp [beBytes, Nat.mod_one]
  | succ w ih =>
    have hbyte : (UInt8.ofNat n).toNat = n % 256 := by simp
    have hsplit : n % 256 ^ (w + 1) = n % 256 + 256 * (n / 256 % 256 ^ w) := by
      rw [pow_succ', Nat.mod_mul]
    rw [beBytes, beNat_concat, ih, hbyte, hsplit]
    ring

theorem beNat_lt : beNat b < 256 ^ b.length := by
  induction b using reverseRecOn with
  | nil => decide
  | append_singleton b x ih =>
    have hx := x.toNat_lt
    rw [beNat_concat, length_append, length_singleton, Nat.pow_succ]
    omega

theorem beNat_beBytes_of_lt {w n : ℕ} (h : n < 256 ^ w) : beNat (beBytes w n) = n := by
  rw [beNat_beBytes, Nat.mod_eq_of_lt h]

/-- A byte array of a fixed length. -/
def Octets := {b : Bytes // b.length = n}

instance : DecidableEq (Octets n) := inferInstanceAs (DecidableEq (Subtype _))

/-- The first `n` bytes of a slice as an array, as a conversion or a copy takes them. -/
def Octets.ofBytes (b : Bytes) : Octets n :=
  ⟨(b ++ replicate n 0).take n, by simp⟩

theorem Octets.ofBytes_append {n : ℕ} (o : Octets n) (b : Bytes) : ofBytes n (o.1 ++ b) = o := by
  apply Subtype.ext
  change (o.1 ++ b ++ replicate n 0).take n = o.1
  rw [append_assoc, take_append_of_le_length (by rw [o.2]), take_of_length_le (by rw [o.2])]

theorem exists_append_of_length_le {α : Type*} {a b c d : List α} (h : a ++ b = c ++ d)
    (hlen : c.length ≤ a.length) : ∃ e, a = c ++ e ∧ d = e ++ b := by
  rcases append_eq_append_iff.mp h with ⟨e, hc, hb⟩ | ⟨e, ha, hd⟩
  · have he : e = [] := by
      apply eq_nil_of_length_eq_zero
      rw [hc, length_append] at hlen
      omega
    subst he
    exact ⟨[], by simp [hc], by simp [hb]⟩
  · exact ⟨e, ha, hd⟩

end Outbound.Lib
