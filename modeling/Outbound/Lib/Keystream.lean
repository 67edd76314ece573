import Outbound.Lib.Bytes
import Outbound.Lib.Transcode

/-! Combining bytes with a keystream, from any position of it. -/
namespace Outbound.Lib.Keystream

open List

/-- The bytes combined with the keystream from position `pos` on. -/
def xorFrom (ks : ℕ → UInt8) : ℕ → Bytes → Bytes
  | _, [] => []
  | pos, b :: bs => (b ^^^ ks pos) :: xorFrom ks (pos + 1) bs

variable (ks : ℕ → UInt8) (pos : ℕ)

@[simp] theorem xorFrom_nil : xorFrom ks pos [] = [] := rfl

@[simp] theorem length_xorFrom (b : Bytes) : (xorFrom ks pos b).length = b.length := by
  induction b generalizing pos with
  | nil => rfl
  | cons x b ih => simp [xorFrom, ih]

/-- However the bytes are cut, each piece goes on where the one before it ended. -/
theorem xorFrom_append (a b : Bytes) :
    xorFrom ks pos (a ++ b) = xorFrom ks pos a ++ xorFrom ks (pos + a.length) b := by
  induction a generalizing pos with
  | nil => rfl
  | cons x a ih =>
    have hpos : pos + (x :: a).length = pos + 1 + a.length := by
      rw [length_cons]
      omega
    rw [cons_append, xorFrom, ih, xorFrom, cons_append, hpos]

theorem xorFrom_xorFrom (b : Bytes) : xorFrom ks pos (xorFrom ks pos b) = b := by
  induction b generalizing pos with
  | nil => rfl
  | cons x b ih => rw [xorFrom, xorFrom, ih, UInt8.xor_assoc, UInt8.xor_self, UInt8.xor_zero]

variable (s : (ℕ → UInt8) × ℕ)

/-- A keystream with the position in it, as a transformation of a stream. -/
def step (b : Bytes) : Bytes × ((ℕ → UInt8) × ℕ) :=
  (xorFrom s.1 s.2 b, s.1, s.2 + b.length)

theorem through_step (bs : List Bytes) :
    through step s bs = (xorFrom s.1 s.2 bs.flatten, s.1, s.2 + bs.flatten.length) := by
  induction bs generalizing s with
  | nil => rfl
  | cons b bs ih =>
    rw [through_cons, ih, flatten_cons, xorFrom_append, length_append, ← Nat.add_assoc]
    rfl

theorem inverts_step : Inverts step s step s := by
  intro ps qs h
  rw [through_step] at h ⊢
  rw [← h, xorFrom_xorFrom]

end Outbound.Lib.Keystream
