import Outbound.Lib.Bytes

/-! Authenticated encryption as two functions of nonce and text. -/
namespace Outbound.Lib

/-- A keyed cipher. Opening inverts sealing, and neither changes the length but for the tag. -/
structure Aead where
  overhead : ℕ
  sealText : Bytes → Bytes → Bytes
  openText : Bytes → Bytes → Option Bytes
  length_seal : ∀ nonce plain, (sealText nonce plain).length = plain.length + overhead
  length_open : ∀ nonce text plain, openText nonce text = some plain →
    text.length = plain.length + overhead
  open_seal : ∀ nonce plain, openText nonce (sealText nonce plain) = some plain

namespace Aead

/-- No strict initial part of this sealed text opens. -/
def RejectsTruncated (a : Aead) (nonce plain : Bytes) : Prop :=
  ∀ n < (a.sealText nonce plain).length, a.openText nonce ((a.sealText nonce plain).take n) = none

/-- What is left of a sealed text in a buffer of `n` bytes opens exactly when all of it is there. -/
theorem open_take_seal (a : Aead) {nonce plain : Bytes} (h : a.RejectsTruncated nonce plain)
    (n : ℕ) : a.openText nonce ((a.sealText nonce plain).take n) =
      if plain.length + a.overhead ≤ n then some plain else none := by
  rw [← a.length_seal nonce plain]
  split_ifs with hn
  · rw [List.take_of_length_le hn, a.open_seal]
  · exact h n (by omega)

/-- A cipher that puts the length of the text in front of it. It hides nothing, but it satisfies
every law above, and no truncated text opens. -/
def lengthFraming : Aead where
  overhead := 16
  sealText _ plain := beBytes 16 plain.length ++ plain
  openText _ text :=
    if 16 ≤ text.length ∧ text.take 16 = beBytes 16 (text.length - 16) then some (text.drop 16)
    else none
  length_seal := by
    intro _ plain
    rw [List.length_append, length_beBytes, Nat.add_comm]
  length_open := by
    intro _ text plain h
    split_ifs at h with hc
    rw [← Option.some.inj h, List.length_drop]
    omega
  open_seal := by
    intro _ plain
    have hlen : (beBytes 16 plain.length ++ plain).length - 16 = plain.length := by
      rw [List.length_append, length_beBytes]
      omega
    rw [if_pos, List.drop_left' (length_beBytes _ _)]
    simp

theorem overhead_lengthFraming : lengthFraming.overhead = 16 := rfl

theorem lengthFraming_rejectsTruncated (nonce plain : Bytes) (h : plain.length < 256 ^ 16) :
    lengthFraming.RejectsTruncated nonce plain := by
  intro n hn
  have hseal : (lengthFraming.sealText nonce plain).length = 16 + plain.length := by
    rw [lengthFraming.length_seal]
    exact Nat.add_comm _ _
  change (if _ then _ else _) = none
  rw [if_neg]
  rintro ⟨hlen, heq⟩
  rw [List.length_take, hseal] at hlen heq
  have htake : ((lengthFraming.sealText nonce plain).take n).take 16 = beBytes 16 plain.length := by
    rw [List.take_take, Nat.min_eq_left (by omega)]
    exact List.take_left' (length_beBytes _ _)
  have hnat := congrArg beNat (htake.symm.trans heq)
  rw [beNat_beBytes_of_lt h, beNat_beBytes_of_lt (by omega)] at hnat
  omega

end Aead

end Outbound.Lib
