import Mathlib.Data.List.Basic

/-! A transformation of a stream with a state, applied to the stream piece by piece. -/
namespace Outbound.Lib

open List

variable {α σ τ : Type*}

/-- What comes out for all pieces together, and the state after them. -/
def through (step : σ → List α → List α × σ) : σ → List (List α) → List α × σ
  | s, [] => ([], s)
  | s, b :: bs => ((step s b).1 ++ (through step (step s b).2 bs).1,
      (through step (step s b).2 bs).2)

variable {step : σ → List α → List α × σ} {step' : τ → List α → List α × τ}

@[simp] theorem through_nil (s : σ) : through step s [] = ([], s) := rfl

theorem through_cons (s : σ) (b : List α) (bs : List (List α)) :
    through step s (b :: bs) = ((step s b).1 ++ (through step (step s b).2 bs).1,
      (through step (step s b).2 bs).2) := rfl

theorem through_append (s : σ) (as bs : List (List α)) :
    through step s (as ++ bs) = ((through step s as).1 ++ (through step (through step s as).2 bs).1,
      (through step (through step s as).2 bs).2) := by
  induction as generalizing s with
  | nil => rfl
  | cons a as ih => simp [through_cons, ih]

theorem length_through (hlen : ∀ s b, (step s b).1.length = b.length) (s : σ)
    (bs : List (List α)) : (through step s bs).1.length = bs.flatten.length := by
  induction bs generalizing s with
  | nil => rfl
  | cons b bs ih =>
    simp [through_cons, ih, hlen]

/-- The second transformation gives back what the first was fed, however the two are cut. -/
def Inverts (step : σ → List α → List α × σ) (e : σ) (step' : τ → List α → List α × τ) (d : τ) :
    Prop :=
  ∀ ps qs, (through step e ps).1 = qs.flatten → (through step' d qs).1 = ps.flatten

/-- From a front of the one comes a front of the other. -/
theorem Inverts.through_front {e : σ} {d : τ} (h : Inverts step e step' d)
    {ps qs : List (List α)} (hfront : qs.flatten <+: (through step e ps).1) :
    (through step' d qs).1 <+: ps.flatten := by
  obtain ⟨rest, hrest⟩ := hfront
  have hall : (through step' d (qs ++ [rest])).1 = ps.flatten := by
    apply h
    simp [hrest]
  rw [through_append] at hall
  exact ⟨_, hall⟩

end Outbound.Lib
