import Outbound.Lib.Run
import Mathlib.Data.List.Basic

/-! What a stream reader owes its caller: the stream itself, whatever the sizes of the buffers. -/
namespace Outbound.Lib

open List

variable {α ε σ : Type*}

structure ReadOut (α ε : Type*) where
  data : List α
  err : Option ε

namespace ReadOut

/-- A read with room for `l` elements takes its data off the front of `q` and leaves `q'`. It fails
only at the end of `q`, and gets something before. -/
structure Takes (out : ReadOut α ε) (l : ℕ) (q q' : List α) : Prop where
  split : q = out.data ++ q'
  length : out.data.length ≤ l
  err : out.err ≠ none → q = []
  more : 0 < l → q ≠ [] → out.data ≠ []

theorem takes_take (chunk q : List α) (l : ℕ) (h : chunk ≠ []) :
    (⟨chunk.take l, none⟩ : ReadOut α ε).Takes l (chunk ++ q) (chunk.drop l ++ q) where
  split := by rw [← append_assoc, take_append_drop]
  length := length_take_le l chunk
  err := fun herr => absurd rfl herr
  more := by
    intro hl _
    have hpos := length_pos_of_ne_nil h
    apply ne_nil_of_length_pos
    rw [length_take]
    omega

theorem takes_fail (e : ε) (l : ℕ) : (⟨[], some e⟩ : ReadOut α ε).Takes l [] [] where
  split := rfl
  length := Nat.zero_le l
  err := fun _ => rfl
  more := fun _ hne => absurd rfl hne

end ReadOut

def received (outs : List (ReadOut α ε)) : List α := outs.flatMap ReadOut.data

@[simp] theorem received_nil : received ([] : List (ReadOut α ε)) = [] := rfl

@[simp] theorem received_cons (out : ReadOut α ε) (outs : List (ReadOut α ε)) :
    received (out :: outs) = out.data ++ received outs := rfl

/-- Reads with the buffer sizes `ls` return the stream `q`: each fits its buffer, together they are
the front of `q`, an error comes only when all of `q` is out, and all of `q` is out after as many
reads as it has elements. -/
structure Delivers (q : List α) (ls : List ℕ) (outs : List (ReadOut α ε)) : Prop where
  fits : List.Forall₂ (fun l out => out.data.length ≤ l) ls outs
  inOrder : received outs <+: q
  errAtEnd : ∀ before out after, outs = before ++ out :: after → out.err ≠ none →
    received before = q
  complete : (∀ l ∈ ls, 0 < l) → q.length ≤ ls.length → received outs = q

namespace Delivers

variable {l : ℕ} {q q' : List α} {ls : List ℕ} {outs : List (ReadOut α ε)}

theorem nil (q : List α) : Delivers q [] ([] : List (ReadOut α ε)) where
  fits := .nil
  inOrder := List.nil_prefix
  errAtEnd := fun before out after hnil => by simp at hnil
  complete := fun _ hlen => by
    have hq : q.length = 0 := Nat.le_zero.mp hlen
    exact (eq_nil_of_length_eq_zero hq).symm

theorem cons {out : ReadOut α ε} (hout : out.Takes l q q') (h : Delivers q' ls outs) :
    Delivers q (l :: ls) (out :: outs) where
  fits := .cons hout.length h.fits
  inOrder := by
    rw [received_cons, hout.split]
    exact (prefix_append_right_inj _).mpr h.inOrder
  errAtEnd := by
    intro before bad after heq herr
    cases before with
    | nil =>
      obtain ⟨rfl, _⟩ := cons.inj heq
      exact (hout.err herr).symm
    | cons first before =>
      obtain ⟨rfl, htail⟩ := cons.inj heq
      rw [received_cons, h.errAtEnd before bad after htail herr]
      exact hout.split.symm
  complete := by
    intro hpos hlen
    have hpos' : ∀ l' ∈ ls, 0 < l' := fun l' hl' => hpos l' (mem_cons_of_mem l hl')
    have hlength := congrArg length hout.split
    rw [length_append] at hlength
    rw [length_cons] at hlen
    have hrest : q'.length ≤ ls.length := by
      by_cases hq : q = []
      · rw [hq, length_nil] at hlength
        omega
      · have hdata := length_pos_of_ne_nil (hout.more (hpos l mem_cons_self) hq)
        omega
    rw [received_cons, h.complete hpos' hrest]
    exact hout.split.symm

end Delivers

/-- A reader that keeps track of what is left of the stream, and takes every read from it, delivers
the stream. -/
theorem answers_delivers (read : σ → ℕ → ReadOut α ε × σ) (Leaves : σ → List α → Prop)
    (hstep : ∀ s q l, Leaves s q →
      ∃ q', Leaves (read s l).2 q' ∧ (read s l).1.Takes l q q')
    (s : σ) (q : List α) (h : Leaves s q) (ls : List ℕ) :
    Delivers q ls (Run.answers read s ls) := by
  induction ls generalizing s q with
  | nil => exact .nil q
  | cons l ls ih =>
    obtain ⟨q', hleaves, htakes⟩ := hstep s q l h
    exact .cons htakes (ih (read s l).2 q' hleaves)

theorem exec_leaves (read : σ → ℕ → ReadOut α ε × σ) (Leaves : σ → List α → Prop)
    (hstep : ∀ s q l, Leaves s q →
      ∃ q', Leaves (read s l).2 q' ∧ (read s l).1.Takes l q q')
    (s : σ) (q : List α) (h : Leaves s q) (ls : List ℕ) :
    ∃ q', Leaves (Run.exec read s ls) q' ∧ q = received (Run.answers read s ls) ++ q' := by
  induction ls generalizing s q with
  | nil => exact ⟨q, h, rfl⟩
  | cons l ls ih =>
    obtain ⟨q', hleaves, htakes⟩ := hstep s q l h
    obtain ⟨q'', hleaves', hq'⟩ := ih (read s l).2 q' hleaves
    refine ⟨q'', hleaves', ?_⟩
    simpa [Run.answers, received_cons, ← hq'] using htakes.split

end Outbound.Lib
