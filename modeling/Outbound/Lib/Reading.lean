import Outbound.Lib.Stream

/-! Programs that read a stream piece by piece. Run on a stream that arrives in chunks, a program
does what it does on the plain list of what the stream has left. -/
namespace Outbound.Lib

/-- A program over a reader: it ends with a value, reads exactly `k` elements and goes on with them,
fails, or crashes. -/
inductive Reading (α ε A : Type) where
  | done (a : A)
  | full (k : ℕ) (next : List α → Reading α ε A)
  | fail (e : ε)
  | crash

namespace Reading

variable {α ε A B : Type} (p : Reading α ε A) (a : A) (f : A → Reading α ε B) (l : List α)

def bind : Reading α ε A → (A → Reading α ε B) → Reading α ε B
  | .done a, f => f a
  | .full k next, f => .full k fun b => (next b).bind f
  | .fail e, _ => .fail e
  | .crash, _ => .crash

instance : Monad (Reading α ε) where
  pure := .done
  bind := .bind

theorem bind_done : p.bind .done = p := by
  induction p with
  | full k next ih => exact congrArg (full k) (funext ih)
  | _ => rfl

theorem bind_bind {C : Type} (p : Reading α ε A) (f : A → Reading α ε B) (g : B → Reading α ε C) :
    (p.bind f).bind g = p.bind fun a => (f a).bind g := by
  induction p with
  | full k next ih => exact congrArg (full k) (funext ih)
  | _ => rfl

instance : LawfulMonad (Reading α ε) :=
  LawfulMonad.mk' _ bind_done (fun _ _ => rfl) bind_bind

def readFull (k : ℕ) : Reading α ε (List α) := .full k .done

/-- The value of a slice expression; `none` is a panic. -/
def checked : Option A → Reading α ε A
  | none => .crash
  | some a => .done a

/-- The program on a stream, with the error for a read that ends short; `none` is a crash. -/
def run (short : List α → ε) : Reading α ε A → Source α → Option (Except ε (A × Source α))
  | .done a, s => some (.ok (a, s))
  | .full k next, s =>
    let b := Lib.readFull Source.read k k [] s
    if b.1.length < k then some (.error (short b.1)) else (next b.1).run short b.2
  | .fail e, _ => some (.error e)
  | .crash, _ => none

/-- The program on a list: a value with what is left, `some none` where it fails. -/
def parse : Reading α ε A → List α → Option (Option (A × List α))
  | .done a, l => some (some (a, l))
  | .full k next, l => if l.length < k then some none else (next (l.take k)).parse (l.drop k)
  | .fail _, _ => some none
  | .crash, _ => none

def outcome : Except ε (A × Source α) → Option (A × List α)
  | .ok (a, s) => some (a, s.rest)
  | .error _ => none

theorem outcome_run (short : List α → ε) (p : Reading α ε A) (s : Source α) :
    (p.run short s).map outcome = p.parse s.rest := by
  induction p generalizing s with
  | full k next ih =>
    obtain ⟨s', hfull, hrest, _⟩ := Source.streams.readFull_eq k s
    rw [run, parse, hfull]
    rw [List.length_take, ← hrest, ← ih]
    by_cases hlen : s.rest.length < k
    · rw [if_pos (by omega), if_pos hlen]
      rfl
    · rw [if_neg (by omega), if_neg hlen]
  | _ => rfl

@[simp] theorem parse_pure :
    (pure a : Reading α ε A).parse l = some (some (a, l)) := rfl

theorem parse_bind :
    (p >>= f).parse l =
      (p.parse l).bind fun r => r.elim (some none) fun b => (f b.1).parse b.2 := by
  change (p.bind f).parse l = _
  induction p generalizing l with
  | full k next ih =>
    rw [bind, parse, parse]
    split_ifs
    · rfl
    · exact ih _ _
  | _ => rfl

theorem parse_checked_some :
    (checked (some a) >>= f).parse l = (f a).parse l := rfl

end Reading

end Outbound.Lib
