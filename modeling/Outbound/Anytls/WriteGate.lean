import Mathlib.Data.List.Count
import Outbound.Lib.Mutex

/-! The sending half of a stream as far as its frames go: a lock that every frame is sent under, a flag
that is won once, and the frame that ends the stream, which only the winner of the flag sends. -/
namespace Outbound.Anytls

open Lib List

inductive Sent where
  | psh
  | fin
deriving DecidableEq

/-- What a call is to the gate: it has won the flag, has the lock, has the lock and may send data, or
has won the flag and has the lock. -/
inductive WriteRole where
  | out
  | won
  | held
  | sending
  | fin
deriving DecidableEq

/-- The calls that have the lock, and those that have won the flag. -/
def WriteRole.Locks (r : WriteRole) : Prop := r = .held ∨ r = .sending ∨ r = .fin

def WriteRole.Wins (r : WriteRole) : Prop := r = .won ∨ r = .fin

/-- The flag, the lock, what was sent so far, and the roles of the calls. -/
structure WriteGate where
  writeClosed : Bool
  writeMutex : Option ℕ
  wire : List Sent
  role : ℕ → WriteRole

namespace WriteGate

def setRole (g : WriteGate) (t : ℕ) (r : WriteRole) : WriteGate :=
  { g with role := Function.update g.role t r }

variable {r : WriteRole}

theorem setRole_same (g : WriteGate) (t : ℕ) (h : g.role t = r) : g.setRole t r = g := by
  simp [setRole, ← h]

variable {g : WriteGate} {t : ℕ}

theorem forall_setRole {P : ℕ → WriteRole → Prop}
    (hself : P t r) (hother : ∀ u, u ≠ t → P u (g.role u)) (u : ℕ) : P u ((g.setRole t r).role u) :=
  (Function.forall_update_iff g.role P).mpr ⟨hself, hother⟩ u

/-- The moves of the gate. Under `strict` a call that has the lock may send data only before the frame
that ends the stream. -/
inductive Moves (strict : Prop) (g : WriteGate) : WriteGate → Prop
  | stay : Moves strict g g
  | lock (t : ℕ) (hfree : g.writeMutex = none) (hrole : g.role t = .out) :
      Moves strict g ({ g with writeMutex := some t }.setRole t .held)
  | lockWon (t : ℕ) (hfree : g.writeMutex = none) (hrole : g.role t = .won) :
      Moves strict g ({ g with writeMutex := some t }.setRole t .fin)
  | unlock (t : ℕ) (hrole : (g.role t).Locks) :
      Moves strict g ({ g with writeMutex := none }.setRole t .out)
  | win (t : ℕ) (hopen : g.writeClosed = false) (hrole : g.role t = .out) :
      Moves strict g ({ g with writeClosed := true }.setRole t .won)
  | winHeld (t : ℕ) (hopen : g.writeClosed = false) (hrole : g.role t = .held) :
      Moves strict g ({ g with writeClosed := true }.setRole t .fin)
  | pass (t : ℕ) (hguard : strict → Sent.fin ∉ g.wire) (hrole : g.role t = .held) :
      Moves strict g (g.setRole t .sending)
  | push (t k : ℕ) (hrole : g.role t = .sending) :
      Moves strict g { g with wire := g.wire ++ replicate k Sent.psh }
  | sendFin (t : ℕ) (hrole : g.role t = .fin) :
      Moves strict g ({ g with writeMutex := none, wire := g.wire ++ [Sent.fin] }.setRole t .out)

/-- The lock has one holder, the flag one winner, and the frame that ends the stream is sent by the
winner, once. -/
structure Sound (g : WriteGate) : Prop where
  locks : Guards WriteRole.Locks g.role g.writeMutex
  wins : ∀ t, (g.role t).Wins → g.writeClosed = true ∧ Sent.fin ∉ g.wire
  unique : ∀ t u, (g.role t).Wins → (g.role u).Wins → t = u
  flag : Sent.fin ∈ g.wire → g.writeClosed = true
  once : g.wire.count .fin ≤ 1

/-- No data is behind the frame that ends the stream, and no call may send any more. -/
structure Ordered (g : WriteGate) : Prop where
  wire : g.wire.Pairwise fun a b => a = .fin → b ≠ .psh
  quiet : Sent.fin ∈ g.wire → ∀ t, g.role t ≠ .sending

theorem not_locks_out : ¬ WriteRole.out.Locks := by
  rintro (h | h | h) <;> cases h

theorem not_locks_won : ¬ WriteRole.won.Locks := by
  rintro (h | h | h) <;> cases h

theorem not_wins_out : ¬ WriteRole.out.Wins := by
  rintro (h | h) <;> cases h

theorem not_wins_held : ¬ WriteRole.held.Wins := by
  rintro (h | h) <;> cases h

theorem not_wins_sending : ¬ WriteRole.sending.Wins := by
  rintro (h | h) <;> cases h

theorem mem_append_psh {wire : List Sent} {k : ℕ} :
    Sent.fin ∈ wire ++ replicate k .psh ↔ Sent.fin ∈ wire := by
  simp [mem_replicate]

namespace Sound

theorem wins_keep (hr : r.Wins → (g.role t).Wins) (u : ℕ) :
    ((g.setRole t r).role u).Wins → (g.role u).Wins := by
  refine forall_setRole (P := fun u r => r.Wins → (g.role u).Wins) hr ?_ u
  intro v _ hv
  exact hv

variable (h : g.Sound)

include h

theorem unique_keep (hr : r.Wins → (g.role t).Wins) (u v : ℕ)
    (hu : ((g.setRole t r).role u).Wins) (hv : ((g.setRole t r).role v).Wins) : u = v :=
  h.unique u v (wins_keep hr u hu) (wins_keep hr v hv)

theorem not_fin_of_open (hopen : g.writeClosed = false) : Sent.fin ∉ g.wire := by
  intro hfin
  have hclosed := h.flag hfin
  rw [hopen] at hclosed
  cases hclosed

theorem wins_first (hopen : g.writeClosed = false) (u : ℕ) :
    ((g.setRole t r).role u).Wins → u = t := by
  refine forall_setRole (P := fun u r => r.Wins → u = t) (fun _ => rfl) ?_ u
  intro v _ hv
  have hclosed := (h.wins v hv).1
  rw [hopen] at hclosed
  cases hclosed

theorem wins_drop (hrole : (g.role t).Wins) (u : ℕ) : ¬ ((g.setRole t .out).role u).Wins := by
  refine forall_setRole (P := fun _ r => ¬ r.Wins) not_wins_out ?_ u
  intro v hne hv
  exact hne (h.unique v t hv hrole)

end Sound

theorem sound_win (h : g.Sound) (hopen : g.writeClosed = false) (hr : r.Locks → (g.role t).Locks) :
    Sound ({ g with writeClosed := true }.setRole t r) where
  locks := h.locks.keep hr
  wins := fun _ _ => ⟨rfl, h.not_fin_of_open hopen⟩
  unique u v hu hv := (h.wins_first hopen u hu).trans (h.wins_first hopen v hv).symm
  flag := fun _ => rfl
  once := h.once

theorem sound_lock (h : g.Sound) (hfree : g.writeMutex = none) (hr : r.Wins → (g.role t).Wins) :
    Sound ({ g with writeMutex := some t }.setRole t r) where
  locks := h.locks.take hfree
  wins u hu := h.wins u (Sound.wins_keep hr u hu)
  unique := h.unique_keep hr
  __ := h

theorem Moves.sound {strict : Prop} {g' : WriteGate} (hmove : Moves strict g g')
    (h : g.Sound) : g'.Sound := by
  cases hmove with
  | stay => exact h
  | lock t hfree hrole =>
    exact sound_lock h hfree fun hwins => absurd hwins not_wins_held
  | lockWon t hfree hrole =>
    apply sound_lock h hfree
    intro _
    exact .inl hrole
  | unlock t hrole =>
    have hkeep : WriteRole.out.Wins → (g.role t).Wins := fun hwins => absurd hwins not_wins_out
    exact {
      locks := h.locks.release hrole not_locks_out
      wins := fun u hu => h.wins u (Sound.wins_keep hkeep u hu)
      unique := h.unique_keep hkeep
      flag := h.flag
      once := h.once }
  | win t hopen hrole =>
    exact sound_win h hopen fun hlocks => absurd hlocks not_locks_won
  | winHeld t hopen hrole =>
    apply sound_win h hopen
    intro _
    exact .inl hrole
  | pass t hguard hrole =>
    have hkeep : WriteRole.sending.Wins → (g.role t).Wins :=
      fun hwins => absurd hwins not_wins_sending
    exact {
      locks := h.locks.keep fun _ => .inl hrole
      wins := fun u hu => h.wins u (Sound.wins_keep hkeep u hu)
      unique := h.unique_keep hkeep
      flag := h.flag
      once := h.once }
  | push t k hrole =>
    exact {
      __ := h
      wins := fun u hu => ⟨(h.wins u hu).1, fun hfin => (h.wins u hu).2 (mem_append_psh.mp hfin)⟩
      flag := fun hfin => h.flag (mem_append_psh.mp hfin)
      once := by
        rw [count_append, count_replicate]
        exact h.once }
  | sendFin t hrole =>
    have hwins : (g.role t).Wins := .inr hrole
    have hlocks : (g.role t).Locks := .inr (.inr hrole)
    obtain ⟨hclosed, hnone⟩ := h.wins t hwins
    exact {
      locks := h.locks.release hlocks not_locks_out
      wins := fun u hu => absurd hu (h.wins_drop hwins u)
      unique := fun u v hu _ => absurd hu (h.wins_drop hwins u)
      flag := fun _ => hclosed
      once := by
        have hcount : (g.wire ++ [Sent.fin]).count .fin = 1 := by
          rw [count_append, count_eq_zero_of_not_mem hnone]
          rfl
        exact Nat.le_of_eq hcount }

theorem Ordered.setRole (h : g.Ordered) (hr : r ≠ .sending) : (g.setRole t r).Ordered where
  wire := h.wire
  quiet := by
    intro hfin u
    exact forall_setRole (P := fun _ r => r ≠ .sending) hr (fun v _ => h.quiet hfin v) u

theorem Moves.ordered {strict : Prop} {g' : WriteGate} (hmove : Moves strict g g')
    (hstrict : strict) (h : g.Sound) (ho : g.Ordered) : g'.Ordered := by
  cases hmove with
  | stay => exact ho
  | lock t hfree hrole =>
    have hsame : Ordered { g with writeMutex := some t } := ⟨ho.wire, ho.quiet⟩
    exact hsame.setRole WriteRole.noConfusion
  | lockWon t hfree hrole =>
    have hsame : Ordered { g with writeMutex := some t } := ⟨ho.wire, ho.quiet⟩
    exact hsame.setRole WriteRole.noConfusion
  | unlock t hrole =>
    have hsame : Ordered { g with writeMutex := none } := ⟨ho.wire, ho.quiet⟩
    exact hsame.setRole WriteRole.noConfusion
  | win t hopen hrole =>
    have hsame : Ordered { g with writeClosed := true } := ⟨ho.wire, ho.quiet⟩
    exact hsame.setRole WriteRole.noConfusion
  | winHeld t hopen hrole =>
    have hsame : Ordered { g with writeClosed := true } := ⟨ho.wire, ho.quiet⟩
    exact hsame.setRole WriteRole.noConfusion
  | pass t hguard hrole =>
    exact {
      wire := ho.wire
      quiet := fun hfin => absurd hfin (hguard hstrict) }
  | push t k hrole =>
    have hnone : Sent.fin ∉ g.wire := fun hfin => ho.quiet hfin t hrole
    constructor
    · apply pairwise_append.mpr
      refine ⟨ho.wire, ?_, ?_⟩
      · apply pairwise_replicate.mpr
        exact .inr fun hpsh => Sent.noConfusion hpsh
      · intro a ha b _ hfin
        exact absurd (hfin ▸ ha) hnone
    · intro hfin
      exact absurd (mem_append_psh.mp hfin) hnone
  | sendFin t hrole =>
    have hlocks : (g.role t).Locks := .inr (.inr hrole)
    constructor
    · apply pairwise_append.mpr
      refine ⟨ho.wire, pairwise_singleton _ _, ?_⟩
      intro a _ b hb _ hpsh
      have hfin : b = .fin := mem_singleton.mp hb
      exact Sent.noConfusion (hfin.symm.trans hpsh)
    · intro _ u hu
      exact h.locks.drop hlocks not_locks_out u (.inr (.inl hu))

end WriteGate

end Outbound.Anytls
