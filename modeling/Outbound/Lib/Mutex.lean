import Mathlib.Logic.Function.Basic

/-! Locks and the parties that may be in certain roles only while they hold one. -/
namespace Outbound.Lib

variable {ι R : Type*} {Locks : R → Prop} {role : ι → R} {mutex : Option ι}
  {t u : ι} {r : R}

def Guards (Locks : R → Prop) (role : ι → R) (mutex : Option ι) : Prop :=
  ∀ t, Locks (role t) → mutex = some t

namespace Guards

theorem unique (h : Guards Locks role mutex) (ht : Locks (role t)) (hu : Locks (role u)) : t = u :=
  Option.some.inj ((h t ht).symm.trans (h u hu))

variable [DecidableEq ι]

section

variable (h : Guards Locks role mutex)

include h

/-- A party that takes the free lock is its only holder. -/
theorem take (hfree : mutex = none) : Guards Locks (Function.update role t r) (some t) := by
  apply (Function.forall_update_iff role fun u r => Locks r → some t = some u).mpr
  constructor
  · intro _
    rfl
  · intro u _ hu
    have hheld := h u hu
    rw [hfree] at hheld
    cases hheld.symm

theorem drop (ht : Locks (role t)) (hr : ¬ Locks r) (u : ι) :
    ¬ Locks (Function.update role t r u) := by
  revert u
  apply (Function.forall_update_iff role fun _ r => ¬ Locks r).mpr
  constructor
  · exact hr
  · intro u hne hu
    exact hne (h.unique hu ht)

theorem release (ht : Locks (role t)) (hr : ¬ Locks r) :
    Guards Locks (Function.update role t r) none :=
  fun u hu => absurd hu (h.drop ht hr u)

/-- A change of role that needs no lock the party did not have. -/
theorem keep (hr : Locks r → Locks (role t)) : Guards Locks (Function.update role t r) mutex := by
  apply (Function.forall_update_iff role fun u r => Locks r → mutex = some u).mpr
  constructor
  · intro hlocks
    exact h t (hr hlocks)
  · intro u _ hu
    exact h u hu

end

end Guards

end Outbound.Lib
