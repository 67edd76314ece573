import Mathlib.Data.List.Basic

/-! Writes to a sink that can fail in the middle. -/
namespace Outbound.Lib

variable {α ε : Type*}

inductive WriteEnd (ε : Type*) where
  | ok
  | fail (count : ℕ) (e : ε)
deriving DecidableEq

namespace WriteEnd

def taken : WriteEnd ε → List α → List α
  | .ok, p => p
  | .fail count _, p => p.take count

def err : WriteEnd ε → Option ε
  | .ok => none
  | .fail _ e => some e

@[simp] theorem taken_ok (p : List α) : (ok : WriteEnd ε).taken p = p := rfl

@[simp] theorem err_ok : (ok : WriteEnd ε).err = none := rfl

@[simp] theorem taken_fail (count : ℕ) (e : ε) (p : List α) :
    (fail count e).taken p = p.take count := rfl

@[simp] theorem err_fail (count : ℕ) (e : ε) : (fail count e).err = some e := rfl

theorem taken_prefix (w : WriteEnd ε) (p : List α) : w.taken p <+: p := by
  cases w with
  | ok => exact List.prefix_refl p
  | fail count e => exact List.take_prefix count p

end WriteEnd

end Outbound.Lib
