import Mathlib.Tactic.Basic

/-!
# Sequences of checks

Validation code is a sequence of checks, each of which refuses with an error of
its own. A check is a computation in `Except`; the rules here take a sequence
that was passed apart into the conditions it has established.
-/

namespace Artax.Util

variable {ε α β : Type} {condition : Bool} {x : Except ε α}

/-- Refuse with an error unless a condition holds. -/
def require (condition : Bool) (error : ε) : Except ε Unit :=
  if condition then .ok () else .error error

@[simp] theorem require_eq_ok {error : ε} {u : Unit} :
    require condition error = .ok u ↔ condition = true := by
  cases condition <;> simp [require]

/-- A check that is only made under a condition. -/
def whenever (condition : Bool) (check : Except ε Unit) : Except ε Unit :=
  if condition then check else .ok ()

@[simp] theorem whenever_eq_ok {check : Except ε Unit} {u : Unit} :
    whenever condition check = .ok u ↔ (condition = true → check = .ok ()) := by
  cases condition <;> simp [whenever]

@[simp] theorem bind_eq_ok {f : α → Except ε β} {b : β} :
    (x >>= f) = .ok b ↔ ∃ a, x = .ok a ∧ f a = .ok b := by
  cases x <;> simp [bind, Except.bind]

theorem exists_ok (passed : x.toBool) : ∃ a, x = .ok a := by
  cases x with
  | ok a => exact ⟨a, rfl⟩
  | error e => cases passed

theorem toOption_eq_some {a : α} : x.toOption = some a ↔ x = .ok a := by
  cases x <;> simp [Except.toOption]

theorem exists_ok_some {x : Except ε (Option α)} (passed : (x.toOption.bind id).isSome) :
    ∃ a, x = .ok (some a) := by
  obtain ⟨a, found⟩ := Option.isSome_iff_exists.1 passed
  obtain ⟨_, found, rfl⟩ := Option.bind_eq_some_iff.1 found
  exact ⟨a, toOption_eq_some.1 found⟩

end Artax.Util
