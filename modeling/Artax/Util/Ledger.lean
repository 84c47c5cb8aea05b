import Mathlib.Algebra.BigOperators.Group.Finset.Piecewise
import Mathlib.Algebra.Order.BigOperators.Group.Finset

/-!
# Ledgers

Balances of finitely many accounts and moves between them. A move never creates
coins, so no balance and no amount moved exceeds the total there was at the
start.
-/

namespace Artax.Util.Ledger

open Finset Function

variable {α : Type} [Fintype α]

def total (l : α → Nat) : Nat := ∑ a, l a

theorem le_total (l : α → Nat) (a : α) : l a ≤ total l :=
  single_le_sum (fun _ _ => Nat.zero_le _) (mem_univ a)

variable [DecidableEq α]

theorem total_update (l : α → Nat) (a : α) (value : Nat) :
    total (update l a value) + l a = total l + value := by
  have split := add_sum_erase univ l (mem_univ a)
  rw [total, sum_update_of_mem (mem_univ a), sdiff_singleton_eq_erase]
  unfold total
  omega

/-- One ledger is another after moving coins between two accounts. -/
structure Moved (before after : α → Nat) (source target : α) (value : Nat) : Prop where
  covered : value ≤ before source
  after_eq : after =
    Function.update (Function.update before source (before source - value)) target
      (Function.update before source (before source - value) target + value)

namespace Moved

variable {before after : α → Nat} {source target : α} {value : Nat}

theorem value_le_total (moved : Moved before after source target value) :
    value ≤ total before :=
  moved.covered.trans (le_total before source)

theorem total_eq (moved : Moved before after source target value) :
    total after = total before := by
  have taken := total_update before source (before source - value)
  have given := total_update (update before source (before source - value)) target
    (update before source (before source - value) target + value)
  rw [← moved.after_eq] at given
  have covered := moved.covered
  omega

omit [Fintype α] in
theorem balance_eq (moved : Moved before after source target value) (a : α) :
    after a + (if source = a then value else 0) = before a + (if target = a then value else 0) := by
  have covered := moved.covered
  rw [moved.after_eq]
  by_cases isTarget : target = a
  · subst isTarget
    rw [update_self, if_pos rfl]
    by_cases isSource : source = target
    · subst isSource
      rw [update_self, if_pos rfl]
      omega
    · rw [update_of_ne (Ne.symm isSource), if_neg isSource, Nat.add_zero]
  · rw [update_of_ne (Ne.symm isTarget), if_neg isTarget]
    by_cases isSource : source = a
    · subst isSource
      rw [update_self, if_pos rfl]
      omega
    · rw [update_of_ne (Ne.symm isSource), if_neg isSource]

end Moved
end Artax.Util.Ledger
