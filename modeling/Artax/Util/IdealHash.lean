import Mathlib.Data.Countable.Defs
import Mathlib.Data.Nat.Pairing
import Mathlib.Data.List.Nodup
import Artax.Util.Merkle

/-!
# Ideal hashes

Injective hash functions into the natural numbers exist for every countable type. The one here can be
evaluated on a list of known elements; its values are odd, those of the pair function even.
-/

namespace Artax.Util

variable {α : Type} [Countable α] [DecidableEq α]

noncomputable def idealHash (first : Nat) (known : List α) (x : α) : Nat :=
  if x ∈ known then 2 * (first + known.idxOf x) + 1
  else 2 * (first + known.length + (exists_injective_nat α).choose x) + 1

theorem idealHash_injective (first : Nat) (known : List α) :
    Function.Injective (idealHash first known) := by
  intro x y same
  unfold idealHash at same
  split at same <;> split at same <;> rename_i left right
  · have index : known.idxOf x = known.idxOf y := by omega
    exact (List.idxOf_inj left).1 index
  · have bound := List.idxOf_lt_length_of_mem left
    omega
  · have bound := List.idxOf_lt_length_of_mem right
    omega
  · have number : (exists_injective_nat α).choose x = (exists_injective_nat α).choose y := by omega
    exact (exists_injective_nat α).choose_spec number

def idealPair (left right : Nat) : Nat := 2 * Nat.pair left right

theorem joins_idealPair : Merkle.Joins idealPair := by
  intro a b c d same
  have pairs : Nat.pair a b = Nat.pair c d := by
    unfold idealPair at same
    omega
  exact Nat.pair_eq_pair.1 pairs

theorem idealHash_ne_idealPair (first : Nat) (known : List α) (x : α) (left right : Nat) :
    idealHash first known x ≠ idealPair left right := by
  unfold idealHash idealPair
  split <;> omega

end Artax.Util
