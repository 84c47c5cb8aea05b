import Mathlib.Order.Lex
import Mathlib.Data.List.Lex

/-!
# The order of byte strings

Byte strings in lexicographic order, the order of the keys of an ordered store
that compares keys bytewise.
-/

namespace Artax.Util

instance uint8LinearOrder : LinearOrder UInt8 where
  le_refl := UInt8.le_refl
  le_trans := fun _ _ _ => UInt8.le_trans
  le_antisymm := fun _ _ => UInt8.le_antisymm
  le_total := UInt8.le_total
  lt_iff_le_not_ge := fun a b => by
    rw [UInt8.le_iff_toNat_le, UInt8.le_iff_toNat_le, UInt8.lt_iff_toNat_lt]
    omega
  toDecidableLE := inferInstance

theorem head?_of_between {first : UInt8} {low high key : List UInt8} (above : first :: low ≤ key)
    (below : key ≤ first :: high) : key.head? = some first := by
  rw [← not_lt] at above below
  cases key with
  | nil => exact absurd (List.nil_lt_cons first low) above
  | cons byte rest =>
    rw [List.cons_lt_cons_iff, not_or] at above below
    rw [List.head?_cons, le_antisymm (not_lt.1 below.1) (not_lt.1 above.1)]

theorem append_lt_append_iff {front front' back back' : List UInt8}
    (length : front.length = front'.length) :
    front ++ back < front' ++ back' ↔ front < front' ∨ front = front' ∧ back < back' := by
  induction front generalizing front' with
  | nil =>
    cases front' with
    | nil => simp
    | cons byte rest => cases length
  | cons byte rest ih =>
    cases front' with
    | nil => cases length
    | cons byte' rest' =>
      rw [List.cons_append, List.cons_append, List.cons_lt_cons_iff, List.cons_lt_cons_iff,
        ih (Nat.succ.inj length), List.cons.injEq]
      tauto

end Artax.Util
