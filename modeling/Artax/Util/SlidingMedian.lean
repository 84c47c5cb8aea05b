import Mathlib.Data.List.Sort

/-!
# Medians of a sliding window

The upper median of a list is at least a bound exactly when no more than half of the list is below
it. A window that takes in values not below its median has a median that does not fall.
-/

namespace Artax.Util

open List

variable {α : Type*} [LinearOrder α]

def median? (values : List α) : Option α := (values.insertionSort (· ≤ ·))[values.length / 2]?

variable {values : List α}

theorem median?_isSome (some : values ≠ []) : (median? values).isSome := by
  have middle : values.length / 2 < (values.insertionSort (· ≤ ·)).length := by
    rw [length_insertionSort]
    exact Nat.div_lt_self (length_pos_iff.2 some) Nat.one_lt_two
  rw [median?, getElem?_eq_getElem middle]
  rfl

theorem le_getElem_iff_countP (sorted : values.Pairwise (· ≤ ·)) {k : Nat} {m : α}
    (found : values[k]? = some m) (bound : α) :
    bound ≤ m ↔ values.countP (fun x => decide (x < bound)) ≤ k := by
  induction values generalizing k with
  | nil => cases found
  | cons x rest ih =>
    obtain ⟨above, sorted⟩ := pairwise_cons.1 sorted
    by_cases below : x < bound
    · rw [countP_cons_of_pos (by simpa using below)]
      cases k with
      | zero =>
        obtain rfl : x = m := by simpa using found
        simp [not_le.2 below]
      | succ k =>
        rw [ih sorted (by simpa using found)]
        omega
    · -- the list starts at the bound or above it, so nothing is below
      have none : rest.countP (fun x => decide (x < bound)) = 0 := by
        rw [countP_eq_zero]
        intro y member
        have high : bound ≤ y := (not_lt.1 below).trans (above y member)
        simpa using high
      rw [countP_cons_of_neg (by simpa using below), none]
      refine iff_of_true ?_ (Nat.zero_le _)
      cases k with
      | zero =>
        obtain rfl : x = m := by simpa using found
        exact not_lt.1 below
      | succ k =>
        have member : m ∈ rest := mem_of_getElem? (by simpa using found)
        exact (not_lt.1 below).trans (above m member)

theorem le_median_iff {m : α} (found : median? values = some m) (bound : α) :
    bound ≤ m ↔ values.countP (fun x => decide (x < bound)) ≤ values.length / 2 := by
  rw [le_getElem_iff_countP (pairwise_insertionSort _ values) found bound,
    (perm_insertionSort (· ≤ ·) values).countP_eq]

theorem median_take_cons {n : Nat} {m m' value : α} (before : median? (values.take n) = some m)
    (after : median? ((value :: values).take n) = some m') (late : m ≤ value) : m ≤ m' := by
  rw [le_median_iff after]
  have half := (le_median_iff before m).1 (le_refl m)
  cases n with
  | zero => cases before
  | succ n =>
    have fewer : (values.take n).countP (fun x => decide (x < m)) ≤
        (values.take (n + 1)).countP (fun x => decide (x < m)) :=
      (take_sublist_take_left (Nat.le_succ n)).countP_le
    have longer : (values.take (n + 1)).length ≤ ((value :: values).take (n + 1)).length := by
      simp only [length_take, length_cons]
      omega
    rw [take_succ_cons, countP_cons_of_neg (by simpa using late)]
    have halves := Nat.div_le_div_right (c := 2) longer
    rw [take_succ_cons] at halves
    omega

end Artax.Util
