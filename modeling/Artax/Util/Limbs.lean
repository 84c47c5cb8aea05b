import Mathlib.Data.Nat.ModEq
import Mathlib.Tactic.Linarith

/-!
# Multiplication of limbs

Numbers as lists of 32-bit limbs, least significant first, and the schoolbook
multiplication that keeps as many limbs as it starts with: the product modulo
the size of the number.
-/

namespace Artax.Util.Limbs

def value : List UInt32 → Nat
  | [] => 0
  | x :: rest => x.toNat + 2 ^ 32 * value rest

def ofNat : Nat → Nat → List UInt32
  | 0, _ => []
  | count + 1, n => UInt32.ofNat n :: ofNat count (n / 2 ^ 32)

def mulRow (p : UInt32) : UInt64 → List UInt32 → List UInt32 → List UInt32
  | carry, x :: a, y :: b =>
    let n := carry + x.toUInt64 + p.toUInt64 * y.toUInt64
    n.toUInt32 :: mulRow p (n >>> 32) a b
  | _, a, _ => a

def mulAdd : List UInt32 → List UInt32 → List UInt32 → List UInt32
  | p :: pn, a, b =>
    match mulRow p 0 a b with
    | [] => []
    | x :: rest => x :: mulAdd pn rest b
  | [], a, _ => a

def mul (pn b : List UInt32) : List UInt32 := mulAdd pn (List.replicate pn.length 0) b

@[simp] theorem length_ofNat (count n : Nat) : (ofNat count n).length = count := by
  induction count generalizing n with
  | zero => rfl
  | succ count ih => simp [ofNat, ih]

theorem value_ofNat (count n : Nat) : value (ofNat count n) = n % 2 ^ (32 * count) := by
  induction count generalizing n with
  | zero => simp [ofNat, value, Nat.mod_one]
  | succ count ih =>
    rw [ofNat, value, ih, Nat.mul_succ, Nat.add_comm (32 * count), Nat.pow_add, Nat.mod_mul]
    simp

theorem value_lt (limbs : List UInt32) : value limbs < 2 ^ (32 * limbs.length) := by
  induction limbs with
  | nil => simp [value]
  | cons x rest ih =>
    have small := x.toNat_lt
    rw [value, List.length_cons, Nat.mul_succ, Nat.add_comm (32 * rest.length), Nat.pow_add]
    have bound : 2 ^ 32 * (value rest + 1) ≤ 2 ^ 32 * 2 ^ (32 * rest.length) :=
      Nat.mul_le_mul_left _ ih
    omega

@[simp] theorem value_replicate_zero (count : Nat) : value (List.replicate count 0) = 0 := by
  induction count with
  | zero => rfl
  | succ count ih => simp [List.replicate_succ, value, ih]

theorem toNat_accumulate {carry : UInt64} (bound : carry.toNat < 2 ^ 32) (x p y : UInt32) :
    (carry + x.toUInt64 + p.toUInt64 * y.toUInt64).toNat =
      carry.toNat + x.toNat + p.toNat * y.toNat := by
  have product : p.toNat * y.toNat ≤ (2 ^ 32 - 1) * (2 ^ 32 - 1) :=
    Nat.mul_le_mul (Nat.le_pred_of_lt p.toNat_lt) (Nat.le_pred_of_lt y.toNat_lt)
  have small := x.toNat_lt
  simp only [UInt64.toNat_add, UInt64.toNat_mul, UInt32.toNat_toUInt64, Nat.mod_add_mod,
    Nat.add_mod_mod]
  exact Nat.mod_eq_of_lt (by omega)

@[simp] theorem length_mulRow (p : UInt32) (carry : UInt64) (a b : List UInt32) :
    (mulRow p carry a b).length = a.length := by
  fun_induction mulRow p carry a b with
  | case1 carry x a y b n ih => simp [ih]
  | case2 => rfl

theorem value_mulRow (p : UInt32) (carry : UInt64) {a b : List UInt32}
    (bound : carry.toNat < 2 ^ 32) (fits : a.length ≤ b.length) :
    value (mulRow p carry a b) ≡ carry.toNat + value a + p.toNat * value b
      [MOD 2 ^ (32 * a.length)] := by
  induction a generalizing carry b with
  | nil => simp [Nat.ModEq, Nat.mod_one]
  | cons x a ih =>
    cases b with
    | nil => cases fits
    | cons y b =>
      have exact' := toNat_accumulate bound x p y
      generalize accumulated : carry + x.toUInt64 + p.toUInt64 * y.toUInt64 = n at exact'
      have low : n.toUInt32.toNat = n.toNat % 2 ^ 32 := by simp
      have high : (n >>> 32).toNat = n.toNat / 2 ^ 32 := by
        simp [UInt64.toNat_shiftRight, Nat.shiftRight_eq_div_pow]
      have small : (n >>> 32).toNat < 2 ^ 32 := by
        have := n.toNat_lt
        omega
      have rest := (ih (n >>> 32) small (Nat.le_of_succ_le_succ fits)).mul_left' (2 ^ 32)
      have width : 2 ^ 32 * 2 ^ (32 * a.length) = 2 ^ (32 * (x :: a).length) := by
        rw [List.length_cons, Nat.mul_succ, Nat.add_comm (32 * a.length), Nat.pow_add]
      rw [width] at rest
      simp only [mulRow, accumulated, value, low]
      have division := Nat.mod_add_div n.toNat (2 ^ 32)
      have same : n.toNat % 2 ^ 32 +
          2 ^ 32 * ((n >>> 32).toNat + value a + p.toNat * value b) =
          carry.toNat + (x.toNat + 2 ^ 32 * value a) + p.toNat * (y.toNat + 2 ^ 32 * value b) := by
        rw [high, Nat.mul_add p.toNat, Nat.mul_left_comm p.toNat]
        omega
      exact same ▸ rest.add_left (n.toNat % 2 ^ 32)

theorem value_mulAdd (pn : List UInt32) {a b : List UInt32} (fits : a.length ≤ b.length) :
    value (mulAdd pn a b) ≡ value a + value pn * value b [MOD 2 ^ (32 * a.length)] := by
  induction pn generalizing a with
  | nil => simp [mulAdd, value, Nat.ModEq]
  | cons p pn ih =>
    have row := value_mulRow p 0 (by decide) fits
    have length := length_mulRow p 0 a b
    cases split : mulRow p 0 a b with
    | nil =>
      rw [split] at length
      simp [← length, Nat.ModEq, Nat.mod_one]
    | cons x rest =>
      rw [split, List.length_cons] at length
      rw [split, value] at row
      have later := (ih (a := rest) (by omega)).mul_left' (2 ^ 32)
      have width : 2 ^ 32 * 2 ^ (32 * rest.length) = 2 ^ (32 * a.length) := by
        rw [← length, Nat.mul_succ, Nat.add_comm (32 * rest.length), Nat.pow_add]
      rw [width] at later
      simp only [mulAdd, split, value]
      calc x.toNat + 2 ^ 32 * value (mulAdd pn rest b)
          ≡ x.toNat + 2 ^ 32 * (value rest + value pn * value b) [MOD 2 ^ (32 * a.length)] :=
            later.add_left _
        _ = x.toNat + 2 ^ 32 * value rest + 2 ^ 32 * (value pn * value b) := by
            rw [Nat.mul_add, Nat.add_assoc]
        _ ≡ (0 : UInt64).toNat + value a + p.toNat * value b + 2 ^ 32 * (value pn * value b)
            [MOD 2 ^ (32 * a.length)] := row.add_right _
        _ = value a + (p.toNat + 2 ^ 32 * value pn) * value b := by
            rw [Nat.add_mul, Nat.mul_assoc]
            simp [Nat.add_assoc]

@[simp] theorem length_mulAdd (pn a b : List UInt32) : (mulAdd pn a b).length = a.length := by
  induction pn generalizing a with
  | nil => rfl
  | cons p pn ih =>
    have length := length_mulRow p 0 a b
    cases split : mulRow p 0 a b with
    | nil => simpa [mulAdd, split] using length
    | cons x rest => simpa [mulAdd, split, ih] using length

theorem value_mul {pn b : List UInt32} (fits : pn.length ≤ b.length) :
    value (mul pn b) = value pn * value b % 2 ^ (32 * pn.length) := by
  have product := value_mulAdd pn (a := List.replicate pn.length 0) (b := b)
    (by simpa using fits)
  have small := value_lt (mul pn b)
  simp only [mul, length_mulAdd, List.length_replicate, value_replicate_zero, Nat.zero_add] at *
  rw [← Nat.mod_eq_of_lt small]
  exact product

end Artax.Util.Limbs
