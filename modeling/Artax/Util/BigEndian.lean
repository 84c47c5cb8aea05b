import Mathlib.Data.List.Induction
import Mathlib.Algebra.Ring.Nat
import Artax.Util.ByteOrder

/-!
# Numbers as bytes, most significant first

Of a fixed width, the encoding is the inverse of the decoding, and its order is
that of the numbers.
-/

namespace Artax

open List UInt8

abbrev Bytes := List UInt8

def bigEndian : Nat → Nat → Bytes
  | 0, _ => []
  | width + 1, value => bigEndian width (value / 256) ++ [UInt8.ofNat value]

/-- Encoding uses exactly the requested width. -/
@[simp] theorem bigEndian_length (width value : Nat) : (bigEndian width value).length = width := by
  induction width generalizing value with
  | zero => rfl
  | succ width ih => simp [bigEndian, ih]

def ofBigEndian (bytes : Bytes) : Nat :=
  bytes.foldl (fun value byte => value * 256 + byte.toNat) 0

theorem ofBigEndian_bigEndian (width value : Nat) (fits : value < 256 ^ width) :
    ofBigEndian (bigEndian width value) = value := by
  induction width generalizing value with
  | zero =>
    have : value = 0 := by simpa using fits
    simp [this, bigEndian, ofBigEndian]
  | succ width ih =>
    have quotient : value / 256 < 256 ^ width := by
      rw [Nat.div_lt_iff_lt_mul (by decide)]
      simpa [Nat.pow_succ] using fits
    have decoded := ih (value / 256) quotient
    simp only [bigEndian, ofBigEndian, foldl_append, foldl_cons, foldl_nil] at *
    rw [decoded, toNat_ofNat']
    exact Nat.div_add_mod' value 256

variable (bytes : Bytes)

theorem ofBigEndian_append (byte : UInt8) :
    ofBigEndian (bytes ++ [byte]) = ofBigEndian bytes * 256 + byte.toNat := by
  simp [ofBigEndian]

theorem ofBigEndian_lt : ofBigEndian bytes < 256 ^ bytes.length := by
  induction bytes using reverseRecOn with
  | nil => decide
  | append_singleton bytes byte ih =>
    have small := byte.toNat_lt
    rw [ofBigEndian_append, length_append, length_singleton, Nat.pow_succ]
    omega

theorem bigEndian_ofBigEndian : bigEndian bytes.length (ofBigEndian bytes) = bytes := by
  induction bytes using reverseRecOn with
  | nil => rfl
  | append_singleton bytes byte ih =>
    have small := byte.toNat_lt
    have quotient : (ofBigEndian bytes * 256 + byte.toNat) / 256 = ofBigEndian bytes := by omega
    have remainder : UInt8.ofNat (ofBigEndian bytes * 256 + byte.toNat) = byte := by
      apply UInt8.toNat_inj.1
      rw [UInt8.toNat_ofNat']
      omega
    rw [length_append, length_singleton, bigEndian, ofBigEndian_append, quotient, ih,
      remainder]

theorem bigEndian_lt_iff {width left right : Nat} (leftFits : left < 256 ^ width)
    (rightFits : right < 256 ^ width) :
    bigEndian width left < bigEndian width right ↔ left < right := by
  induction width generalizing left right with
  | zero =>
    rw [Nat.pow_zero, Nat.lt_one_iff] at leftFits rightFits
    rw [leftFits, rightFits]
    simp
  | succ width ih =>
    have high {n : Nat} (fits : n < 256 ^ (width + 1)) : n / 256 < 256 ^ width := by
      rw [Nat.div_lt_iff_lt_mul (by decide)]
      exact fits
    have same : bigEndian width (left / 256) = bigEndian width (right / 256) ↔
        left / 256 = right / 256 := by
      constructor
      · intro equal
        have decoded := congrArg ofBigEndian equal
        rwa [ofBigEndian_bigEndian _ _ (high leftFits), ofBigEndian_bigEndian _ _ (high rightFits)]
          at decoded
      · exact congrArg _
    have last : [ofNat left] < [ofNat right] ↔ left % 256 < right % 256 := by
      rw [cons_lt_cons_iff, lt_iff_toNat_lt, toNat_ofNat', toNat_ofNat']
      simp
    rw [bigEndian, bigEndian, Util.append_lt_append_iff (by simp), ih (high leftFits) (high rightFits),
      same, last]
    omega

end Artax
