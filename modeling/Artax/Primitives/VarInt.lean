import Artax.Util.Serial

/-!
# Variable-length integers

`WriteVarInt`, `ReadVarInt` and `GetSizeOfVarInt` at the integer types they are used with.
-/

namespace Artax

open Util.Serial

/-- An integer type of so many bytes. -/
structure IntegerType where
  size : Nat
  signed : Bool
  positive : 0 < size

namespace IntegerType

/-- `GetSizeOfVarInt`. -/
def getSizeOfVarInt (n : Nat) : Nat := if n ≤ 0x7f then 1 else getSizeOfVarInt (n / 128 - 1) + 1

theorem length_varIntDigits {slots n : Nat} (mark : Nat) (room : n < 128 ^ (slots + 1)) :
    (varIntDigits (slots + 1) mark n).length = getSizeOfVarInt n := by
  induction slots generalizing n mark with
  | zero => rw [varIntDigits, getSizeOfVarInt, if_pos (by omega), if_pos (by omega)]; rfl
  | succ slots ih =>
    have above : n / 128 < 128 ^ (slots + 1) :=
      Nat.div_lt_of_lt_mul (by rwa [Nat.pow_succ'] at room)
    rw [varIntDigits, getSizeOfVarInt, List.length_cons]
    split_ifs
    · rfl
    · rw [ih _ (by omega)]

variable (I : IntegerType)

def max : Nat := 2 ^ (8 * I.size - I.signed.toNat) - 1

/-- `WriteVarInt`. -/
def writeVarInt (n : Nat) : List UInt8 := Util.Serial.writeVarInt (8 * I.size) n

/-- `ReadVarInt`. -/
def readVarInt : Reader Nat := Util.Serial.readVarInt I.max

theorem bits_pos : 0 < 8 * I.size := Nat.mul_pos (by decide) I.positive

theorem max_lt : I.max < 2 ^ (8 * I.size) :=
  lt_of_lt_of_le (Nat.sub_one_lt (Nat.two_pow_pos _).ne') (Nat.pow_le_pow_right (by decide) (Nat.sub_le _ _))

theorem max_mod : I.max % 128 = 127 := by
  obtain ⟨high, bits⟩ : ∃ high, 8 * I.size - I.signed.toNat = high + 7 :=
    ⟨8 * I.size - I.signed.toNat - 7, by have := I.positive; have := I.signed.toNat_le; omega⟩
  have some := Nat.two_pow_pos high
  rw [max, bits, Nat.pow_add]
  omega

variable {I} {J : IntegerType} {n : Nat}

theorem reads_writeVarInt (holds : n ≤ J.max) (fits : n ≤ I.max) :
    Reads I.readVarInt (J.writeVarInt n) n :=
  reads_varInt J.bits_pos (lt_of_le_of_lt holds J.max_lt) fits

/-- Every value of a type is read back from its bytes, nothing but the bytes of a value is read, and
the bytes of a value of another type that does not fit are refused. -/
theorem varInts_have_one_form (I : IntegerType) :
    (∀ n ≤ I.max, Reads I.readVarInt (I.writeVarInt n) n ∧
      (I.writeVarInt n).length = getSizeOfVarInt n) ∧
    (∀ bytes n rest, I.readVarInt.run bytes = some (n, rest) →
      n ≤ I.max ∧ bytes = I.writeVarInt n ++ rest) ∧
    ∀ (J : IntegerType) (n : Nat) (rest : List UInt8), I.max < n → n ≤ J.max →
      I.readVarInt.run (J.writeVarInt n ++ rest) = none := by
  have only : ∀ bytes n rest, I.readVarInt.run bytes = some (n, rest) →
      n ≤ I.max ∧ bytes = I.writeVarInt n ++ rest :=
    fun _ _ _ read => writeVarInt_of_readVarInt I.bits_pos I.max_lt I.max_mod read
  refine ⟨fun n fits => ⟨reads_writeVarInt fits fits, ?_⟩, only, fun J n rest outside holds => ?_⟩
  · have room := lt_of_lt_of_le (lt_of_le_of_lt fits I.max_lt) (two_pow_le_slots (8 * I.size))
    rw [writeVarInt, Util.Serial.writeVarInt, List.length_reverse]
    rw [slots_eq I.bits_pos] at room ⊢
    exact length_varIntDigits 0 room
  · by_contra read
    obtain ⟨⟨m, left⟩, read⟩ := Option.ne_none_iff_exists'.1 read
    obtain ⟨fits, same⟩ := only _ m left read
    -- the wider type reads the same bytes as both values
    have wide := reads_writeVarInt (I := J) fits (by omega) left
    rw [← same, reads_writeVarInt holds holds rest] at wide
    cases wide
    omega

theorem varInts_have_one_form_byte :
    (writeVarInt ⟨1, false, by decide⟩ 255).length = 2 ∧
      (readVarInt ⟨1, false, by decide⟩).run [0x80, 0x7f, 5] = some (255, [5]) ∧
      (readVarInt ⟨1, false, by decide⟩).run [0x81, 0x00] = none := by
  obtain ⟨reads, _, refuses⟩ := varInts_have_one_form ⟨1, false, by decide⟩
  have wide : writeVarInt ⟨2, false, by decide⟩ 256 = [0x81, 0x00] := by decide
  refine ⟨by decide, (reads 255 (by decide)).1 [5], ?_⟩
  rw [← List.append_nil [0x81, 0x00], ← wide]
  exact refuses ⟨2, false, by decide⟩ 256 [] (by decide) (by decide)

end IntegerType

end Artax
