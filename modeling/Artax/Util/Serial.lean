import Mathlib.Tactic.Ring

/-!
# Reading what was written

Readers take a value from the front of a byte string and leave the rest. In the variable-length
integers every base-128 digit but the last is marked and counts one more than it says, so no number
has two forms.
-/

namespace Artax.Util.Serial

/-- A reader of a value from the front of a byte string; it may fail. -/
abbrev Reader (α : Type) := StateT (List UInt8) Option α

variable {α β : Type}

/-- A reader takes exactly these bytes as this value, whatever comes after them. -/
def Reads (read : Reader α) (bytes : List UInt8) (value : α) : Prop :=
  ∀ rest, read.run (bytes ++ rest) = some (value, rest)

theorem reads_pure (value : α) : Reads (pure value) [] value := fun _ => rfl

variable {read : Reader α} {a : α} {bytes rest : List UInt8} {max high n slots width : Nat}

theorem Reads.bind {next : α → Reader β} {front back : List UInt8} {b : β}
    (first : Reads read front a) (second : Reads (next a) back b) :
    Reads (read >>= next) (front ++ back) b := by
  intro rest
  rw [StateT.run_bind, List.append_assoc, first]
  exact second rest

theorem Reads.map (first : Reads read bytes a) (f : α → β) : Reads (f <$> read) bytes (f a) := by
  intro rest
  rw [StateT.run_map, first]
  rfl

theorem Reads.unique {b : α} (first : Reads read bytes a) (second : Reads read bytes b) : a = b :=
  congrArg Prod.fst (Option.some.inj ((first []).symm.trans (second [])))

theorem mapM_map_eq_some {write : α → β} {read : β → Option α} {l : List α}
    (reads : ∀ a ∈ l, read (write a) = some a) : (l.map write).mapM read = some l := by
  induction l with
  | nil => rfl
  | cons a rest ih =>
    rw [List.forall_mem_cons] at reads
    simp [reads.1, ih reads.2]

def readBytes (width : Nat) : Reader (List UInt8) := fun bytes =>
  if bytes.length < width then none else some (bytes.take width, bytes.drop width)

theorem reads_bytes (bytes : List UInt8) : Reads (readBytes bytes.length) bytes bytes := by
  intro rest
  change (if (bytes ++ rest).length < bytes.length then none else _) = _
  rw [if_neg (by simp), List.take_left, List.drop_left]

/-- A value that is there only under a condition. -/
def readIf (present : Bool) (read : Reader α) (absent : α) : Reader α :=
  if present then read else pure absent

theorem reads_if (present : Bool) (absent : α) (first : Reads read bytes a) :
    Reads (readIf present read absent) (if present then bytes else []) (if present then a else absent) := by
  cases present
  · exact reads_pure absent
  · exact first

/-! ## Variable-length integers -/

/-- The digits of a number, least significant first. All but the first are marked. The number of slots
bounds the loop. -/
def varIntDigits : Nat → Nat → Nat → List UInt8
  | 0, _, _ => []
  | slots + 1, mark, n =>
    UInt8.ofNat (n % 128 + mark) ::
      if n ≤ 0x7f then [] else varIntDigits slots 128 (n / 128 - 1)

def writeVarInt (width n : Nat) : List UInt8 := (varIntDigits ((width + 6) / 7) 0 n).reverse

def readDigits (max : Nat) : Nat → List UInt8 → Option (Nat × List UInt8)
  | _, [] => none
  | n, chData :: rest =>
    if max / 128 < n then none
    else
      let n := n * 128 + chData.toNat % 128
      if 128 ≤ chData.toNat then
        if n = max then none else readDigits max (n + 1) rest
      else some (n, rest)

def readVarInt (max : Nat) : Reader Nat := readDigits max 0

theorem readDigits_marked (fits : n < max) (digits : n / 128 = high) (rest : List UInt8) :
    readDigits max high (UInt8.ofNat (n % 128 + 128) :: rest) = readDigits max (n + 1) rest := by
  have byte : (UInt8.ofNat (n % 128 + 128)).toNat = n % 128 + 128 := by
    rw [UInt8.toNat_ofNat']
    omega
  have whole : high * 128 + (n % 128 + 128) % 128 = n := by omega
  rw [readDigits, if_neg (by omega)]
  simp only [byte, whole]
  rw [if_pos (by omega), if_neg (by omega)]

theorem readDigits_last (fits : n ≤ max) (digits : n / 128 = high) (rest : List UInt8) :
    readDigits max high (UInt8.ofNat (n % 128 + 0) :: rest) = some (n, rest) := by
  have byte : (UInt8.ofNat (n % 128 + 0)).toNat = n % 128 := by
    rw [UInt8.toNat_ofNat']
    omega
  have whole : high * 128 + n % 128 % 128 = n := by omega
  rw [readDigits, if_neg (by omega)]
  simp only [byte, whole]
  rw [if_neg (by omega)]

theorem varIntDigits_succ (slots mark : Nat) (room : n < 128 ^ (slots + 1)) :
    varIntDigits (slots + 2) mark n = varIntDigits (slots + 1) mark n := by
  induction slots generalizing n mark with
  | zero => simp only [varIntDigits, ite_self, if_pos (show n ≤ 0x7f by omega)]
  | succ slots ih =>
    have above : n / 128 < 128 ^ (slots + 1) :=
      Nat.div_lt_of_lt_mul (by rwa [Nat.pow_succ'] at room)
    rw [varIntDigits, ih _ (by omega)]
    rfl

/-- What is written ahead of a digit for the number above it. -/
def markedDigits (slots high : Nat) : List UInt8 :=
  if high = 0 then [] else (varIntDigits slots 128 (high - 1)).reverse

theorem reverse_varIntDigits (room : n < 128 ^ (slots + 1)) (mark : Nat) :
    (varIntDigits (slots + 1) mark n).reverse =
      markedDigits (slots + 1) (n / 128) ++ [UInt8.ofNat (n % 128 + mark)] := by
  rw [varIntDigits, List.reverse_cons, markedDigits]
  by_cases small : n ≤ 0x7f
  · rw [if_pos small, if_pos (by omega)]
    rfl
  · have above : n / 128 < 128 ^ slots := Nat.div_lt_of_lt_mul (by rwa [Nat.pow_succ'] at room)
    rw [if_neg small, if_neg (by omega)]
    cases slots with
    | zero => omega
    | succ slots => rw [varIntDigits_succ slots 128 (by omega)]

theorem markedDigits_succ (room : n < 128 ^ (slots + 1)) :
    markedDigits (slots + 1) (n + 1) =
      markedDigits (slots + 1) (n / 128) ++ [UInt8.ofNat (n % 128 + 128)] :=
  reverse_varIntDigits room 128

theorem readDigits_markedDigits (room : high ≤ 128 ^ (slots + 1)) (fits : high ≤ max)
    (rest : List UInt8) :
    readDigits max 0 (markedDigits (slots + 1) high ++ rest) = readDigits max high rest := by
  induction high using Nat.strongRecOn generalizing rest with
  | _ high ih =>
    cases high with
    | zero => rfl
    | succ n =>
      rw [markedDigits_succ room, List.append_assoc, ih (n / 128) (by omega) (by omega) (by omega)]
      exact readDigits_marked fits rfl rest

theorem markedDigits_of_readDigits (room : max < 128 ^ (slots + 1)) (whole : max % 128 = 127)
    (read : readDigits max high bytes = some (n, rest)) : n ≤ max ∧
      markedDigits (slots + 1) high ++ bytes = (varIntDigits (slots + 1) 0 n).reverse ++ rest := by
  induction bytes generalizing high with
  | nil => cases read
  | cons chData bytes ih =>
    have byte := chData.toNat_lt
    rw [readDigits] at read
    dsimp only at read
    have high_eq : (high * 128 + chData.toNat % 128) / 128 = high := by omega
    split_ifs at read with large marked full
    · have low_eq : (high * 128 + chData.toNat % 128) % 128 + 128 = chData.toNat := by omega
      obtain ⟨fits, same⟩ := ih read
      rw [markedDigits_succ (by omega), high_eq, low_eq, UInt8.ofNat_toNat, List.append_assoc] at same
      exact ⟨fits, same⟩
    · have low_eq : (high * 128 + chData.toNat % 128) % 128 + 0 = chData.toNat := by omega
      cases read
      refine ⟨by omega, ?_⟩
      rw [reverse_varIntDigits (by omega), high_eq, low_eq, UInt8.ofNat_toNat, List.append_assoc]
      rfl

theorem two_pow_le_slots (width : Nat) : 2 ^ width ≤ 128 ^ ((width + 6) / 7) := by
  calc 2 ^ width ≤ 2 ^ (7 * ((width + 6) / 7)) := Nat.pow_le_pow_right (by omega) (by omega)
    _ = 128 ^ ((width + 6) / 7) := by rw [Nat.pow_mul]

theorem slots_eq (bits : 0 < width) : (width + 6) / 7 = (width - 1) / 7 + 1 := by
  omega

theorem reads_varInt (bits : 0 < width) (holds : n < 2 ^ width) (fits : n ≤ max) :
    Reads (readVarInt max) (writeVarInt width n) n := by
  intro rest
  have room := lt_of_lt_of_le holds (two_pow_le_slots width)
  unfold writeVarInt
  rw [slots_eq bits] at room ⊢
  rw [reverse_varIntDigits room, List.append_assoc]
  change readDigits max 0 _ = _
  rw [readDigits_markedDigits (by omega) (by omega)]
  exact readDigits_last fits rfl rest

theorem writeVarInt_of_readVarInt (bits : 0 < width) (holds : max < 2 ^ width)
    (whole : max % 128 = 127) (read : (readVarInt max).run bytes = some (n, rest)) :
    n ≤ max ∧ bytes = writeVarInt width n ++ rest := by
  have room := lt_of_lt_of_le holds (two_pow_le_slots width)
  unfold writeVarInt
  rw [slots_eq bits] at room ⊢
  exact markedDigits_of_readDigits room whole read

end Artax.Util.Serial
