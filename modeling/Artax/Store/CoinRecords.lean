import Artax.Consensus.Coins
import Artax.Store.BlockIndexDB

/-!
# Stored coins

A coin is stored as its height and flags, its amount without the zeros at its end, and its script.
Six forms of scripts are stored as a number below six and a hash or the half of a key.
-/

namespace Artax

open Util.Serial List

/-! ## Amounts -/

def stripZeros : Nat → Nat → Nat × Nat
  | 0, n => (n, 0)
  | times + 1, n =>
    if n % 10 = 0 then ((stripZeros times (n / 10)).1, (stripZeros times (n / 10)).2 + 1) else (n, 0)

/-- `CompressAmount`. -/
def compressAmount (n : Nat) : Nat :=
  if n = 0 then 0
  else
    let (n, e) := stripZeros 9 n
    if e < 9 then (1 + (n / 10 * 9 + n % 10 - 1) * 10 + e) % 2 ^ 64
    else (1 + (n - 1) * 10 + 9) % 2 ^ 64

/-- `DecompressAmount`. -/
def decompressAmount (x : Nat) : Nat :=
  if x = 0 then 0
  else
    let e := (x - 1) % 10
    let x := (x - 1) / 10
    (if e < 9 then x / 9 * 10 + (x % 9 + 1) else x + 1) * 10 ^ e % 2 ^ 64

theorem stripZeros_spec {n : Nat} (times : Nat) (pos : n ≠ 0) :
    (stripZeros times n).1 * 10 ^ (stripZeros times n).2 = n ∧ (stripZeros times n).1 ≠ 0 ∧
      (stripZeros times n).2 ≤ times ∧
      ((stripZeros times n).2 < times → (stripZeros times n).1 % 10 ≠ 0) := by
  induction times generalizing n with
  | zero => exact ⟨Nat.mul_one n, pos, le_rfl, fun none => absurd none (Nat.lt_irrefl 0)⟩
  | succ times ih =>
    rw [stripZeros]
    split
    · rename_i round
      obtain ⟨whole, some, most, last⟩ := ih (n := n / 10) (by omega)
      refine ⟨?_, some, Nat.succ_le_succ most, fun less => last (Nat.lt_of_succ_lt_succ less)⟩
      rw [Nat.pow_succ, ← Nat.mul_assoc, whole]
      omega
    · rename_i digit
      exact ⟨Nat.mul_one n, pos, Nat.zero_le _, fun _ => digit⟩

theorem decompressAmount_compressAmount {n : Nat} (money : n ≤ maxMoney) :
    compressAmount n < 2 ^ 64 ∧ decompressAmount (compressAmount n) = n := by
  have limit : n ≤ 2100000025000000 := Int.ofNat_le.1 money
  unfold compressAmount
  split
  · rename_i zero
    exact ⟨by decide, zero.symm⟩
  · rename_i pos
    obtain ⟨whole, some, most, last⟩ := stripZeros_spec 9 pos
    generalize stripZeros 9 n = stripped at whole some most last
    obtain ⟨m, e⟩ := stripped
    dsimp only at whole some most last ⊢
    have factor : m ≤ m * 10 ^ e := Nat.le_mul_of_pos_right m (Nat.pow_pos (by decide))
    -- the exponent is the last digit, and the other digits give the number back
    have back {y : Nat} (bound : y < 2 ^ 60)
        (number : (if e < 9 then y / 9 * 10 + (y % 9 + 1) else y + 1) = m) :
        (1 + y * 10 + e) % 2 ^ 64 < 2 ^ 64 ∧ decompressAmount ((1 + y * 10 + e) % 2 ^ 64) = n := by
      have exponent : (1 + y * 10 + e - 1) % 10 = e := by omega
      have rest : (1 + y * 10 + e - 1) / 10 = y := by omega
      refine ⟨Nat.mod_lt _ (by decide), ?_⟩
      rw [Nat.mod_eq_of_lt (by omega), decompressAmount, if_neg (by omega), exponent, rest]
      dsimp only
      rw [number, whole]
      omega
    split
    · rename_i fewer
      have digit := last fewer
      refine back (by omega) ?_
      rw [if_pos fewer]
      omega
    · rename_i all
      have nine : e = 9 := by omega
      have number : m - 1 + 1 = m := by omega
      rw [nine] at back
      exact back (by omega) number

/-! ## Scripts -/

/-- What `CPubKey` does with the curve. -/
structure KeyEnv where
  isFullyValid : Bytes → Bool
  decompress : Bytes → Option Bytes

def KeyEnv.Inverts (env : KeyEnv) : Prop :=
  ∀ x y : Bytes, x.length = 32 → y.length = 32 → env.isFullyValid (4 :: (x ++ y)) = true →
    env.decompress ((2 + (y.getD 31 0 &&& 1)) :: x) = some (4 :: (x ++ y))

def CScript.between (front back : Bytes) (size : Nat) (script : CScript) : Option Bytes :=
  if script.length = front.length + size + back.length ∧ script.take front.length = front ∧
      script.drop (front.length + size) = back then some ((script.drop front.length).take size)
  else none

namespace KeyEnv

variable (env : KeyEnv)

/-- `IsToKeyID`. -/
def isToKeyID : CScript → Option Bytes :=
  CScript.between [Op.dup, Op.hash160, 20] [Op.equalVerify, Op.checkSig] 20

/-- `IsToScriptID`. -/
def isToScriptID : CScript → Option Bytes := CScript.between [Op.hash160, 20] [Op.equal] 20

/-- `IsToPubKey`. -/
def isToPubKey (script : CScript) : Option Bytes :=
  ((script.between [33] [Op.checkSig] 33).filter fun pubkey =>
    pubkey.head? == some 2 || pubkey.head? == some 3).or
  ((script.between [65] [Op.checkSig] 65).filter fun pubkey =>
    pubkey.head? == some 4 && env.isFullyValid pubkey)

/-- `CompressScript`. -/
def compressScript (script : CScript) : Option Bytes :=
  match isToKeyID script, isToScriptID script, env.isToPubKey script with
  | some keyID, _, _ => some (0 :: keyID)
  | none, some scriptID, _ => some (1 :: scriptID)
  | none, none, some (first :: rest) =>
    if first = 2 ∨ first = 3 then some (first :: rest.take 32)
    else if first = 4 then some ((4 ||| (rest.getD 63 0 &&& 1)) :: rest.take 32)
    else none
  | none, none, _ => none

def getSpecialScriptSize (nSize : Nat) : Nat := if nSize ≤ 1 then 20 else if nSize ≤ 5 then 32 else 0

/-- `DecompressScript`. -/
def decompressScript (nSize : Nat) (vch : Bytes) : Option CScript :=
  match nSize with
  | 0 => some ([Op.dup, Op.hash160, 20] ++ vch ++ [Op.equalVerify, Op.checkSig])
  | 1 => some ([Op.hash160, 20] ++ vch ++ [Op.equal])
  | 2 | 3 => some ([33, UInt8.ofNat nSize] ++ vch ++ [Op.checkSig])
  | 4 | 5 => (env.decompress (UInt8.ofNat (nSize - 2) :: vch)).map fun pubkey =>
    [65] ++ pubkey ++ [Op.checkSig]
  | _ => none

/-- `CScriptCompressor::Serialize`. -/
def writeScript (script : CScript) : Bytes :=
  (env.compressScript script).getD (writeVarInt 32 (script.length + 6) ++ script)

/-- `CScriptCompressor::Unserialize`. -/
def readScript : Reader CScript := do
  let nSize ← readVarInt (2 ^ 32 - 1)
  if nSize < 6 then
    return (env.decompressScript nSize (← readBytes (getSpecialScriptSize nSize))).getD []
  if maxScriptSize < nSize - 6 then
    let _ ← readBytes (nSize - 6)
    return [Op.ret]
  readBytes (nSize - 6)

variable {env} {script : CScript}

theorem between_eq_some {front back middle : Bytes} {size : Nat}
    (found : script.between front back size = some middle) :
    script = front ++ middle ++ back ∧ middle.length = size := by
  unfold CScript.between at found
  split at found
  · rename_i parts
    obtain ⟨length, starts, ends⟩ := parts
    cases found
    have middle : script.drop front.length = (script.drop front.length).take size ++ back := by
      conv_rhs => rw [← ends, ← drop_drop]
      exact (take_append_drop size _).symm
    refine ⟨?_, by simp; omega⟩
    conv_lhs => rw [← take_append_drop front.length script, starts, middle]
    exact (append_assoc _ _ _).symm
  · cases found

theorem and_one_cases (b : UInt8) : b &&& 1 = 0 ∨ b &&& 1 = 1 := by
  have bit : (b &&& 1).toNat = b.toNat % 2 := by
    rw [UInt8.toNat_and]
    exact Nat.and_one_is_mod _
  rw [← UInt8.toNat_inj, ← UInt8.toNat_inj, bit]
  exact Nat.mod_two_eq_zero_or_one _

theorem compressScript_eq_some (inverts : env.Inverts) {out : Bytes}
    (compressed : env.compressScript script = some out) :
    ∃ nSize payload, nSize < 6 ∧ out = UInt8.ofNat nSize :: payload ∧
      payload.length = getSpecialScriptSize nSize ∧
      env.decompressScript nSize payload = some script := by
  unfold compressScript at compressed
  split at compressed
  · rename_i keyID found
    obtain ⟨rfl, length⟩ := between_eq_some found
    cases compressed
    exact ⟨0, keyID, by decide, rfl, length, rfl⟩
  · rename_i scriptID _ found
    obtain ⟨rfl, length⟩ := between_eq_some found
    cases compressed
    exact ⟨1, scriptID, by decide, rfl, length, rfl⟩
  · rename_i first rest _ _ found
    rcases Option.or_eq_some_iff.1 found with found | ⟨-, found⟩
    · obtain ⟨found, head⟩ := Option.filter_eq_some_iff.1 found
      obtain ⟨rfl, length⟩ := between_eq_some found
      have size : rest.length = 32 := Nat.succ.inj length
      have kind : first = 2 ∨ first = 3 := by simpa using head
      rw [if_pos kind, take_of_length_le size.le] at compressed
      cases compressed
      rcases kind with rfl | rfl
      · exact ⟨2, rest, by decide, rfl, size, rfl⟩
      · exact ⟨3, rest, by decide, rfl, size, rfl⟩
    · obtain ⟨found, head⟩ := Option.filter_eq_some_iff.1 found
      obtain ⟨rfl, length⟩ := between_eq_some found
      have size : rest.length = 64 := Nat.succ.inj length
      obtain ⟨rfl, valid⟩ : first = 4 ∧ env.isFullyValid (first :: rest) := by
        simpa using head
      rw [if_neg (by decide), if_pos rfl] at compressed
      cases compressed
      have half : (rest.take 32).length = 32 := by simp [size]
      have key := inverts (rest.take 32) (rest.drop 32) half (by simp [size])
      rw [take_append_drop, getD_eq_getElem?_getD, getElem?_drop,
        ← getD_eq_getElem?_getD] at key
      rcases and_one_cases (rest.getD 63 0) with even | odd
      · rw [even] at key ⊢
        exact ⟨4, _, by decide, rfl, half, Option.map_eq_some_iff.2 ⟨_, key valid, rfl⟩⟩
      · rw [odd] at key ⊢
        exact ⟨5, _, by decide, rfl, half, Option.map_eq_some_iff.2 ⟨_, key valid, rfl⟩⟩
  · cases compressed

theorem reads_writeScript (inverts : env.Inverts) (short : script.length ≤ maxScriptSize) :
    Reads env.readScript (env.writeScript script) script := by
  have number {n : Nat} (fits : n < 2 ^ 32) :
      Reads (readVarInt (2 ^ 32 - 1)) (writeVarInt 32 n) n :=
    reads_varInt (by decide) fits (by omega)
  unfold writeScript readScript
  cases compressed : env.compressScript script with
  | none =>
    have limit : script.length ≤ 129000 := short
    refine (number (by omega)).bind ?_
    rw [if_neg (by omega), Nat.add_sub_cancel, if_neg (Nat.not_lt.2 short)]
    exact reads_bytes script
  | some out =>
    obtain ⟨nSize, payload, small, rfl, size, back⟩ := compressScript_eq_some inverts compressed
    have first : writeVarInt 32 nSize = [UInt8.ofNat nSize] := by
      change (varIntDigits 5 0 nSize).reverse = _
      rw [varIntDigits, if_pos (by omega), Nat.mod_eq_of_lt (by omega)]
      rfl
    have read := (reads_bytes payload).map fun vch => (env.decompressScript nSize vch).getD []
    rw [back] at read
    change Reads _ ([UInt8.ofNat nSize] ++ payload) script
    rw [← first]
    refine (number (by omega)).bind ?_
    rw [if_pos small, ← size]
    exact read

/-! ## Coins -/

variable (env)

/-- `CTxOutCompressor`. -/
def writeTxOut (out : CTxOut) : Bytes :=
  writeVarInt 64 (compressAmount (out.nValue % 2 ^ 64).toNat) ++ env.writeScript out.scriptPubKey

def readTxOut : Reader CTxOut := do
  let nVal := decompressAmount (← readVarInt (2 ^ 64 - 1))
  return ⟨if nVal < 2 ^ 63 then nVal else nVal - 2 ^ 64, ← env.readScript⟩

def coinCode (coin : Coin) : Nat :=
  (coin.nHeight * 4 + coin.fCoinBase.toNat + 2 * coin.fCoinStake.toNat) % 2 ^ 32

/-- `Coin::Serialize`. -/
def writeCoin (coin : Coin) : Bytes := writeVarInt 32 (coinCode coin) ++ env.writeTxOut coin.out

/-- `Coin::Unserialize`. -/
def readCoin : Reader Coin := do
  let code ← readVarInt (2 ^ 32 - 1)
  return ⟨← env.readTxOut, code % 2 == 1, code / 2 % 2 == 1, code / 4⟩

def writeUndo (coin : Coin) : Bytes :=
  writeVarInt 32 (coinCode coin) ++
    ((if decide (0 < coin.nHeight) then [0] else []) ++ env.writeTxOut coin.out)

def readUndo : Reader Coin := do
  let nCode ← readVarInt (2 ^ 32 - 1)
  let _ ← readIf (decide (0 < nCode / 4)) (readVarInt (2 ^ 32 - 1)) 0
  return ⟨← env.readTxOut, nCode % 2 == 1, nCode / 2 % 2 == 1, nCode / 4⟩

variable {env}

theorem reads_writeTxOut (inverts : env.Inverts) {out : CTxOut} (money : moneyRange out.nValue)
    (short : out.scriptPubKey.length ≤ maxScriptSize) :
    Reads env.readTxOut (env.writeTxOut out) out := by
  obtain ⟨value, script⟩ := out
  rw [moneyRange, Bool.and_eq_true, decide_eq_true_eq, decide_eq_true_eq] at money
  obtain ⟨n, rfl⟩ := Int.eq_ofNat_of_zero_le money.1
  have limit : n ≤ 2100000025000000 := Int.ofNat_le.1 money.2
  obtain ⟨fits, back⟩ := decompressAmount_compressAmount money.2
  have unsigned : ((n : Int) % 2 ^ 64).toNat = n := by omega
  unfold writeTxOut readTxOut
  dsimp only
  rw [unsigned]
  refine (reads_varInt (by decide) fits (by omega)).bind ?_
  rw [back, if_pos (by omega)]
  exact (reads_writeScript inverts short).map _

theorem coinCode_eq {coin : Coin} (height : coin.nHeight < 2 ^ 30) :
    coinCode coin < 2 ^ 32 ∧ coinCode coin / 4 = coin.nHeight ∧
      Coin.mk coin.out (coinCode coin % 2 == 1) (coinCode coin / 2 % 2 == 1) (coinCode coin / 4) =
        coin := by
  obtain ⟨out, base, stake, nHeight⟩ := coin
  refine ⟨Nat.mod_lt _ (by decide), ?_⟩
  have digits (b s : Nat) (hb : b < 2) (hs : s < 2) : (nHeight * 4 + b + 2 * s) % 2 ^ 32 % 2 = b ∧
      (nHeight * 4 + b + 2 * s) % 2 ^ 32 / 2 % 2 = s ∧
      (nHeight * 4 + b + 2 * s) % 2 ^ 32 / 4 = nHeight := by
    dsimp only at height
    omega
  obtain ⟨low, middle, high⟩ := digits base.toNat stake.toNat (Bool.toNat_lt _) (Bool.toNat_lt _)
  unfold coinCode
  rw [low, middle, high]
  cases base <;> cases stake <;> exact ⟨rfl, rfl⟩

/-- A coin in range is read back from its record and from its undo record, amounts survive their
compression, and no two scripts have one form. -/
theorem coin_records_survive (inverts : env.Inverts) :
    (∀ coin : Coin, coin.nHeight < 2 ^ 30 → moneyRange coin.out.nValue →
      coin.out.scriptPubKey.length ≤ maxScriptSize →
      Reads env.readCoin (env.writeCoin coin) coin ∧ Reads env.readUndo (env.writeUndo coin) coin) ∧
    (∀ n : Nat, n ≤ maxMoney → decompressAmount (compressAmount n) = n) ∧
    ∀ left right : CScript, left.length ≤ maxScriptSize → right.length ≤ maxScriptSize →
      env.writeScript left = env.writeScript right → left = right := by
  refine ⟨fun coin height money short => ?_, fun n money =>
    (decompressAmount_compressAmount money).2, fun left right leftShort rightShort same => ?_⟩
  · obtain ⟨fits, high, whole⟩ := coinCode_eq height
    have code : Reads (readVarInt (2 ^ 32 - 1)) (writeVarInt 32 (coinCode coin)) (coinCode coin) :=
      reads_varInt (by decide) fits (by omega)
    have out := reads_writeTxOut inverts money short
    have rest := out.map fun out =>
      Coin.mk out (coinCode coin % 2 == 1) (coinCode coin / 2 % 2 == 1) (coinCode coin / 4)
    rw [whole] at rest
    refine ⟨code.bind rest, code.bind ?_⟩
    have dummy : Reads (readVarInt (2 ^ 32 - 1)) [0] 0 := fun _ => rfl
    rw [high] at rest ⊢
    exact (reads_if _ 0 dummy).bind rest
  · have read := reads_writeScript inverts leftShort
    rw [same] at read
    exact read.unique (reads_writeScript inverts rightShort)

def oneKey : KeyEnv where
  isFullyValid pubkey := pubkey == 4 :: List.replicate 64 7
  decompress pubkey :=
    if pubkey = 3 :: List.replicate 32 7 then some (4 :: List.replicate 64 7) else none

theorem oneKey_survives :
    oneKey.writeScript ([65, 4] ++ replicate 64 7 ++ [Op.checkSig]) =
      5 :: replicate 32 7 ∧
    Reads oneKey.readCoin (oneKey.writeCoin ⟨⟨5 * coin, []⟩, false, true, 7⟩)
      ⟨⟨5 * coin, []⟩, false, true, 7⟩ := by
  have inverts : oneKey.Inverts := by
    intro x y first second valid
    obtain ⟨rfl, rfl⟩ : x = replicate 32 7 ∧ y = replicate 32 7 := by
      have whole : x ++ y = replicate 32 7 ++ replicate 32 7 := by
        simpa [oneKey] using valid
      exact append_inj whole first
    rfl
  exact ⟨by decide +kernel,
    ((coin_records_survive inverts).1 _ (by decide) (by decide +kernel) (by decide)).1⟩

end KeyEnv

end Artax
