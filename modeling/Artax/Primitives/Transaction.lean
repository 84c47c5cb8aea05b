import Mathlib.Order.Fin.Basic
import Mathlib.Tactic.Linarith
import Artax.Util.BigEndian

/-!
# Amounts, scripts and transactions

Satoshi amounts, byte strings, the opcodes that carry contract data, and transactions without the
witness. Hashes are natural numbers, so that the ideal assumption that hashing loses nothing is
satisfiable. Addresses and `u256` words keep their widths.
-/

namespace Artax

/-- A 256-bit hash value, `uint256` on the chain side and `dev::h256` on the contract side. -/
abbrev H256 := Nat

/-- A machine word of the virtual machine; arithmetic wraps at `2 ^ 256`. -/
abbrev U256 := BitVec 256

/-- A 160-bit account address, ordered as its big-endian bytes are. -/
abbrev Address := Fin (2 ^ 160)

instance Address.neZero : NeZero (2 ^ 160) := ⟨by decide⟩

instance Address.lawfulBEq : LawfulBEq Address := inferInstance

def Address.asBytes (address : Address) : Bytes := bigEndian 20 address.val

@[simp] theorem Address.asBytes_length (address : Address) :
    (Address.asBytes address).length = 20 := bigEndian_length 20 address.val

theorem Address.asBytes_injective {left right : Address}
    (same : Address.asBytes left = Address.asBytes right) : left = right := by
  have decoded := congrArg ofBigEndian same
  have width : (2 : Nat) ^ 160 = 256 ^ 20 := by decide
  have leftFits : left.val < 256 ^ 20 := lt_of_lt_of_eq left.isLt width
  have rightFits : right.val < 256 ^ 20 := lt_of_lt_of_eq right.isLt width
  rw [Address.asBytes, Address.asBytes, ofBigEndian_bigEndian 20 _ leftFits,
    ofBigEndian_bigEndian 20 _ rightFits] at decoded
  exact Fin.ext decoded

def Address.ofBytes (bytes : Bytes) : Address :=
  if bytes.length = 20 then Fin.ofNat (2 ^ 160) (ofBigEndian bytes) else 0

theorem Address.asBytes_ofBytes {bytes : Bytes} (twenty : bytes.length = 20) :
    Address.asBytes (Address.ofBytes bytes) = bytes := by
  have fits : ofBigEndian bytes < 2 ^ 160 := by
    have bound := ofBigEndian_lt bytes
    rw [twenty] at bound
    exact bound
  rw [Address.asBytes, Address.ofBytes, if_pos twenty]
  change bigEndian 20 (ofBigEndian bytes % 2 ^ 160) = bytes
  rw [Nat.mod_eq_of_lt fits]
  exact twenty ▸ bigEndian_ofBigEndian bytes

theorem Address.ofBytes_asBytes (address : Address) : Address.ofBytes (Address.asBytes address) = address :=
  Address.asBytes_injective (Address.asBytes_ofBytes (Address.asBytes_length address))

abbrev CAmount := Int

def coin : CAmount := 100000000

def cent : CAmount := 1000000

def maxMoney : CAmount := 21000000 * coin + 25 * cent

/-- `MoneyRange`. -/
def moneyRange (nValue : CAmount) : Bool := 0 ≤ nValue && nValue ≤ maxMoney

theorem moneyRange_iff (nValue : CAmount) :
    moneyRange nValue ↔ 0 ≤ nValue ∧ nValue ≤ maxMoney := by
  simp [moneyRange]

abbrev CScript := Bytes

structure COutPoint where
  hash : H256
  n : UInt32
  deriving DecidableEq, Repr, Inhabited

def COutPoint.isNull (outpoint : COutPoint) : Bool :=
  outpoint.hash == 0 && outpoint.n == 0xffffffff

structure CTxIn where
  prevout : COutPoint
  scriptSig : CScript
  nSequence : UInt32 := 0xffffffff
  deriving DecidableEq, Repr, Inhabited

structure CTxOut where
  nValue : CAmount
  scriptPubKey : CScript
  deriving DecidableEq, Repr, Inhabited

def CTxOut.isEmpty (txout : CTxOut) : Bool := txout.nValue == 0 && txout.scriptPubKey.isEmpty

structure CTransaction where
  vin : List CTxIn := []
  vout : List CTxOut := []
  nVersion : Int := 2
  nLockTime : UInt32 := 0
  deriving DecidableEq, Repr, Inhabited

namespace CTransaction

variable (tx : CTransaction)

def isNull : Bool := tx.vin.isEmpty && tx.vout.isEmpty

/-- `CTransaction::GetHash`: the computed hash, except that the default-constructed
transaction keeps the zero hash it was initialised with. -/
def getHash (computeHash : CTransaction → H256) (tx : CTransaction) : H256 :=
  if tx.isNull then 0 else computeHash tx

/-- `IsCoinBase`. -/
def isCoinBase : Bool :=
  match tx.vin with
  | [txin] => txin.prevout.isNull && decide (1 ≤ tx.vout.length)
  | _ => false

/-- `IsCoinStake`. -/
def isCoinStake : Bool :=
  match tx.vin, tx.vout with
  | txin :: _, first :: _ :: _ => !txin.prevout.isNull && first.isEmpty
  | _, _ => false

/-- The accumulation loop of `CTransaction::GetValueOut`, `none` where it throws. -/
def sumValueOut : List CTxOut → CAmount → Option CAmount
  | [], nValueOut => some nValueOut
  | txout :: rest, nValueOut =>
    let nValueOut := nValueOut + txout.nValue
    if moneyRange txout.nValue && moneyRange nValueOut then sumValueOut rest nValueOut else none

def getValueOut : Option CAmount := sumValueOut tx.vout 0

def valueOut : CAmount := (tx.vout.map CTxOut.nValue).sum

end CTransaction
end Artax
