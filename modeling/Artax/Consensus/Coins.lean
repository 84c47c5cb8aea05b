import Artax.Consensus.Params
import Artax.Consensus.TxVerify

/-!
# Coins and the checks against them

The unspent outputs as a map from outpoints to coins, the effect of a transaction on it with the undo
record it leaves, and `CheckTxInputs`. A coin view is what `GetCoin` answers.
-/

namespace Artax

open Util (require)

structure Coin where
  out : CTxOut
  fCoinBase : Bool
  fCoinStake : Bool
  nHeight : Nat
  deriving DecidableEq, Repr

def Coin.empty : Coin := ⟨⟨-1, []⟩, false, false, 0⟩

def Coin.isSpent (c : Coin) : Bool := c.out.nValue == -1

abbrev CoinsView := COutPoint → Option Coin

namespace CoinsView

variable (view : CoinsView)

def accessCoin (outpoint : COutPoint) : Coin := (view outpoint).getD .empty

def haveCoin (outpoint : COutPoint) : Bool :=
  (view outpoint).any fun c => !c.isSpent

/-- `CCoinsViewCache::HaveInputs`. -/
def haveInputs (tx : CTransaction) : Bool :=
  tx.isCoinBase || tx.vin.all fun txin => haveCoin view txin.prevout

def valueOf (vin : List CTxIn) : CAmount :=
  (vin.map fun txin => (accessCoin view txin.prevout).out.nValue).sum

/-- `CCoinsViewCache::GetValueIn`. -/
def getValueIn (tx : CTransaction) : CAmount :=
  if tx.isCoinBase then 0 else valueOf view tx.vin

def spendCoin (outpoint : COutPoint) : CoinsView :=
  Function.update view outpoint none

def addCoin (outpoint : COutPoint) (c : Coin) : CoinsView :=
  if c.out.scriptPubKey.isUnspendable then view else Function.update view outpoint (some c)

def spendInputs : List CTxIn → CoinsView → CoinsView × List Coin
  | [], view => (view, [])
  | txin :: rest, view =>
    let (after, undo) := spendInputs rest (spendCoin view txin.prevout)
    (after, accessCoin view txin.prevout :: undo)

def addOutputs (txid : H256) (coinOf : CTxOut → Coin) : List (CTxOut × Nat) → CoinsView → CoinsView
  | [], view => view
  | (txout, i) :: rest, view =>
    addOutputs txid coinOf rest (addCoin view ⟨txid, UInt32.ofNat i⟩ (coinOf txout))

end CoinsView

def CTransaction.coinOf (tx : CTransaction) (nHeight : Nat) (txout : CTxOut) : Coin :=
  ⟨txout, tx.isCoinBase, tx.isCoinStake, nHeight % 2 ^ 30⟩

namespace CoinsView

def addCoins (computeHash : CTransaction → H256) (view : CoinsView) (tx : CTransaction)
    (nHeight : Nat) : CoinsView :=
  addOutputs (tx.getHash computeHash) (tx.coinOf nHeight) tx.vout.zipIdx view

/-- `UpdateCoins`: the view after a transaction and its `CTxUndo`. That every input is there to be
spent is checked before. -/
def updateCoins (computeHash : CTransaction → H256) (view : CoinsView) (tx : CTransaction)
    (nHeight : Nat) : CoinsView × List Coin :=
  if tx.isCoinBase then (addCoins computeHash view tx nHeight, [])
  else
    let (spent, undo) := spendInputs tx.vin view
    (addCoins computeHash spent tx nHeight, undo)

def checkInputValues (view : CoinsView) (nSpendHeight : Nat) :
    List CTxIn → CAmount → Except Rejection CAmount
  | [], nValueIn => .ok nValueIn
  | txin :: rest, nValueIn => do
    let c := view.accessCoin txin.prevout
    require (!((c.fCoinBase || c.fCoinStake) &&
      decide ((nSpendHeight : Int) - c.nHeight < coinbaseMaturity)))
      ⟨0, "bad-txns-premature-spend-of-coinbase"⟩
    require (moneyRange c.out.nValue && moneyRange (nValueIn + c.out.nValue))
      ⟨100, "bad-txns-inputvalues-outofrange"⟩
    checkInputValues view nSpendHeight rest (nValueIn + c.out.nValue)

end CoinsView

namespace CTransaction

def valueOutOrThrow (tx : CTransaction) : Except Rejection CAmount :=
  match tx.getValueOut with
  | some value => .ok value
  | none => .error ⟨0, "GetValueOut: value out of range"⟩

/-- `Consensus::CheckTxInputs`. -/
def checkTxInputs (view : CoinsView) (nSpendHeight : Nat) (tx : CTransaction) :
    Except Rejection CAmount := do
  require (view.haveInputs tx) ⟨100, "bad-txns-inputs-missingorspent"⟩
  let nValueIn ← view.checkInputValues nSpendHeight tx.vin 0
  if tx.isCoinStake then .ok 0
  else do
    let value_out ← tx.valueOutOrThrow
    require (!decide (nValueIn < value_out)) ⟨100, "bad-txns-in-belowout"⟩
    require (moneyRange (nValueIn - value_out)) ⟨100, "bad-txns-fee-outofrange"⟩
    .ok (nValueIn - value_out)

theorem sumValueOut_eq {outs : List CTxOut} {before value : CAmount}
    (returned : sumValueOut outs before = some value) :
    value = before + (outs.map CTxOut.nValue).sum := by
  induction outs generalizing before with
  | nil =>
    cases returned
    simp
  | cons txout rest ih =>
    simp only [sumValueOut] at returned
    split at returned
    · rw [ih returned, List.map_cons, List.sum_cons]
      exact Int.add_assoc _ _ _
    · cases returned

@[simp] theorem valueOutOrThrow_eq_ok {tx : CTransaction} {value : CAmount} :
    tx.valueOutOrThrow = .ok value ↔ tx.getValueOut = some value := by
  unfold valueOutOrThrow
  split <;> rename_i returned <;> simp [returned]

theorem valueOut_of_getValueOut {tx : CTransaction} {value : CAmount}
    (returned : tx.getValueOut = some value) : value = tx.valueOut := by
  rw [sumValueOut_eq returned]
  exact Int.zero_add _

end CTransaction

namespace CoinsView

theorem checkInputValues_eq {view : CoinsView} {nSpendHeight : Nat} {vin : List CTxIn}
    {before value : CAmount} (passed : view.checkInputValues nSpendHeight vin before = .ok value) :
    value = before + view.valueOf vin := by
  induction vin generalizing before with
  | nil =>
    cases passed
    simp [valueOf]
  | cons txin rest ih =>
    simp only [checkInputValues, Util.bind_eq_ok, Util.require_eq_ok] at passed
    obtain ⟨_, _, _, _, later⟩ := passed
    rw [ih later]
    exact Int.add_assoc _ _ _

end CoinsView

namespace CTransaction

section

variable {view : CoinsView} {nSpendHeight : Nat} {tx : CTransaction} {txfee : CAmount}
  (passed : tx.checkTxInputs view nSpendHeight = .ok txfee)
include passed

theorem fee_of_checkTxInputs :
    txfee = if tx.isCoinStake then 0 else view.valueOf tx.vin - tx.valueOut := by
  simp only [checkTxInputs, Util.bind_eq_ok] at passed
  obtain ⟨_, _, nValueIn, values, rest⟩ := passed
  by_cases stake : tx.isCoinStake = true
  · rw [if_pos stake] at rest ⊢
    cases rest
    rfl
  · rw [if_neg stake] at rest ⊢
    simp only [Util.bind_eq_ok, valueOutOrThrow_eq_ok] at rest
    obtain ⟨_, returned, _, _, _, _, same⟩ := rest
    cases same
    rw [CoinsView.checkInputValues_eq values, valueOut_of_getValueOut returned, Int.zero_add]

theorem moneyRange_of_checkTxInputs : moneyRange txfee := by
  simp only [checkTxInputs, Util.bind_eq_ok] at passed
  obtain ⟨_, _, nValueIn, _, rest⟩ := passed
  by_cases stake : tx.isCoinStake = true
  · rw [if_pos stake] at rest
    cases rest
    rfl
  · rw [if_neg stake] at rest
    simp only [Util.bind_eq_ok, Util.require_eq_ok] at rest
    obtain ⟨_, _, _, _, _, range, same⟩ := rest
    cases same
    exact range

end

end CTransaction
end Artax
