import Artax.Script.Standard
import Artax.Util.Check

/-!
# Transaction checks without context

`CheckTransaction`, with the score and the reason of every rejection.
-/

namespace Artax

open Util (require)

/-- What a `CValidationState` reports for a rejection. -/
structure Rejection where
  dos : Nat
  reason : String
  deriving DecidableEq, Repr

def maxTransactionBaseSize : Nat := 1000000

def witnessScaleFactor : Nat := 4

def compactSizeLength (n : Nat) : Nat :=
  if n < 253 then 1 else if n ≤ 0xffff then 3 else if n ≤ 0xffffffff then 5 else 9

namespace CTransaction

def baseSize (tx : CTransaction) : Nat :=
  4 + compactSizeLength tx.vin.length +
    (tx.vin.map fun txin =>
      36 + compactSizeLength txin.scriptSig.length + txin.scriptSig.length + 4).sum +
    compactSizeLength tx.vout.length +
    (tx.vout.map fun txout =>
      8 + compactSizeLength txout.scriptPubKey.length + txout.scriptPubKey.length).sum + 4

end CTransaction

namespace CScript

def isContract (script : CScript) : Bool := hasOpCreate script || hasOpCall script

end CScript

def checkOutputs (tx : CTransaction) : List CTxOut → CAmount → Except Rejection Unit
  | [], _ => .ok ()
  | txout :: rest, nValueOut => do
    require (!(txout.isEmpty && !tx.isCoinBase && !tx.isCoinStake)) ⟨100, "bad-txns-vout-empty"⟩
    require (decide (0 ≤ txout.nValue)) ⟨100, "bad-txns-vout-negative"⟩
    require (decide (txout.nValue ≤ maxMoney)) ⟨100, "bad-txns-vout-toolarge"⟩
    require (moneyRange (nValueOut + txout.nValue)) ⟨100, "bad-txns-txouttotal-toolarge"⟩
    require (!txout.scriptPubKey.isContract || (solver true txout.scriptPubKey).isSome)
      ⟨100, "bad-txns-contract-nonstandard"⟩
    checkOutputs tx rest (nValueOut + txout.nValue)

/-- `CheckTransaction`. -/
def checkTransaction (dgpMaxBlockWeight : Nat) (fCheckDuplicateInputs : Bool) (tx : CTransaction) :
    Except Rejection Unit := do
  require (!tx.vin.isEmpty) ⟨10, "bad-txns-vin-empty"⟩
  require (!tx.vout.isEmpty) ⟨10, "bad-txns-vout-empty"⟩
  require (decide (tx.baseSize ≤ maxTransactionBaseSize) &&
    decide (tx.baseSize * witnessScaleFactor ≤ dgpMaxBlockWeight)) ⟨100, "bad-txns-oversize"⟩
  checkOutputs tx tx.vout 0
  require (!fCheckDuplicateInputs || decide (tx.vin.map CTxIn.prevout).Nodup)
    ⟨100, "bad-txns-inputs-duplicate"⟩
  if tx.isCoinBase then
    let size := ((tx.vin.map CTxIn.scriptSig).headD []).length
    require (decide (2 ≤ size) && decide (size ≤ 100)) ⟨100, "bad-cb-length"⟩
  else require (tx.vin.all fun txin => !txin.prevout.isNull) ⟨10, "bad-txns-prevout-null"⟩

/-- What the checks of the outputs establish: each is in range, so are the partial sums, and each
contract output is of a standard type. -/
structure OutputsChecked (tx : CTransaction) (outs : List CTxOut) (before : CAmount) : Prop where
  nonneg : ∀ txout ∈ outs, 0 ≤ txout.nValue
  total : outs ≠ [] → moneyRange (before + (outs.map CTxOut.nValue).sum) = true
  standard : ∀ txout ∈ outs, txout.scriptPubKey.isContract → (solver true txout.scriptPubKey).isSome

theorem outputsChecked_of_ok {tx : CTransaction} {outs : List CTxOut} {before : CAmount}
    (passed : checkOutputs tx outs before = .ok ()) : OutputsChecked tx outs before := by
  induction outs generalizing before with
  | nil => exact ⟨by simp, fun absurd => (absurd rfl).elim, by simp⟩
  | cons txout rest ih =>
    simp only [checkOutputs, Util.bind_eq_ok, Util.require_eq_ok] at passed
    obtain ⟨_, _, _, positive, _, _, _, range, _, contract, later⟩ := passed
    have checked := ih later
    refine ⟨?_, ?_, ?_⟩
    · rw [List.forall_mem_cons]
      exact ⟨by simpa using positive, checked.nonneg⟩
    · intro _
      cases rest with
      | nil => simpa using range
      | cons second more =>
        have total := checked.total (List.cons_ne_nil second more)
        rw [List.map_cons, List.sum_cons, ← add_assoc]
        exact total
    · rw [List.forall_mem_cons]
      refine ⟨fun isContract => ?_, checked.standard⟩
      rw [isContract] at contract
      simpa using contract

theorem outputsChecked_of_checkTransaction {weight : Nat} {duplicates : Bool} {tx : CTransaction}
    (passed : checkTransaction weight duplicates tx = .ok ()) : OutputsChecked tx tx.vout 0 := by
  simp only [checkTransaction, Util.bind_eq_ok] at passed
  obtain ⟨_, _, _, _, _, _, _, outputs, _⟩ := passed
  exact outputsChecked_of_ok outputs

end Artax
