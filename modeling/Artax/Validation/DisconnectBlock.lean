import Artax.Store.CoinsCache
import Artax.Validation.Connected
import Artax.Util.Serial

/-!
# Disconnecting a block

The undo records of a block, and `DisconnectBlock` through the coins cache. Transactions are undone
from last to first: outputs are spent and compared with the block, inputs restored.
-/

namespace Artax

/-! ## Undo records -/

def maxInputsPerBlock : Nat := 8000000 / (witnessScaleFactor * 41)

def maxOutputsPerBlock : Nat := 8000000 / (witnessScaleFactor * 9)

/-- What `TxInUndoSerializer` writes, with the output as it was before its compression. -/
structure TxInUndo where
  nCode : UInt32
  nVersionDummy : Option UInt8
  out : CTxOut
  deriving DecidableEq, Repr

namespace TxInUndo

/-- `TxInUndoSerializer`. -/
def serialize (txout : Coin) : TxInUndo where
  nCode := (UInt32.ofNat txout.nHeight <<< 2) + (if txout.fCoinStake then 2 else 0) +
    (if txout.fCoinBase then 1 else 0)
  nVersionDummy := if 0 < txout.nHeight then some 0 else none
  out := txout.out

/-- `TxInUndoDeserializer`. -/
def unserialize (record : TxInUndo) : Option Coin :=
  let nHeight := (record.nCode >>> 2).toNat
  if record.nVersionDummy.isSome = decide (0 < nHeight) then
    some ⟨record.out, record.nCode &&& 1 != 0, (record.nCode >>> 1) &&& 1 != 0, nHeight⟩
  else none

theorem and_one_ne_zero (x : UInt32) : (x &&& 1 != 0) = decide (x.toNat % 2 = 1) := by
  rw [bne, Bool.eq_iff_iff]
  simp only [Bool.not_eq_true', beq_eq_false_iff_ne, ne_eq, decide_eq_true_eq,
    ← UInt32.toNat_inj, UInt32.toNat_and, UInt32.toNat_one, UInt32.toNat_zero, Nat.and_one_is_mod]
  omega

theorem unserialize_serialize {c : Coin} (bounded : c.nHeight < 2 ^ 30) :
    (serialize c).unserialize = some c := by
  obtain ⟨out, fCoinBase, fCoinStake, nHeight⟩ := c
  simp only at bounded
  have code : (serialize ⟨out, fCoinBase, fCoinStake, nHeight⟩).nCode.toNat =
      4 * nHeight + 2 * fCoinStake.toNat + fCoinBase.toNat := by
    cases fCoinBase <;> cases fCoinStake <;>
      simp [serialize, UInt32.toNat_shiftLeft, Nat.shiftLeft_eq] <;> omega
  have height : ((serialize ⟨out, fCoinBase, fCoinStake, nHeight⟩).nCode >>> 2).toNat = nHeight := by
    rw [UInt32.toNat_shiftRight, code]
    cases fCoinBase <;> cases fCoinStake <;> simp [Nat.shiftRight_eq_div_pow] <;> omega
  have stake : ((serialize ⟨out, fCoinBase, fCoinStake, nHeight⟩).nCode >>> 1).toNat =
      2 * nHeight + fCoinStake.toNat := by
    rw [UInt32.toNat_shiftRight, code]
    cases fCoinBase <;> cases fCoinStake <;> simp [Nat.shiftRight_eq_div_pow] <;> omega
  have dummy : (serialize ⟨out, fCoinBase, fCoinStake, nHeight⟩).nVersionDummy.isSome =
      decide (0 < nHeight) := by
    by_cases positive : 0 < nHeight <;> simp [serialize, positive]
  unfold unserialize
  simp only [height, dummy, if_true, and_one_ne_zero, code, stake]
  cases fCoinBase <;> cases fCoinStake <;> simp [serialize] <;> omega

end TxInUndo

/-- `CTxUndo::Unserialize`. -/
def readTxUndo (records : List TxInUndo) : Option (List Coin) :=
  if maxInputsPerBlock < records.length then none else records.mapM TxInUndo.unserialize

/-- `UndoReadFromDisk`. -/
def undoReadFromDisk (file : List (List TxInUndo)) : Option (List (List Coin)) :=
  file.mapM readTxUndo

/-- `UndoWriteToDisk`. -/
def undoWriteToDisk (vtxundo : List (List Coin)) : List (List TxInUndo) :=
  vtxundo.map fun vprevout => vprevout.map .serialize

theorem undoReadFromDisk_write {vtxundo : List (List Coin)}
    (few : ∀ vprevout ∈ vtxundo, vprevout.length ≤ maxInputsPerBlock)
    (bounded : ∀ vprevout ∈ vtxundo, ∀ c ∈ vprevout, c.nHeight < 2 ^ 30) :
    undoReadFromDisk (undoWriteToDisk vtxundo) = some vtxundo := by
  refine Util.Serial.mapM_map_eq_some fun vprevout mem => ?_
  have count : ¬ maxInputsPerBlock < (vprevout.map TxInUndo.serialize).length := by
    simpa using few vprevout mem
  rw [readTxUndo, if_neg count]
  exact Util.Serial.mapM_map_eq_some fun c inUndo => TxInUndo.unserialize_serialize (bounded vprevout mem c inUndo)

/-! ## Disconnecting -/

/-- Why disconnecting does not come to an end: an assertion or an exception that stops the node, or
`DISCONNECT_FAILED`. -/
inductive DisconnectStop
  | aborted
  | failed
  deriving DecidableEq, Repr

inductive DisconnectResult
  | ok
  | unclean
  deriving DecidableEq, Repr

structure TipIndex where
  nHeight : Nat
  hash : H256
  pprev : PrevIndex
  deriving DecidableEq, Repr

/-- What `DisconnectBlock` changes: the coins, and the roots of the global state. -/
structure ChainView where
  view : CCoinsViewCache
  hashStateRoot : H256
  hashUTXORoot : H256

namespace CCoinsViewCache

/-- `AccessByTxid`. -/
def accessByTxid (view : CCoinsViewCache) (txid : H256) : Coin :=
  (((List.range maxOutputsPerBlock).map fun n => view.accessCoin ⟨txid, UInt32.ofNat n⟩).find?
    fun alternate => !alternate.isSpent).getD .empty

/-- The height and the coinbase flag of an undo record without height, from another output of the
transaction. -/
def completeUndo (view : CCoinsViewCache) (txid : H256) (undo : Coin) : Except DisconnectStop Coin :=
  if undo.nHeight = 0 then
    let alternate := view.accessByTxid txid
    if alternate.isSpent then .error .failed
    else .ok { undo with nHeight := alternate.nHeight, fCoinBase := alternate.fCoinBase }
  else .ok undo

/-- `ApplyTxInUndo`. -/
def applyTxInUndo (undo : Coin) (view : CCoinsViewCache) (out : COutPoint) :
    Except DisconnectStop (CCoinsViewCache × Bool) := do
  let (view, overwrites) := view.haveCoin out
  let undo ← view.completeUndo out.hash undo
  match view.addCoin out undo overwrites with
  | none => .error .aborted
  | some view => .ok (view, !overwrites)

def isOutput (nHeight : Nat) (tx : CTransaction) (txout : CTxOut) : Option Coin → Bool
  | none => false
  | some c => decide (txout = c.out) && nHeight == c.nHeight && tx.isCoinBase == c.fCoinBase &&
      tx.isCoinStake == c.fCoinStake

def spendOutputs (computeHash : CTransaction → H256) (nHeight : Nat) (tx : CTransaction) :
    List (CTxOut × Nat) → CCoinsViewCache × Bool → CCoinsViewCache × Bool
  | [], s => s
  | (txout, o) :: rest, (view, fClean) =>
    if txout.scriptPubKey.isUnspendable then
      spendOutputs computeHash nHeight tx rest (view, fClean)
    else
      let (view, moved) := view.spendCoin ⟨tx.getHash computeHash, UInt32.ofNat o⟩
      spendOutputs computeHash nHeight tx rest (view, fClean && isOutput nHeight tx txout moved)

def restoreInput (s : CCoinsViewCache × Bool) (p : CTxIn × Coin) :
    Except DisconnectStop (CCoinsViewCache × Bool) := do
  let (view, clean) ← applyTxInUndo p.2 s.1 p.1.prevout
  .ok (view, s.2 && clean)

def disconnectTx (computeHash : CTransaction → H256) (nHeight : Nat) (s : CCoinsViewCache × Bool)
    (p : CTransaction × Option (List Coin)) : Except DisconnectStop (CCoinsViewCache × Bool) :=
  let s := spendOutputs computeHash nHeight p.1 p.1.vout.zipIdx s
  match p.2 with
  | none => .ok s
  | some vprevout =>
    if vprevout.length ≠ p.1.vin.length then .error .failed
    else (p.1.vin.zip vprevout).reverse.foldlM restoreInput s

end CCoinsViewCache

/-- `CChainState::DisconnectBlock`. -/
def disconnectBlock (computeHash : CTransaction → H256) (block : CBlock) (pindex : TipIndex)
    (file : List (List TxInUndo)) (c : ChainView) :
    Except DisconnectStop (DisconnectResult × ChainView) :=
  if pindex.hash ≠ c.view.getBestBlock then .error .aborted
  else match undoReadFromDisk file with
    | none => .error .failed
    | some vtxundo =>
      if vtxundo.length + 1 ≠ block.vtx.length then .error .failed
      else do
        let (view, fClean) ← (block.vtx.zip (none :: vtxundo.map some)).reverse.foldlM
          (CCoinsViewCache.disconnectTx computeHash pindex.nHeight) (c.view, true)
        .ok (if fClean then .ok else .unclean,
          ⟨view.setBestBlock pindex.pprev.hash, pindex.pprev.hashStateRoot, pindex.pprev.hashUTXORoot⟩)

end Artax
