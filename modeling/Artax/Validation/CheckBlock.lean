import Artax.Consensus.TxVerify
import Artax.Primitives.Block

/-!
# Block checks without context

`CheckBlock` with the checks it is made of. Transactions are looked at without
their witnesses, as in `CheckBlock` itself.
-/

namespace Artax

open Util CTransaction
open Util (require whenever)

structure BlockLimits where
  dgpMaxBlockSize : UInt32
  dgpMaxBlockWeight : UInt32
  dgpMaxBlockSigOps : Nat
  deriving DecidableEq, Repr

/-- `updateBlockSizeParams`. -/
def updateBlockSizeParams (newBlockSize : UInt32) : BlockLimits where
  dgpMaxBlockSize := newBlockSize
  dgpMaxBlockWeight := 4 * newBlockSize
  dgpMaxBlockSigOps := (4 * newBlockSize / 100).toNat

namespace Op

def checkSigVerify : UInt8 := 0xad
def checkMultisigVerify : UInt8 := 0xaf

end Op

def countSigOps (fAccurate : Bool) : UInt8 → List (UInt8 × Bytes) → Nat
  | _, [] => 0
  | lastOpcode, (opcode, _) :: rest =>
    (if opcode = Op.checkSig ∨ opcode = Op.checkSigVerify then 1
      else if opcode = Op.checkMultisig ∨ opcode = Op.checkMultisigVerify then
        if fAccurate ∧ Op.one ≤ lastOpcode ∧ lastOpcode ≤ Op.sixteen then CScript.decodeOpN lastOpcode
        else maxPubkeysPerMultisig
      else 0) + countSigOps fAccurate opcode rest

/-- `CScript::GetSigOpCount`. -/
def CScript.getSigOpCount (script : CScript) (fAccurate : Bool) : Nat :=
  countSigOps fAccurate Op.invalidOpcode script.ops

/-- `GetLegacySigOpCount`. -/
def CTransaction.getLegacySigOpCount (tx : CTransaction) : Nat :=
  (tx.vin.map fun txin => txin.scriptSig.getSigOpCount false).sum +
    (tx.vout.map fun txout => txout.scriptPubKey.getSigOpCount false).sum

namespace CBlock

variable (block : CBlock)

def coinbase : CTransaction := block.vtx.headD {}

def coinstake : CTransaction := (block.vtx[1]?).getD {}

def isWitnessCommitment (txout : CTxOut) : Bool :=
  decide (38 ≤ txout.scriptPubKey.length) &&
    txout.scriptPubKey.take 6 == [Op.ret, 0x24, 0xaa, 0x21, 0xa9, 0xed]

/-- `CheckFirstCoinstakeOutput`. -/
def checkFirstCoinstakeOutput : Bool :=
  if !block.coinbase.vout.any isWitnessCommitment then
    match block.coinbase.vout with
    | [txout] => txout.isEmpty
    | _ => false
  else
    match block.coinbase.vout with
    | [first, second] => first.isEmpty && second.nValue == 0
    | _ => false

/-- `GetBlockPublicKey`. -/
def getBlockPublicKey : Option Bytes :=
  if block.isProofOfWork || block.vchBlockSig.isEmpty then none
  else
    let script := ((block.coinstake.vout[1]?).map CTxOut.scriptPubKey).getD []
    match solver false script with
    | none => none
    | some (.pubkey, key :: _) => some key
    | some _ =>
      -- the key can also stand in an output that cannot be spent
      match script.getOp with
      | some (opcode, _, rest) =>
        if opcode ≠ Op.ret then none
        else match rest.getOp with
          | some (_, key, _) => if isCompressedOrUncompressedPubKey key then some key else none
          | none => none
      | none => none

end CBlock

/-- What the block checks ask of the rest of the node: hashing, signatures and the clock. -/
structure CheckEnv where
  computeHash : CTransaction → H256
  hashHeader : CBlockHeader → H256
  hashWithoutSign : CBlockHeader → H256
  pairHash : H256 → H256 → H256
  checkHeaderPoW : CBlockHeader → Bool
  verifySignature : Bytes → H256 → Bytes → Bool
  adjustedTime : UInt32

namespace CheckEnv

variable (env : CheckEnv) {limits : BlockLimits} {fCheckSig : Bool}

/-- `CheckBlockSignature`. -/
def checkBlockSignature (block : CBlock) : Bool :=
  if block.isProofOfWork then block.vchBlockSig.isEmpty
  else match block.getBlockPublicKey with
    | none => false
    | some key => env.verifySignature key (env.hashWithoutSign block.toCBlockHeader) block.vchBlockSig

def checkMerkleRoot (block : CBlock) : Except Rejection Unit := do
  let root := blockMerkleRoot env.computeHash env.pairHash block.vtx
  require (block.hashMerkleRoot == root.1) ⟨100, "bad-txnmrklroot"⟩
  require (!root.2) ⟨100, "bad-txns-duplicate"⟩

/-- The first transaction must be a coinbase without contract opcodes, the rest must not be. -/
def checkCoinbase (block : CBlock) : Except Rejection Unit := do
  require (block.vtx.head?.any isCoinBase) ⟨100, "bad-cb-missing"⟩
  require (block.vtx.tail.all fun tx => !tx.isCoinBase) ⟨100, "bad-cb-multiple"⟩
  require (!(block.coinbase.hasOpSpend || block.coinbase.hasCreateOrCall)) ⟨100, "bad-cb-contract"⟩

/-- In a proof-of-stake block the coinbase is empty, and the second transaction is the only
coinstake. -/
def checkCoinstake (block : CBlock) : Except Rejection Unit := do
  require block.checkFirstCoinstakeOutput ⟨100, "bad-cb-missing"⟩
  require ((block.vtx[1]?).any isCoinStake) ⟨100, "bad-cs-missing"⟩
  require (block.coinstake.vin.head?.any fun txin => decide (block.prevoutStake = txin.prevout))
    ⟨100, "bad-cs-invalid"⟩
  require ((block.vtx.drop 2).all fun tx => !tx.isCoinStake) ⟨100, "bad-cs-multiple"⟩
  require (!(block.coinstake.hasOpSpend || block.coinstake.hasCreateOrCall))
    ⟨100, "bad-cs-contract"⟩

def checkTransactions (limits : BlockLimits) : List CTransaction → Bool → Except Rejection Unit
  | [], _ => .ok ()
  | tx :: rest, lastWasContract => do
    checkTransaction limits.dgpMaxBlockWeight.toNat true tx
    require (!tx.hasOpSpend || lastWasContract) ⟨100, "bad-opspend-tx"⟩
    checkTransactions limits rest (tx.hasCreateOrCall || tx.hasOpSpend)

def checkBlockFully (limits : BlockLimits) (fCheckPOW fCheckMerkleRoot fCheckSig : Bool)
    (block : CBlock) : Except Rejection Unit := do
  require (!(fCheckPOW && block.isProofOfWork) || env.checkHeaderPoW block.toCBlockHeader)
    ⟨50, "high-hash"⟩
  require (!(block.isProofOfStake && decide (env.adjustedTime + 15 < block.nTime))) ⟨0, ""⟩
  whenever fCheckMerkleRoot (env.checkMerkleRoot block)
  checkCoinbase block
  whenever block.isProofOfStake (checkCoinstake block)
  require (!fCheckSig || env.checkBlockSignature block) ⟨100, "bad-blk-signature"⟩
  checkTransactions limits block.vtx false
  require (decide ((block.vtx.map getLegacySigOpCount).sum * witnessScaleFactor % 2 ^ 32 ≤
    limits.dgpMaxBlockSigOps)) ⟨100, "bad-blk-sigops"⟩

/-- `CheckBlock`. -/
def checkBlock (limits : BlockLimits) (fCheckPOW fCheckMerkleRoot fCheckSig : Bool)
    (block : CBlock) : Except Rejection Unit :=
  if block.fChecked then .ok ()
  else env.checkBlockFully limits fCheckPOW fCheckMerkleRoot fCheckSig block

/-- A block is only marked as checked after `CheckBlock` has accepted it with all its checks. -/
def HonestMark (block : CBlock) : Prop :=
  block.fChecked = true → ∃ limits fCheckSig, env.checkBlockFully limits true true fCheckSig block = .ok ()

structure BlockChecked (block : CBlock) : Prop where
  root : block.hashMerkleRoot = (blockMerkleRoot env.computeHash env.pairHash block.vtx).1
  unmutated : (blockMerkleRoot env.computeHash env.pairHash block.vtx).2 = false
  coinbase : checkCoinbase block = .ok ()
  coinstake : block.isProofOfStake = true → checkCoinstake block = .ok ()
  transactions : ∃ limits, checkTransactions limits block.vtx false = .ok ()

theorem blockChecked_of_fully {block : CBlock}
    (passed : env.checkBlockFully limits true true fCheckSig block = .ok ()) :
    env.BlockChecked block := by
  simp only [checkBlockFully, bind_eq_ok, whenever_eq_ok, true_imp_iff] at passed
  obtain ⟨_, _, _, _, _, merkle, _, coinbase, _, coinstake, _, _, _, transactions, _⟩ := passed
  simp only [checkMerkleRoot, bind_eq_ok, require_eq_ok, beq_iff_eq] at merkle
  obtain ⟨_, root, unmutated⟩ := merkle
  exact ⟨root, by simpa using unmutated, coinbase, coinstake, limits, transactions⟩

theorem blockChecked_of_checkBlock {block : CBlock} (honest : env.HonestMark block)
    (passed : env.checkBlock limits true true fCheckSig block = .ok ()) :
    env.BlockChecked block := by
  unfold checkBlock at passed
  by_cases marked : block.fChecked = true
  · obtain ⟨_, _, fully⟩ := honest marked
    exact env.blockChecked_of_fully fully
  · rw [if_neg marked] at passed
    exact env.blockChecked_of_fully passed

namespace BlockChecked

variable {env} {block : CBlock} (checked : env.BlockChecked block) {tx : CTransaction}
include checked

theorem vtx_eq : ∃ rest, block.vtx = block.coinbase :: rest ∧ block.coinbase.isCoinBase ∧
    block.coinbase.hasOpSpend = false ∧ block.coinbase.hasCreateOrCall = false ∧
    ∀ tx ∈ rest, tx.isCoinBase = false := by
  have passed := checked.coinbase
  simp only [checkCoinbase, bind_eq_ok, require_eq_ok] at passed
  obtain ⟨_, first, _, rest, plain⟩ := passed
  simp only [Bool.not_eq_true', Bool.or_eq_false_iff] at plain
  cases split : block.vtx with
  | nil =>
    rw [split] at first
    cases first
  | cons tx others =>
    rw [split] at first rest
    have same : block.coinbase = tx := by simp [CBlock.coinbase, split]
    refine ⟨others, by rw [same], same ▸ first, plain.1, plain.2, ?_⟩
    simpa using rest

theorem checkTransaction_of_mem (member : tx ∈ block.vtx) :
    ∃ weight, checkTransaction weight true tx = .ok () := by
  obtain ⟨limits, passed⟩ := checked.transactions
  generalize false = last at passed
  generalize block.vtx = txs at passed member
  induction txs generalizing last with
  | nil => cases member
  | cons head rest ih =>
    simp only [checkTransactions, bind_eq_ok] at passed
    obtain ⟨_, now, _, _, later⟩ := passed
    rcases List.mem_cons.1 member with rfl | after
    · exact ⟨_, now⟩
    · exact ih _ later after

theorem isNull_of_mem (member : tx ∈ block.vtx) : tx.isNull = false := by
  obtain ⟨_, passed⟩ := checked.checkTransaction_of_mem member
  simp only [checkTransaction, bind_eq_ok, require_eq_ok] at passed
  obtain ⟨_, inputs, _⟩ := passed
  have some : tx.vin.isEmpty = false := by simpa using inputs
  rw [isNull, some, Bool.false_and]

end BlockChecked
end CheckEnv
end Artax
