import Artax.Mining.Mempool
import Artax.Validation.ConnectBlock
import Artax.Wallet.CoinStake

/-!
# Assembling a block

`BlockAssembler` takes packages of a transaction with its ancestors from the pool, the best one
first, executes the contracts among them, and keeps running counters. The clock and the contract
state are a type `σ` about which nothing is assumed.
-/

namespace Artax

open Util (Closure.ascending)

/-- `CTxMemPoolModifiedEntry`: an entry with what its ancestors still add to it. -/
structure CTxMemPoolModifiedEntry where
  iter : H256
  nSizeWithAncestors : Int
  nModFeesWithAncestors : CAmount
  nSigOpCostWithAncestors : Int
  deriving DecidableEq, Repr

namespace CTxMemPoolModifiedEntry

def ofEntry (pool : CTxMemPool) (iter : H256) : CTxMemPoolModifiedEntry where
  iter
  nSizeWithAncestors := (pool.entry iter).nSizeWithAncestors
  nModFeesWithAncestors := (pool.entry iter).nModFeesWithAncestors
  nSigOpCostWithAncestors := (pool.entry iter).nSigOpCostWithAncestors

end CTxMemPoolModifiedEntry

/-- What the assembler asks of the rest of the node. -/
structure MinerEnv (σ : Type) where
  params : ConsensusParams
  nHeight : Nat
  fProofOfStake : Bool
  header : CBlockHeader
  limits : BlockLimits
  nBlockMaxWeight : UInt32
  nSatoshisPerK : CAmount
  nBytesPerSigOp : Nat
  nTimeLimit : Int
  nLockTimeCutoff : Int
  fIncludeWitness : Bool
  fDisableContractScratching : Bool
  minGasPrice : UInt64
  hardBlockGasLimit : UInt64
  stakerSoftBlockGasLimit : UInt64
  txGasLimit : UInt64
  witnessSize : CTransaction → Nat
  /-- The signature operations of `GetTransactionSigOpCost` beyond the legacy ones. -/
  innerSigOpCost : CTransaction → Nat
  compareByAncestorFee : CTxMemPoolModifiedEntry → CTxMemPoolModifiedEntry → Bool
  witnessCommitment : List CTransaction → Option CScript
  testBlockValidity : CBlock → Bool
  getAdjustedTime : σ → Int × σ
  extractionArtaxTransactions : σ → List CTransaction → CTransaction → Option (List ArtaxTransaction)
  executeContract :
    σ → List CTransaction → List ArtaxTransaction → UInt64 → σ × Option ByteCodeExecResult
  roots : σ → H256 × H256
  setRoots : σ → H256 × H256 → σ

structure Addition where
  iter : H256
  result : ByteCodeExecResult := {}
  deriving DecidableEq, Repr

/-- The part of `BlockAssembler` that changes while it adds transactions. The initial counters are
those of `resetBlock`. -/
structure BlockAssembler where
  vtx : List CTransaction
  originalRewardTx : CTransaction
  nBlockWeight : Nat := 4000
  /-- A difference in between can be negative, where the source wraps and back. -/
  nBlockSigOpsCost : Int := 400
  nBlockTx : Nat := 0
  nFees : CAmount := 0
  inBlock : Finset H256 := ∅
  bceResult : ByteCodeExecResult := {}
  /-- A record of what was added, which the assembler does not read. -/
  added : List Addition := []

structure Selecting (σ : Type) where
  block : BlockAssembler
  world : σ
  mapModifiedTx : List CTxMemPoolModifiedEntry := []
  failedTx : Finset H256 := ∅
  mi : List H256
  nConsecutiveFailed : Nat := 0
  nPackagesSelected : Nat := 0
  nDescendantsUpdated : Nat := 0

inductive Selection (σ : Type)
  | finished (s : Selecting σ)
  | next (s : Selecting σ)
  | assertionFailed

def locktimeThreshold : Int := 500000000

/-- `IsFinalTx`. -/
def CTransaction.isFinalTx (tx : CTransaction) (nBlockHeight : Nat) (nBlockTime : Int) : Bool :=
  let nLockTime : Int := tx.nLockTime.toNat
  decide (nLockTime = 0) ||
    decide (nLockTime < if nLockTime < locktimeThreshold then (nBlockHeight : Int) else nBlockTime) ||
      tx.vin.all fun txin => txin.nSequence == 0xffffffff

def bytecodeTimeBuffer : Int := 6

def maxConsecutiveFailures : Nat := 1000

/-- `BlockAssembler::AddToBlock`. -/
def BlockAssembler.addToBlock (pool : CTxMemPool) (iter : H256) (a : BlockAssembler) : BlockAssembler :=
  let entry := pool.entry iter
  { a with
    vtx := a.vtx ++ [entry.tx]
    nBlockWeight := a.nBlockWeight + entry.nTxWeight
    nBlockTx := a.nBlockTx + 1
    nBlockSigOpsCost := a.nBlockSigOpsCost + entry.sigOpCost
    nFees := a.nFees + entry.nFee
    inBlock := insert iter a.inBlock
    added := a.added ++ [⟨iter, {}⟩] }

/-- `BlockAssembler::SortForBlock`: by the number of ancestors, and among equals by the hash, which is
the order of the set. -/
def CTxMemPool.sortForBlock (pool : CTxMemPool) (package : Finset H256) : List H256 :=
  (Closure.ascending package).insertionSort fun a b =>
    (pool.entry a).nCountWithAncestors ≤ (pool.entry b).nCountWithAncestors

namespace MinerEnv

variable {σ : Type} (env : MinerEnv σ) (pool : CTxMemPool)

def softBlockGasLimit : UInt64 := min env.stakerSoftBlockGasLimit env.hardBlockGasLimit

def transactionWeight (tx : CTransaction) : Nat :=
  tx.baseSize * (witnessScaleFactor - 1) + (tx.baseSize + env.witnessSize tx)

def sigOpCost (tx : CTransaction) : Nat :=
  tx.getLegacySigOpCount * witnessScaleFactor + env.innerSigOpCost tx

def minFee (nSize : Int) : CAmount :=
  let nFee := (env.nSatoshisPerK * nSize).tdiv 1000
  if nFee = 0 ∧ nSize ≠ 0 then
    if 0 < env.nSatoshisPerK then 1 else if env.nSatoshisPerK < 0 then -1 else nFee
  else nFee

def pastLimit (buffer : Int) (world : σ) : Bool × σ :=
  if env.nTimeLimit = 0 then (false, world)
  else
    let (time, world) := env.getAdjustedTime world
    (decide (env.nTimeLimit - buffer ≤ time), world)

def proofTx : Nat := if env.fProofOfStake then 1 else 0

def rewardTx (a : BlockAssembler) : CTransaction := (a.vtx[env.proofTx]?).getD {}

def rebuildRefund (a : BlockAssembler) : BlockAssembler :=
  { a with
    vtx := a.vtx.set env.proofTx (rebuildRefundTransaction env.params env.nHeight env.fProofOfStake
      a.nFees a.bceResult a.originalRewardTx) }

/-- `TestPackage`. -/
def testPackage (a : BlockAssembler) (packageSize packageSigOpsCost : Int) : Bool :=
  if (env.nBlockMaxWeight.toNat : Int) ≤ a.nBlockWeight + witnessScaleFactor * packageSize then false
  else if (env.limits.dgpMaxBlockSigOps : Int) ≤ a.nBlockSigOpsCost + packageSigOpsCost then false
  else true

/-- `TestPackageTransactions`. -/
def testPackageTransactions (package : Finset H256) : Bool :=
  (Closure.ascending package).all fun it =>
    let tx := (pool.entry it).tx
    tx.isFinalTx env.nHeight env.nLockTimeCutoff &&
      (env.fIncludeWitness || decide (env.witnessSize tx = 0))

def gasAllowed (usedGas : UInt64) : List ArtaxTransaction → U256 → Bool
  | [], _ => true
  | qtx :: rest, txGas =>
    let txGas := txGas + qtx.gas
    if BitVec.ofNat 256 env.txGasLimit.toNat < txGas then false
    else if BitVec.ofNat 256 env.softBlockGasLimit.toNat < BitVec.ofNat 256 usedGas.toNat + qtx.gas
    then false
    else if qtx.gasPrice < BitVec.ofNat 256 env.minGasPrice.toNat then false
    else gasAllowed usedGas rest txGas

/-- Whether a contract transaction with what its execution returned stays within the limits of the
block: the costs it would bring. -/
def contractFits (a : BlockAssembler) (entry : CTxMemPoolEntry) (result : ByteCodeExecResult) : Bool :=
  let nBlockWeight := a.nBlockWeight + entry.nTxWeight +
    (result.valueTransfers.map env.transactionWeight).sum
  let proof := env.rewardTx a
  let contrTx : CTransaction := { proof with vout := proof.vout ++ result.refundOutputs }
  let nBlockSigOpsCost : Int := a.nBlockSigOpsCost + entry.sigOpCost +
    (result.valueTransfers.map CTransaction.getLegacySigOpCount).sum -
    proof.getLegacySigOpCount + contrTx.getLegacySigOpCount
  !(decide ((env.limits.dgpMaxBlockSigOps : Int) < nBlockSigOpsCost * witnessScaleFactor) ||
    decide (env.limits.dgpMaxBlockWeight.toNat < nBlockWeight))

/-- The end of `AttemptToAddContractToBlock`: the contract transaction and its value transfers go
into the block, and the refund transaction is rebuilt. -/
def addContract (iter : H256) (result : ByteCodeExecResult) (a : BlockAssembler) : BlockAssembler :=
  let entry := pool.entry iter
  let rebuilt := env.rebuildRefund { a with
    bceResult := {
      usedGas := a.bceResult.usedGas + result.usedGas
      refundSender := a.bceResult.refundSender + result.refundSender
      refundOutputs := a.bceResult.refundOutputs ++ result.refundOutputs }
    vtx := a.vtx ++ entry.tx :: result.valueTransfers
    nBlockWeight := a.nBlockWeight + entry.nTxWeight +
      (result.valueTransfers.map env.transactionWeight).sum
    nBlockTx := a.nBlockTx + 1 + result.valueTransfers.length
    nFees := a.nFees + entry.nFee
    inBlock := insert iter a.inBlock
    added := a.added ++ [⟨iter, result⟩] }
  { rebuilt with
    nBlockSigOpsCost := a.nBlockSigOpsCost + entry.sigOpCost +
      (result.valueTransfers.map CTransaction.getLegacySigOpCount).sum -
      (env.rewardTx a).getLegacySigOpCount + (env.rewardTx rebuilt).getLegacySigOpCount }

/-- `AttemptToAddContractToBlock`. -/
def attemptToAddContractToBlock (iter : H256) (a : BlockAssembler) (world : σ) :
    Bool × BlockAssembler × σ :=
  let (late, world) := env.pastLimit bytecodeTimeBuffer world
  if late then (false, a, world)
  else if env.fDisableContractScratching then (false, a, world)
  else
    let old := env.roots world
    let entry := pool.entry iter
    match env.extractionArtaxTransactions world a.vtx entry.tx with
    | none => (false, a, world)
    | some xaxTransactions =>
      if !env.gasAllowed a.bceResult.usedGas xaxTransactions 0#256 then (false, a, world)
      else
        match env.executeContract world a.vtx xaxTransactions env.hardBlockGasLimit with
        | (world, none) => (false, a, env.setRoots world old)
        | (world, some testExecResult) =>
          if env.softBlockGasLimit < a.bceResult.usedGas + testExecResult.usedGas
          then (false, a, env.setRoots world old)
          else if !env.contractFits a entry testExecResult
          then (false, a, env.setRoots world old)
          else (true, env.addContract pool iter testExecResult a, world)

/-- The inner loop of `UpdatePackagesForAdded`: a descendant loses what the added entry gave it, the
first time the modified fee, later the fee. -/
def updateDescendant (alreadyAdded : Finset H256) (it : H256)
    (updated : List CTxMemPoolModifiedEntry × Nat) (desc : H256) :
    List CTxMemPoolModifiedEntry × Nat :=
  if desc ∈ alreadyAdded then updated
  else
    let entry := pool.entry it
    let without (nFee : CAmount) (e : CTxMemPoolModifiedEntry) : CTxMemPoolModifiedEntry :=
      { e with
        nSizeWithAncestors := e.nSizeWithAncestors - entry.getTxSize env.nBytesPerSigOp
        nModFeesWithAncestors := e.nModFeesWithAncestors - nFee
        nSigOpCostWithAncestors := e.nSigOpCostWithAncestors - entry.sigOpCost }
    if updated.1.any fun e => e.iter == desc
    then (updated.1.map fun e => if e.iter = desc then without entry.nFee e else e, updated.2 + 1)
    else (updated.1 ++ [without entry.getModifiedFee (.ofEntry pool desc)], updated.2 + 1)

/-- `UpdatePackagesForAdded`. -/
def updatePackagesForAdded (alreadyAdded : Finset H256)
    (mapModifiedTx : List CTxMemPoolModifiedEntry) : List CTxMemPoolModifiedEntry × Nat :=
  (Closure.ascending alreadyAdded).foldl (fun updated it =>
    (Closure.ascending (pool.calculateDescendants it)).foldl
      (env.updateDescendant pool alreadyAdded it) updated) (mapModifiedTx, 0)

/-- `CompareModifiedEntry`. -/
def compareModifiedEntry (a b : CTxMemPoolModifiedEntry) : Bool :=
  let entryA := pool.entry a.iter
  let entryB := pool.entry b.iter
  let fAHasCreateOrCall := entryA.tx.getCreateOrCall
  let fBHasCreateOrCall := entryB.tx.getCreateOrCall
  let sizeA := entryA.getTxSize env.nBytesPerSigOp
  let sizeB := entryB.getTxSize env.nBytesPerSigOp
  if fAHasCreateOrCall ≠ 0 ∨ fBHasCreateOrCall ≠ 0 then
    if decide (0 < fAHasCreateOrCall) ≠ decide (0 < fBHasCreateOrCall)
    then !decide (0 < fAHasCreateOrCall)
    else if 0 < fAHasCreateOrCall ∧ 0 < fBHasCreateOrCall ∧ fAHasCreateOrCall ≠ fBHasCreateOrCall ∧
        (fAHasCreateOrCall = 1 ∨ fBHasCreateOrCall = 1)
    then !decide (fAHasCreateOrCall = 1)
    else if a.nSizeWithAncestors = sizeA ∧ b.nSizeWithAncestors ≠ sizeB then true
    else if b.nSizeWithAncestors = sizeB ∧ a.nSizeWithAncestors ≠ sizeA then false
    else if entryA.nMinGasPrice ≠ entryB.nMinGasPrice
    then decide (entryB.nMinGasPrice < entryA.nMinGasPrice)
    else if sizeA ≠ sizeB then decide (sizeA < sizeB)
    else decide (a.iter < b.iter)
  else env.compareByAncestorFee a b

def betterModified (best : Option CTxMemPoolModifiedEntry) (e : CTxMemPoolModifiedEntry) :
    Option CTxMemPoolModifiedEntry :=
  match best with
  | none => some e
  | some b => if env.compareModifiedEntry pool e b then some e else some b

def bestModified (mapModifiedTx : List CTxMemPoolModifiedEntry) : Option CTxMemPoolModifiedEntry :=
  mapModifiedTx.foldl (env.betterModified pool) none

end MinerEnv

namespace Selecting

variable {σ : Type}

def eraseModified (id : H256) (s : Selecting σ) : Selecting σ :=
  { s with mapModifiedTx := s.mapModifiedTx.filter fun e => e.iter != id }

def fail (fUsingModified : Bool) (iter : H256) (s : Selecting σ) : Selecting σ :=
  if fUsingModified
  then { s.eraseModified iter with failedTx := insert iter s.failedTx }
  else s

/-- `SkipMapTxEntry`. -/
def skipMapTxEntry (s : Selecting σ) (id : H256) : Bool :=
  (s.mapModifiedTx.any fun e => e.iter == id) || decide (id ∈ s.block.inBlock) ||
    decide (id ∈ s.failedTx)

end Selecting

namespace MinerEnv

variable {σ : Type} (env : MinerEnv σ) (pool : CTxMemPool)

/-- The loop of `addPackageTxs` over the sorted package. The first failure of a contract is the
failure of the package. -/
def addPackage (fUsingModified : Bool) (iter : H256) :
    List H256 → Bool → Selecting σ → Bool × Selecting σ
  | [], wasAdded, s => (wasAdded, s)
  | id :: rest, false, s => addPackage fUsingModified iter rest false (s.eraseModified id)
  | id :: rest, true, s =>
    let (late, world) := env.pastLimit 0 s.world
    if late then addPackage fUsingModified iter rest false ({ s with world }.eraseModified id)
    else if (pool.entry id).tx.hasCreateOrCall then
      match env.attemptToAddContractToBlock pool id s.block world with
      | (true, block, world) =>
        addPackage fUsingModified iter rest true ({ s with block, world }.eraseModified id)
      | (false, block, world) =>
        addPackage fUsingModified iter rest false
          (({ s with block, world }.fail fUsingModified iter).eraseModified id)
    else
      addPackage fUsingModified iter rest true
        ({ s with block := s.block.addToBlock pool id, world }.eraseModified id)

def tryPackage (fUsingModified : Bool) (iter : H256) (s : Selecting σ) : Selection σ :=
  -- `onlyUnconfirmed`
  let ancestors := insert iter (pool.calculateMemPoolAncestors iter \ s.block.inBlock)
  if !env.testPackageTransactions pool ancestors then .next (s.fail fUsingModified iter)
  else
    let (wasAdded, s) := env.addPackage pool fUsingModified iter (pool.sortForBlock ancestors) true
      { s with nConsecutiveFailed := 0 }
    if !wasAdded then .next s
    else
      let (mapModifiedTx, updates) := env.updatePackagesForAdded pool ancestors s.mapModifiedTx
      .next { s with
        mapModifiedTx
        nPackagesSelected := s.nPackagesSelected + 1
        nDescendantsUpdated := s.nDescendantsUpdated + updates }

def considerPackage (fUsingModified : Bool) (e : CTxMemPoolModifiedEntry) (s : Selecting σ) :
    Selection σ :=
  if e.iter ∈ s.block.inBlock then .assertionFailed
  else if e.nModFeesWithAncestors < env.minFee e.nSizeWithAncestors then .finished s
  else if !env.testPackage s.block e.nSizeWithAncestors e.nSigOpCostWithAncestors then
    let s := s.fail fUsingModified e.iter
    let s := { s with nConsecutiveFailed := s.nConsecutiveFailed + 1 }
    if maxConsecutiveFailures < s.nConsecutiveFailed ∧
        (env.nBlockMaxWeight - 4000).toNat < s.block.nBlockWeight
    then .finished s
    else .next s
  else env.tryPackage pool fUsingModified e.iter s

/-- The choice of a package: the next entry of the pool, unless the best modified entry is better. -/
def choosePackage (s : Selecting σ) : Selection σ :=
  match s.mi, env.bestModified pool s.mapModifiedTx with
  -- `modit` would be the end of the index
  | [], none => .assertionFailed
  | [], some modit => env.considerPackage pool true modit s
  | id :: rest, none => env.considerPackage pool false (.ofEntry pool id) { s with mi := rest }
  | id :: rest, some modit =>
    if env.compareModifiedEntry pool modit (.ofEntry pool id)
    then env.considerPackage pool true modit s
    else env.considerPackage pool false (.ofEntry pool id) { s with mi := rest }

def selectionRound (s : Selecting σ) : Selection σ :=
  if s.mi.isEmpty && s.mapModifiedTx.isEmpty then .finished s
  else
    let (late, world) := env.pastLimit 0 s.world
    let s := { s with world }
    if late then .finished s
    else if s.mi.head?.any s.skipMapTxEntry then .next { s with mi := s.mi.tail }
    else env.choosePackage pool s

def selectionRounds : Nat → Selecting σ → Selection σ
  | 0, s => .next s
  | n + 1, s =>
    match env.selectionRound pool s with
    | .next s => selectionRounds n s
    | done => done

/-- `addPackageTxs`. -/
def addPackageTxs (rounds : Nat) (a : BlockAssembler) (world : σ) : Selection σ :=
  env.selectionRounds pool rounds {
    block := a
    world
    mapModifiedTx := (env.updatePackagesForAdded pool a.inBlock []).1
    mi := pool.mapTx }

/-- The transactions of a new template: a coinbase, which is empty in a proof-of-stake block, and the
coinstake of a proof-of-stake block. -/
def newBlock (scriptSig scriptPubKeyIn : CScript) : BlockAssembler :=
  let coinbaseTx : CTransaction := {
    vin := [⟨⟨0, 0xffffffff⟩, scriptSig, 0xffffffff⟩]
    vout := if env.fProofOfStake then [⟨0, []⟩]
      else [⟨getBlockSubsidy env.nHeight env.params, scriptPubKeyIn⟩] }
  if env.fProofOfStake
  then { vtx := [coinbaseTx, coinstakeTemplate scriptPubKeyIn]
         originalRewardTx := coinstakeTemplate scriptPubKeyIn }
  else { vtx := [coinbaseTx], originalRewardTx := coinbaseTx }

end MinerEnv

end Artax
