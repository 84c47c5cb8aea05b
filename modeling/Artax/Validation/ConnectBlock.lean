import Artax.Aal.ByteCodeExec
import Artax.Consensus.Emission
import Artax.Dgp.Agreement
import Artax.Validation.Reward
import Artax.Validation.TxConverter

/-!
# Connecting a block

`ConnectBlock` without `fJustCheck`: the governed limits, `CheckBlock`, the proof checks, and then by
transaction the inputs, fees, contract executions and coins. Script verification, signature operation
costs, sequence locks and the stake kernel are parameters.
-/

namespace Artax

open Util (require whenever)

def minimumGasLimit : Nat := 10000

def stakeTimestampMask : UInt32 := 15

def bip34ImpliesBip30Limit : Nat := 1983702

namespace CBlock

def baseSize (block : CBlock) : Nat :=
  180 + compactSizeLength block.vchBlockSig.length + block.vchBlockSig.length +
    compactSizeLength block.vtx.length + (block.vtx.map CTransaction.baseSize).sum

end CBlock

/-- What `ConnectBlock` asks of the rest of the node, for the block it connects. -/
structure ConnectEnv extends CheckEnv where
  params : ConsensusParams
  execution : EVMSchedule → ExecutionContext
  dgp : ArtaxState → ArtaxDGP
  script : ScriptEnv
  hash160 : Bytes → Address
  stateRoot : (Address → Option AccountRecord) → H256
  utxoRoot : (Address → Option Vin) → H256
  blockWeight : CBlock → Nat
  sigOpCost : CoinsView → CTransaction → Nat
  checkInputs : CoinsView → CTransaction → Except Rejection Unit
  sequenceLocks : CTransaction → List Nat → Bool
  nextWorkRequired : Bool → UInt32
  checkProofOfStake : CoinsView → CBlock → Except Rejection Unit
  scriptsMap : Int → Option (H256 × CScript)
  readStakeIndex : Int → Option Address
  dgpMaxBlockSize : UInt32

structure PrevIndex where
  nHeight : Nat
  hash : H256
  hashStateRoot : H256
  hashUTXORoot : H256
  nMoneySupply : UInt64
  deriving DecidableEq, Repr

/-- What the loop of `ConnectBlock` carries from transaction to transaction. -/
structure Connecting where
  view : CoinsView
  state : ArtaxState
  nFees : CAmount := 0
  nActualStakeReward : CAmount := 0
  nSigOpsCost : Nat := 0
  blockGasUsed : UInt64 := 0
  gasRefunds : CAmount := 0
  nValueOut : UInt64 := 0
  nValueIn : UInt64 := 0
  checkVouts : List CTxOut := []
  checkVtx : List CTransaction := []
  vtxundo : List (List Coin) := []

namespace ConnectEnv

variable (env : ConnectEnv)

def executionContext (chain : ActiveChain) (schedule : EVMSchedule) : ExecutionContext :=
  { env.execution schedule with computeHash := env.computeHash, chainHeight := chain.height }

/-- `ByteCodeExec::BuildEVMEnvironment`. -/
def buildEVMEnvironment (chain : ActiveChain) (block : CBlock) (blockGasLimit : UInt64) : EnvInfo where
  number := (chain.height + 1).toNat
  timestamp := BitVec.ofNat 256 block.nTime.toNat
  difficulty := BitVec.ofNat 256 block.nBits.toNat
  lastHashes :=
    let hashes := (chain.reverse.take 256).map ChainEntry.hash
    hashes ++ List.replicate (256 - hashes.length) 0
  gasLimit := blockGasLimit.toBitVec.toInt
  author :=
    let reward := if block.isProofOfStake then block.coinstake.vout[1]? else block.coinbase.vout[0]?
    ethAddrFromScript env.hash160 ((reward.map CTxOut.scriptPubKey).getD [])

/-- `CheckSenderScript`. -/
def checkSenderScript (view : CoinsView) (tx : CTransaction) : Bool :=
  let prevout := (tx.vin.head?.map CTxIn.prevout).getD ⟨0, 0xffffffff⟩
  let script := (view.accessCoin prevout).out.scriptPubKey
  script.isPayToPubkeyHash || script.isPayToPubkey

def converter (view : CoinsView) (block : CBlock) (tx : CTransaction) : ArtaxTxConverter where
  txBit := tx
  sender := getSenderAddress env.hash160 env.computeHash block.vtx
    (fun outpoint => (view.accessCoin outpoint).out.scriptPubKey) tx
  hash := tx.getHash env.computeHash
  script := env.script

/-- The loop of `ConnectBlock` over the virtual machine transactions, from the gas before: whether
one has a version other than zero. -/
def checkVersionsAndGas (minGasPrice blockGasLimit : UInt64) (nTxFee : CAmount) :
    List ArtaxTransaction → U256 → U256 → Bool → Except Rejection Bool
  | [], _, _, nonZeroVersion => .ok nonZeroVersion
  | qtx :: rest, sumGas, gasAllTxs, nonZeroVersion => do
    let sumGas := sumGas + qtx.gas * qtx.gasPrice
    let gasAllTxs := gasAllTxs + qtx.gas
    let v := qtx.version
    require (decide (sumGas ≤ BitVec.ofNat 256 (2 ^ 63 - 1))) ⟨100, "bad-tx-gas-stipend-overflow"⟩
    require (decide (sumGas ≤ BitVec.ofInt 256 nTxFee)) ⟨100, "bad-txns-fee-notenough"⟩
    require (v.format == 0) ⟨100, "bad-tx-version-format"⟩
    require (v.rootVM != 0 || !nonZeroVersion) ⟨100, "bad-tx-mixed-zero-versions"⟩
    require (v.rootVM == 0 || v.rootVM == 1) ⟨100, "bad-tx-version-rootvm"⟩
    require (v.vmVersion == 0) ⟨100, "bad-tx-version-vmversion"⟩
    require (v.flagOptions == 0) ⟨100, "bad-tx-version-flags"⟩
    require (!(decide (qtx.gas.toNat < minimumGasLimit) && v.rootVM != 0)) ⟨100, "bad-tx-too-little-gas"⟩
    require (decide (qtx.gas.toNat ≤ 2 ^ 32 - 1)) ⟨100, "bad-tx-too-much-gas"⟩
    require (decide (gasAllTxs ≤ BitVec.ofNat 256 blockGasLimit.toNat))
      ⟨1, "bad-txns-gas-exceeds-blockgaslimit"⟩
    require (!(v.rootVM != 0 && decide (UInt64.ofBitVec (qtx.gasPrice.setWidth 64) < minGasPrice)))
      ⟨100, "bad-tx-low-gas-price"⟩
    checkVersionsAndGas minGasPrice blockGasLimit nTxFee rest sumGas gasAllTxs
      (nonZeroVersion || v.rootVM != 0)

/-- Everything `ConnectBlock` checks of a contract transaction before it executes it: the virtual
machine transactions it decodes. -/
def checkContract (minGasPrice blockGasLimit : UInt64) (view : CoinsView) (block : CBlock)
    (tx : CTransaction) : Except Rejection (List ArtaxTransaction) := do
  require (checkSenderScript view tx) ⟨100, "bad-txns-invalid-sender-script"⟩
  match (env.converter view block tx).extractionArtaxTransactions with
  | none => .error ⟨100, "bad-tx-bad-contract-format"⟩
  | some (xaxTransactions, xaxETP) => do
    -- `CheckMinGasPrice`
    require (xaxETP.all fun etp => decide (BitVec.ofNat 256 minGasPrice.toNat ≤ etp.gasPrice))
      ⟨100, "bad-tx-low-gas-price"⟩
    let value_out ← tx.valueOutOrThrow
    let nonZeroVersion ← checkVersionsAndGas minGasPrice blockGasLimit
      (view.getValueIn tx - value_out) xaxTransactions 0#256 0#256 false
    require (nonZeroVersion || tx.hasOpSpend) ⟨100, "bad-tx-improper-version-0"⟩
    .ok xaxTransactions

def executeContract (ctx : ExecutionContext) (info : EnvInfo) (txs : List ArtaxTransaction)
    (state : ArtaxState) : Except Rejection (ArtaxState × ByteCodeExecResult) :=
  match ByteCodeExec.performByteCode ctx info .committed txs state [] with
  | some (true, state, results) =>
    match ByteCodeExec.processingResults ctx (txs.zip results) {} with
    | some bcer => .ok (state, bcer)
    | none => .error ⟨100, "bad-vm-exec-processing"⟩
  | _ => .error ⟨100, "bad-tx-unknown-error"⟩

structure Round where
  block : CBlock
  nHeight : Nat
  limits : BlockLimits
  minGasPrice : UInt64
  blockGasLimit : UInt64
  ctx : ExecutionContext
  info : EnvInfo

def checkFee (r : Round) (s : Connecting) (tx : CTransaction) : Except Rejection CAmount :=
  if tx.isCoinBase then .ok 0
  else do
    let txfee ← tx.checkTxInputs s.view r.nHeight
    require (moneyRange (s.nFees + txfee)) ⟨100, "bad-txns-accumulated-fee-outofrange"⟩
    require (env.sequenceLocks tx (tx.vin.map fun txin => (s.view.accessCoin txin.prevout).nHeight))
      ⟨100, "bad-txns-nonfinal"⟩
    .ok txfee

/-- Contract outputs are only spent by inputs that are `OP_SPEND`. -/
def checkContractSpends (view : CoinsView) (tx : CTransaction) : Except Rejection Unit :=
  require (tx.vin.all fun txin => txin.scriptSig.hasOpSpend ||
    !(view.accessCoin txin.prevout).out.scriptPubKey.isContract)
    ⟨100, "bad-txns-invalid-contract-spend"⟩

def connectContract (r : Round) (s : Connecting) (tx : CTransaction) : Except Rejection Connecting :=
  if tx.hasCreateOrCall && !tx.hasOpSpend then do
    let txs ← env.checkContract r.minGasPrice r.blockGasLimit s.view r.block tx
    let (state, bcer) ← executeContract r.ctx r.info txs s.state
    let blockGasUsed := s.blockGasUsed + bcer.usedGas
    require (decide (blockGasUsed ≤ r.blockGasLimit)) ⟨1000, "bad-blk-gaslimit"⟩
    .ok { s with
      state, blockGasUsed
      gasRefunds := s.gasRefunds + (bcer.refundOutputs.map CTxOut.nValue).sum
      checkVouts := s.checkVouts ++ bcer.refundOutputs
      checkVtx := s.checkVtx ++ bcer.valueTransfers }
  else .ok s

def connectInputs (r : Round) (s : Connecting) (tx : CTransaction) : Except Rejection Connecting := do
  let txfee ← env.checkFee r s tx
  let nSigOpsCost := s.nSigOpsCost + env.sigOpCost s.view tx
  require (decide (nSigOpsCost ≤ r.limits.dgpMaxBlockSigOps)) ⟨100, "bad-blk-sigops"⟩
  whenever (!tx.isCoinBase) (env.checkInputs s.view tx)
  whenever (!tx.isCoinBase) (checkContractSpends s.view tx)
  let value_out ← tx.valueOutOrThrow
  let nValueIn := s.view.getValueIn tx
  .ok { s with
    nFees := s.nFees + txfee
    nSigOpsCost
    nActualStakeReward := if !tx.isCoinBase && tx.isCoinStake then value_out - nValueIn
      else s.nActualStakeReward
    nValueOut := s.nValueOut + UInt64.ofInt value_out
    nValueIn := s.nValueIn + UInt64.ofInt nValueIn
    checkVtx := if tx.hasOpSpend then s.checkVtx else s.checkVtx ++ [tx] }

def connectTx (r : Round) (s : Connecting) (tx : CTransaction) : Except Rejection Connecting := do
  let s ← env.connectInputs r s tx
  let s ← env.connectContract r s tx
  let (view, undo) := s.view.updateCoins env.computeHash tx r.nHeight
  .ok { s with view, vtxundo := s.vtxundo ++ [undo] }

/-- `CChainState::UpdateHashProof`. -/
def updateHashProof (nHeight : Nat) (view : CoinsView) (block : CBlock) : Except Rejection Unit := do
  require (!(block.isProofOfWork && decide (env.params.nLastPOWBlock < nHeight))) ⟨100, ""⟩
  require (!block.isProofOfStake || block.nTime &&& stakeTimestampMask == 0) ⟨50, ""⟩
  require (block.nBits == env.nextWorkRequired block.isProofOfStake) ⟨100, ""⟩
  whenever block.isProofOfStake (env.checkProofOfStake view block)

def checkOverwrites (nHeight : Nat) (view : CoinsView) (block : CBlock) : Except Rejection Unit :=
  whenever (decide (bip34ImpliesBip30Limit ≤ nHeight))
    (require (block.vtx.all fun tx => (List.range tx.vout.length).all fun o =>
      !view.haveCoin ⟨tx.getHash env.computeHash, UInt32.ofNat o⟩) ⟨100, "bad-txns-BIP30"⟩)

/-- The header with the Merkle root and the roots that the execution left. -/
def expectedHeader (block : CBlock) (s : Connecting) : CBlockHeader :=
  { block.toCBlockHeader with
    hashMerkleRoot := (blockMerkleRoot env.computeHash env.pairHash s.checkVtx).1
    hashStateRoot := env.stateRoot s.state.trie
    hashUTXORoot := env.utxoRoot s.state.stateUTXO }

/-- The check of the money supply, in 64 bits as in the source. -/
def checkMoneySupply (nHeight : Nat) (nMoneySupply : UInt64) : Except Rejection Unit :=
  require (!incorrectMoneySupply env.params (Int32.ofNat nHeight) nMoneySupply)
    ⟨100, "incorrect-money-supply"⟩

/-- The checks of `ConnectBlock` after its loop. -/
def concludeBlock (chain : ActiveChain) (r : Round) (prev : PrevIndex) (s : Connecting) :
    Except Rejection Unit := do
  require (!decide (s.nFees < s.gasRefunds)) ⟨1000, "bad-blk-fees-greater-gasrefund"⟩
  -- a failed reward check is reported once more, without its reason
  match checkReward env.params (addMPoSScript chain env.scriptsMap env.readStakeIndex env.params)
    r.block r.nHeight s.nFees s.gasRefunds s.nActualStakeReward s.checkVouts with
  | .error rejection => .error ⟨rejection.dos + 100, ""⟩
  | .ok () => do
    require (env.hashHeader (env.expectedHeader r.block s) == env.hashHeader r.block.toCBlockHeader)
      ⟨100, "incorrect-transactions-or-hashes-block"⟩
    env.checkMoneySupply r.nHeight (prev.nMoneySupply + s.nValueOut - s.nValueIn)

/-- The rounds of a block at a height, from the governed parameters; `none` where a read of them does
not return. -/
def round (chain : ActiveChain) (nHeight : Nat) (state : ArtaxState) (block : CBlock) :
    Option Round :=
  match (env.dgp state).connectBlockReads nHeight with
  | ⟨some schedule, some sizeBlockDGP, some minGasPrice, some blockGasLimit⟩ =>
    some {
      block, nHeight, minGasPrice, blockGasLimit
      limits := updateBlockSizeParams (if sizeBlockDGP = 0 then env.dgpMaxBlockSize else sizeBlockDGP)
      ctx := env.executionContext chain schedule
      info := env.buildEVMEnvironment chain block blockGasLimit }
  | _ => none

def checkBeforeCoins (r : Round) : Except Rejection Unit := do
  require (!r.block.vtx.isEmpty &&
      decide (r.block.vtx.length ≤ r.limits.dgpMaxBlockSize.toNat) &&
      decide (r.block.baseSize ≤ r.limits.dgpMaxBlockSize.toNat)) ⟨100, "bad-blk-length"⟩
  require (decide (env.blockWeight r.block ≤ r.limits.dgpMaxBlockWeight.toNat)) ⟨100, "bad-blk-weight"⟩
  env.checkBlock r.limits true true true r.block

/-- `ConnectBlock` for a block on top of another. The genesis block is accepted unseen, which the
result `none` stands for. -/
def connectBlock (chain : ActiveChain) (prev : PrevIndex) (view : CoinsView) (state : ArtaxState)
    (block : CBlock) : Except Rejection (Option Connecting) :=
  match env.round chain (prev.nHeight + 1) state block with
  | none => .error ⟨0, ""⟩
  | some r => do
    env.checkBeforeCoins r
    if env.hashHeader block.toCBlockHeader = env.params.hashGenesisBlock then .ok none
    else do
      env.updateHashProof r.nHeight view block
      env.checkOverwrites r.nHeight view block
      let s ← block.vtx.foldlM (env.connectTx r) { view, state }
      env.concludeBlock chain r prev s
      .ok (some s)

end ConnectEnv
end Artax
