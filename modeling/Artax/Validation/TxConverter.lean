import Artax.Script.Standard

/-!
# Decoding contract outputs

`ArtaxTxConverter` evaluates the script of every contract output and takes the operands from the
stack that is left. One stack serves all outputs of a transaction, and the result of the evaluation
is not looked at.
-/

namespace Artax

structure EthTransactionParams where
  version : VersionVM
  gasLimit : U256
  gasPrice : U256
  code : Bytes
  receiveAddress : Address
  deriving DecidableEq, Repr

/-- Evaluation as `receiveStack` asks for it: no verification flags, and a signature checker that
accepts nothing. -/
def ScriptEnv.execByteCode (env : ScriptEnv) : ScriptEnv :=
  { env with
    flags := {}
    sigversion := .base
    checkSig := fun _ _ _ _ => false
    checkLockTime := fun _ => false
    checkSequence := fun _ => false }

def ScriptEnv.sample : ScriptEnv where
  checkSig := fun _ _ _ _ => false
  checkLockTime := fun _ => false
  checkSequence := fun _ => false
  ripemd160 := id
  sha1 := id
  sha256 := id
  checkLowS := fun _ => false

/-- The script of the output that the first input of a transaction spends: one of the block's own
transactions is preferred to the coins view. -/
def senderScript (computeHash : CTransaction → H256) (blockTxs : List CTransaction)
    (coinScript : COutPoint → CScript) (tx : CTransaction) : CScript :=
  match tx.vin with
  | [] => []
  | txin :: _ =>
    match blockTxs.find? fun btx => btx.getHash computeHash == txin.prevout.hash with
    | some btx => ((btx.vout[txin.prevout.n.toNat]?).map CTxOut.scriptPubKey).getD []
    | none => coinScript txin.prevout

/-- `GetSenderAddress`. -/
def getSenderAddress (hash160 : Bytes → Address) (computeHash : CTransaction → H256)
    (blockTxs : List CTransaction) (coinScript : COutPoint → CScript) (tx : CTransaction) :
    Address :=
  ethAddrFromScript hash160 (senderScript computeHash blockTxs coinScript tx)

/-- `ArtaxTxConverter`, with what it finds for the sender and the hash of its transaction. -/
structure ArtaxTxConverter where
  txBit : CTransaction
  sender : Address
  hash : H256
  script : ScriptEnv
  pastEnd : UInt8 := 0

namespace ArtaxTxConverter

variable (c : ArtaxTxConverter)

/-- `receiveStack`: the contract opcode and the stack below it, `none` where it returns false. -/
def receiveStack (stack : List Bytes) (scriptPubKey : CScript) : Option (UInt8 × List Bytes) :=
  match (evalScript c.script.execByteCode stack scriptPubKey).2 with
  | [] => none
  | scriptRest :: stack =>
    let opcode := scriptRest.headD c.pastEnd
    if (opcode = Op.create ∧ stack.length < 4) ∨ (opcode = Op.call ∧ stack.length < 5) then none
    else some (opcode, stack)

def parseOperands (receiveAddress : Address) : List Bytes → Option (EthTransactionParams × List Bytes)
  | code :: price :: limit :: version :: stack =>
    if code.isEmpty then none
    else match CScriptNum.vchToUint64 price, CScriptNum.vchToUint64 limit with
      | some gasPrice, some gasLimit =>
        if 2 ^ 63 - 1 < gasPrice ∨ 2 ^ 63 - 1 < gasLimit then none
        else if gasPrice ≠ 0 ∧ (2 ^ 63 - 1) / gasPrice < gasLimit then none
        else if 4 < version.length then none
        else match CScriptNum.vchToUint64 version with
          | none => none
          | some raw =>
            some (⟨VersionVM.fromRaw (BitVec.ofNat 32 raw), BitVec.ofNat 256 gasLimit,
              BitVec.ofNat 256 gasPrice, code, receiveAddress⟩, stack)
      | _, _ => none
  | _ => none

/-- `parseEthTXParams`: the parameters and the stack that is left, `none` where it returns false. -/
def parseEthTXParams (opcode : UInt8) (stack : List Bytes) :
    Option (EthTransactionParams × List Bytes) :=
  if opcode = Op.call then
    match stack with
    | [] => none
    | vecAddr :: stack => parseOperands (Address.ofBytes vecAddr) stack
  else parseOperands 0 stack

/-- `createEthTX`. -/
def createEthTX (opcode : UInt8) (etp : EthTransactionParams) (txout : CTxOut) (nOut : Nat) :
    ArtaxTransaction where
  version := etp.version
  isCreation := decide (etp.receiveAddress = 0 ∧ opcode ≠ Op.call)
  value := BitVec.ofInt 256 txout.nValue
  gasPrice := etp.gasPrice
  gas := etp.gasLimit
  receiveAddress := etp.receiveAddress
  data := etp.code
  sender := c.sender
  hashWith := c.hash
  nVout := UInt32.ofNat nOut

def extract : List (CTxOut × Nat) → List Bytes →
    Option (List ArtaxTransaction × List EthTransactionParams)
  | [], _ => some ([], [])
  | (txout, i) :: rest, stack =>
    if txout.scriptPubKey.hasOpCreate || txout.scriptPubKey.hasOpCall then
      match c.receiveStack stack txout.scriptPubKey with
      | none => none
      | some (opcode, stack) =>
        match parseEthTXParams opcode stack with
        | none => none
        | some (params, stack) =>
          match extract rest stack with
          | none => none
          | some (resultTX, resultETP) =>
            some (c.createEthTX opcode params txout i :: resultTX, params :: resultETP)
    else extract rest stack

/-- `extractionArtaxTransactions`. -/
def extractionArtaxTransactions : Option (List ArtaxTransaction × List EthTransactionParams) :=
  c.extract c.txBit.vout.zipIdx []

end ArtaxTxConverter
end Artax
