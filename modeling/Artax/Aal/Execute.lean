import Artax.Aal.CondensingTX

/-!
# Executing a contract transaction

`ArtaxState::execute` with the parts of `Executive` it calls. The interpreter is a parameter. An
execution is `none` where the process ends: on a failed assertion, or when another exception than a
`VMException` escapes.
-/

namespace Artax

open Executive

/-- `dev::eth::Permanence`. -/
inductive Permanence where
  | reverted | committed
  deriving DecidableEq, Repr

/-- What the code of a frame does, and the gas it leaves. -/
structure VmRun where
  trace : Trace
  gasLeft : U256

/-- What `execute` depends on besides the state, the environment and the transaction. -/
structure ExecutionContext where
  sealEngine : SealEngine
  vm : EnvInfo → ArtaxTransaction → (Address → Option Account) → VmRun
  baseGasRequired : ArtaxTransaction → Nat
  gasCovers : ArtaxTransaction → Bool
  amounts : AmountConversion
  computeHash : CTransaction → H256
  sha256 : Bytes → Bytes
  ripemd160 : Bytes → Address
  chainHeight : Int

def ExecutionContext.sample (trace : Trace) : ExecutionContext where
  sealEngine := { isPrecompiled := fun _ => false, sstoreRefundGas := 0#256,
                  suicideRefundGas := 0#256, contractAddress := fun _ _ => 5 }
  vm := fun _ _ _ => ⟨trace, 0#256⟩
  baseGasRequired := fun _ => 0
  gasCovers := fun _ => true
  amounts := .byValue
  computeHash := fun _ => 1
  sha256 := id
  ripemd160 := fun _ => 9
  chainHeight := 100000

/-- From this height a failed execution only clears the caches. -/
def nFixUTXOCacheHFHeight : Int := 100000

/-- `dev::eth::ExecutionResult`. -/
structure ExecutionResult where
  gasUsed : U256 := 0#256
  excepted : TransactionException := .unknown
  newAddress : Address := 0
  output : Bytes := []
  gasRefunded : U256 := 0#256
  deriving DecidableEq, Repr

/-- What `ArtaxState::execute` returns. -/
structure ResultExecute where
  execRes : ExecutionResult
  logs : List LogEntry
  tx : CTransaction
  deriving DecidableEq, Repr

/-- `ArtaxState::createArtaxAddress`: RIPEMD-160 over SHA-256 of the outpoint. -/
def createArtaxAddress (ctx : ExecutionContext) (hashTx : H256) (voutNumber : UInt32) : Address :=
  ctx.ripemd160 (ctx.sha256
    (CScript.littleEndian 32 hashTx ++ CScript.littleEndian 4 voutNumber.toNat))

namespace Executive

variable (ctx : ExecutionContext) (env : EnvInfo) (t : ArtaxTransaction)

/-- `Executive::initialize`: the exception it throws, if any. -/
def initialise (s : ArtaxState) : Option TransactionException :=
  if env.gasLimit < env.gasUsed.toNat + t.gas.toNat then some .blockGasLimitReached
  else if t.gas.toNat < ctx.baseGasRequired t then some .outOfGasBase
  else if t.nonce ≠ s.getNonce t.sender then some .invalidNonce
  else if (s.balance t.sender).toNat < t.value.toNat + t.gas.toNat * t.gasPrice.toNat
  then some .notEnoughCash
  else none

/-- What `Executive::execute` leaves; the frame is absent where it returns true. -/
structure Entered where
  state : ArtaxState
  savepoint : Nat
  frame : Option Frame
  newAddress : Address

/-- The branch of `Executive::execute` for a call. -/
def enterCall (s : ArtaxState) : Option Entered :=
  let s := s.incNonce t.sender
  match call ctx.sealEngine env ⟨t.sender, t.receiveAddress, t.receiveAddress, t.value⟩
      (ctx.gasCovers t) s with
  | none => none
  | some (entered, ext) =>
    some ⟨entered, s.savepoint, if ext then some ⟨t.receiveAddress, t.sender, 0⟩ else none, 0⟩

/-- The branch of `Executive::execute` for a creation. -/
def enterCreate (s : ArtaxState) : Option Entered :=
  match create ctx.sealEngine env t.sender t.value (!t.data.isEmpty) s with
  | none => none
  | some made =>
    some ⟨made.state, made.savepoint,
      if t.data.isEmpty then none else some ⟨made.newAddress, t.sender, 0⟩, made.newAddress⟩

/-- `Executive::execute`: the sender pays for all gas first. -/
def execute (s : ArtaxState) : Option Entered :=
  match s.subBalance t.sender (t.gas * t.gasPrice) with
  | none => none
  | some s => if t.isCreation then enterCreate ctx env t s else enterCall ctx env t s

/-- What `Executive::go` leaves. -/
structure Ran where
  state : ArtaxState
  sub : SubState
  gas : U256
  excepted : TransactionException
  newAddress : Address
  output : Bytes

/-- `Executive::go`; an exception rolls the frame back and takes all gas. -/
def go (entered : Entered) (frame : Frame) : Option Ran :=
  let vm := ctx.vm env t entered.state.account
  match run ctx.sealEngine env vm.trace frame entered.state {} with
  | none => none
  | some (.threw left e) =>
    some ⟨left.rollback entered.savepoint, {}, 0#256, e.toTransactionException, 0, []⟩
  | some (.done left sub output) =>
    some ⟨if t.isCreation then left.setNewCode frame.myAddress output else left, sub, vm.gasLeft,
      .none, entered.newAddress, output⟩

/-- The gas refunded for cleared storage and suicides. -/
def refunds (ran : Ran) : U256 :=
  ran.sub.refunds + ctx.sealEngine.suicideRefundGas * BitVec.ofNat 256 ran.sub.suicides.length

/-- The gas left with the refund, which is at most half of what was used. -/
def finalGas (ran : Ran) : U256 :=
  let half := (t.gas - ran.gas) / 2#256
  ran.gas + (if refunds ctx ran ≤ half then refunds ctx ran else half)

/-- `Executive::finalize`: gas is paid to sender and author, then suicides are killed. -/
def finalizeState (ran : Ran) : ArtaxState :=
  let gas := finalGas ctx t ran
  let s := (ran.state.addBalance t.sender (gas * t.gasPrice)).1
  let s := (s.addBalance env.author ((t.gas - gas) * t.gasPrice)).1
  ran.sub.suicides.foldl ArtaxState.kill s

/-- The result that `Executive::finalize` fills in. -/
def finalizeResult (ran : Ran) : ExecutionResult where
  gasUsed := t.gas - finalGas ctx t ran
  excepted := ran.excepted
  newAddress := ran.newAddress
  output := ran.output
  gasRefunded := refunds ctx ran

end Executive

namespace ArtaxState

variable (ctx : ExecutionContext) (env : EnvInfo) (t : ArtaxTransaction)

/-- How the `try` block of `execute` ends. -/
inductive Attempt where
  | finished (state : ArtaxState) (res : ExecutionResult) (logs : List LogEntry)
      (tx : CTransaction)
  | thrown (state : ArtaxState) (e : TransactionException) (voutLimit : Bool)
      (logs : List LogEntry)

variable (s : ArtaxState)

/-- What `CondensingTX` is made from. -/
def condensingInput : CondensingInput where
  vin := s.vin
  live := fun a => ((s.account a).map Account.isAlive).getD false
  transfers := s.transfers
  deleteAddresses := s.deleteAddresses
  transaction := t
  amounts := ctx.amounts

/-- The commits of both tries. -/
def commitAll : ArtaxState :=
  s.commitUTXO.commit (decide (eip158ForkBlock ≤ env.number))

/-- The new outputs of the condensing transaction. -/
def recordVins : ArtaxState :=
  let made := CondensingTX.createCondensingTX (condensingInput ctx t s)
  s.updateUTXO (CondensingTX.createVin (condensingInput ctx t s) made.1
    (made.2.getHash ctx.computeHash))

/-- The end of the `try` block where results are kept. -/
def settle (savepoint : Nat) (res : ExecutionResult) (logs : List LogEntry) (s : ArtaxState) :
    Attempt :=
  if res.excepted = .none then
    let (members, tx) := CondensingTX.createCondensingTX (condensingInput ctx t s)
    if members.voutOverflow then .thrown (s.rollback savepoint) .unknown true logs
    else .finished ((recordVins ctx t s).commitAll env) res logs tx
  else .finished (s.commitAll env) res logs {}

/-- After `finalize` and the deletion of the delete set. -/
def deletedState (ran : Executive.Ran) : ArtaxState :=
  let s := finalizeState ctx env t ran
  s.deleteAccounts s.deleteAddresses

/-- The rest of the `try` block by permanence. -/
def conclude (p : Permanence) (savepoint : Nat) (ran : Executive.Ran) : Attempt :=
  let res := finalizeResult ctx t ran
  match p with
  | .reverted => .finished (finalizeState ctx env t ran).clearCaches res ran.sub.logs {}
  | .committed => settle ctx env t savepoint res ran.sub.logs (deletedState ctx env t ran)

/-- The `try` block of `ArtaxState::execute`. -/
def tryBlock (p : Permanence) (s : ArtaxState) : Option Attempt :=
  if t.isCreation = true ∧ t.value ≠ 0#256 then some (.thrown s .createWithValue false [])
  else match initialise ctx env t s with
    | some e => some (.thrown s e false [])
    | none =>
      match execute ctx env t s with
      | none => some (.thrown s .notEnoughCash false [])
      | some entered =>
        match entered.frame with
        | none => some (.thrown (entered.state.rollback entered.savepoint) .unknown false [])
        | some frame =>
          match go ctx env t entered frame with
          | none => none
          | some ran => some (conclude ctx env t p entered.savepoint ran)

/-- The start of `execute`: the sender is credited, the address of a created contract fixed, and
sender and author are marked for deletion. -/
def prepare : ArtaxState :=
  let s := (s.addBalance t.sender (t.value + t.gas * t.gasPrice)).1
  { s with
    newAddress := if t.isCreation then createArtaxAddress ctx t.hashWith t.nVout else 0
    deleteAddresses := (s.deleteAddresses.insert t.sender).insert env.author }

/-- Its `catch` block, on the state. -/
def catchBlock (p : Permanence) (s : ArtaxState) : ArtaxState :=
  if ctx.chainHeight < nFixUTXOCacheHFHeight ∧ p ≠ .reverted
  then (s.deleteAccounts s.deleteAddresses).commit true
  else s.clearCaches

/-- The members that `execute` clears at its end. -/
def reset : ArtaxState := { s with newAddress := 0, transfers := [] }

/-- A call reports its contract as the new address. -/
def reportAddress (res : ExecutionResult) : ExecutionResult :=
  if t.isCreation then res else { res with newAddress := t.receiveAddress }

/-- Returns the value of a transaction to its sender. -/
def refundTx (amount : CAmount) : CTransaction where
  vin := [{ prevout := ⟨t.hashWith, t.nVout⟩, scriptSig := CScript.opSpend }]
  vout := [⟨amount, CScript.payToPubkeyHash t.sender⟩]

/-- The result of the `catch` block. -/
def thrownResult (e : TransactionException) (voutLimit : Bool) (logs : List LogEntry) :
    ResultExecute :=
  if voutLimit then
    { execRes := { gasUsed := t.gas, excepted := .none }, logs,
      tx := if 0#256 < t.value then refundTx t (ctx.amounts.viaUint64 t.value) else {} }
  else { execRes := reportAddress t { gasUsed := t.gas, excepted := e }, logs, tx := {} }

/-- `ArtaxState::execute`. -/
def execute (p : Permanence) (s : ArtaxState) : Option (ArtaxState × ResultExecute) :=
  if t.version ≠ .evmDefault then none
  else match tryBlock ctx env t p (prepare ctx env t s) with
    | none => none
    | some (.finished s res logs tx) => some (s.reset, ⟨reportAddress t res, logs, tx⟩)
    | some (.thrown s e voutLimit logs) =>
      some ((catchBlock ctx p s).reset, thrownResult ctx t e voutLimit logs)

end ArtaxState
end Artax
