import Artax.Evm.State

/-!
# Call and create frames

`Executive` and `ExtVM` around the virtual machine. The interpreter is a finite tree of what a frame
performs, ended by a stop, a suicide or a thrown `VMException`. `run` gives it the meaning of the C++
frames: savepoints, transfers, the delete set, the substate and the rollback.
-/

namespace Artax

inductive TransactionException where
  | none | unknown | badRLP | invalidFormat | outOfGasIntrinsic | invalidSignature | invalidNonce
  | notEnoughCash | outOfGasBase | blockGasLimitReached | badInstruction | badJumpDestination
  | outOfGas | outOfStack | stackUnderflow | createWithValue | noInformation
  deriving DecidableEq, Repr

inductive VMException where
  | badInstruction | badJumpDestination | outOfGas | outOfStack | stackUnderflow | createWithValue
  deriving DecidableEq, Repr

def VMException.toTransactionException : VMException → TransactionException
  | badInstruction => .badInstruction
  | badJumpDestination => .badJumpDestination
  | outOfGas => .outOfGas
  | outOfStack => .outOfStack
  | stackUnderflow => .stackUnderflow
  | createWithValue => .createWithValue

theorem VMException.toTransactionException_ne_none (e : VMException) :
    e.toTransactionException ≠ .none := by
  cases e <;> decide

inductive CallOp where
  | call | callCode | delegateCall
  deriving DecidableEq, Repr

inductive Trace where
  /-- `STOP`, `RETURN`, or the end of the code; in a creation frame the output is the code that
  passed the deposit check. -/
  | stop (output : Bytes)
  | exception (e : VMException)
  | suicide (dest : Address)
  | sstore (key value : U256) (rest : Trace)
  | log (topics : List U256) (data : Bytes) (rest : Trace)
  /-- A message call; the flag says whether the gas passed covers the cost of a precompiled
  contract, and is ignored at every other address. -/
  | call (op : CallOp) (codeAddress : Address) (value : U256) (gasCovers : Bool)
      (inner rest : Trace)
  /-- `CREATE` without endowment; the flag says whether there is init code to run. -/
  | create (hasInit : Bool) (inner rest : Trace)
  deriving Repr

/-- `VersionVM`, the version word of a contract output as its bit fields. -/
structure VersionVM where
  format : BitVec 2
  rootVM : BitVec 6
  vmVersion : BitVec 8
  flagOptions : BitVec 16
  deriving DecidableEq, Repr

namespace VersionVM

/-- `VersionVM::fromRaw`. -/
def fromRaw (raw : BitVec 32) : VersionVM :=
  ⟨raw.extractLsb' 0 2, raw.extractLsb' 2 6, raw.extractLsb' 8 8, raw.extractLsb' 16 16⟩

/-- `VersionVM::toRaw`. -/
def toRaw (v : VersionVM) : BitVec 32 := v.flagOptions ++ v.vmVersion ++ v.rootVM ++ v.format

def noExec : VersionVM := ⟨0, 0, 0, 0⟩

def evmDefault : VersionVM := ⟨0, 1, 0, 0⟩

end VersionVM

/-- `ArtaxTransaction`: the virtual machine transaction decoded from one contract output. -/
structure ArtaxTransaction where
  version : VersionVM := .evmDefault
  isCreation : Bool
  value : U256
  gasPrice : U256
  gas : U256
  receiveAddress : Address := 0
  data : Bytes
  nonce : U256 := 0#256
  sender : Address := 0
  hashWith : H256 := 0
  nVout : UInt32 := 0
  deriving DecidableEq, Repr

/-- `EnvInfo`, with the fields that only the virtual machine reads after those of the modelled
code. -/
structure EnvInfo where
  number : Nat
  author : Address
  gasLimit : Int
  gasUsed : U256 := 0#256
  timestamp : U256 := 0#256
  difficulty : U256 := 0#256
  lastHashes : List H256 := []

def eip158ForkBlock : Nat := 0

/-- `SealEngineFace` with its schedule, and the address derivation of `Executive::create`. -/
structure SealEngine where
  isPrecompiled : Address → Bool
  sstoreRefundGas : U256
  suicideRefundGas : U256
  contractAddress : Address → U256 → Address

structure LogEntry where
  address : Address
  topics : List U256
  data : Bytes
  deriving DecidableEq, Repr

structure SubState where
  suicides : List Address := []
  logs : List LogEntry := []
  refunds : U256 := 0#256
  deriving DecidableEq, Repr

def SubState.accrue (parent child : SubState) : SubState :=
  { suicides := parent.suicides ++ child.suicides.filter (· ∉ parent.suicides)
    logs := parent.logs ++ child.logs
    refunds := parent.refunds + child.refunds }

structure Frame where
  myAddress : Address
  caller : Address
  depth : Nat

structure CallParameters where
  senderAddress : Address
  codeAddress : Address
  receiveAddress : Address
  valueTransfer : U256

def Frame.callParameters (f : Frame) (op : CallOp) (codeAddress : Address) (value : U256) :
    CallParameters where
  senderAddress := if op = .delegateCall then f.caller else f.myAddress
  codeAddress := codeAddress
  receiveAddress := if op = .call then codeAddress else f.myAddress
  valueTransfer := if op = .delegateCall then 0#256 else value

def Frame.callee (f : Frame) (p : CallParameters) : Frame :=
  ⟨p.receiveAddress, p.senderAddress, f.depth + 1⟩

namespace ArtaxState

/-- The marking of an address that is reached while it is not in use, so that the account a
transfer creates there is deleted after the transaction. -/
def noteUnused (s : ArtaxState) (a : Address) : ArtaxState :=
  if s.addressInUse a then s
  else { s.fetch a with deleteAddresses := s.deleteAddresses.insert a }

end ArtaxState

namespace Executive

def call (se : SealEngine) (env : EnvInfo) (p : CallParameters) (gasCovers : Bool)
    (s : ArtaxState) : Option (ArtaxState × Bool) :=
  let precompiled := se.isPrecompiled p.codeAddress
  if precompiled && !gasCovers then
    some (if eip158ForkBlock ≤ env.number then (s.addBalance p.codeAddress 0#256).1 else s, false)
  else
    let ext := !precompiled && s.addressHasCode p.codeAddress
    match (s.noteUnused p.receiveAddress).transferBalance
        p.senderAddress p.receiveAddress p.valueTransfer with
    | none => none
    | some (s, _) => some (s, ext)

structure Creation where
  state : ArtaxState
  savepoint : Nat
  newAddress : Address

def openAccount (se : SealEngine) (env : EnvInfo) (sender : Address) (endowment : U256)
    (s : ArtaxState) : Option Creation :=
  let nonce := s.getNonce sender
  let s := s.incNonce sender
  let savepoint := s.savepoint
  match s.transferBalance sender (se.contractAddress sender nonce) endowment with
  | none => none
  | some (s, newAddress) =>
    some ⟨if eip158ForkBlock ≤ env.number then s.incNonce newAddress else s, savepoint, newAddress⟩

/-- `Executive::create`; the flag says whether there is init code. Without it, code that is
already there is overwritten. -/
def create (se : SealEngine) (env : EnvInfo) (sender : Address) (endowment : U256)
    (hasInit : Bool) (s : ArtaxState) : Option Creation :=
  match openAccount se env sender endowment s with
  | none => none
  | some made =>
    some (if !hasInit && made.state.addressHasCode made.newAddress
      then { made with state := made.state.setNewCode made.newAddress [] } else made)

end Executive

/-- How a frame ends: normally, or by an exception with the state not yet rolled back. -/
inductive Outcome where
  | done (state : ArtaxState) (sub : SubState) (output : Bytes)
  | threw (state : ArtaxState) (e : VMException)

def Outcome.state : Outcome → ArtaxState
  | .done s _ _ => s
  | .threw s _ => s

/-- The effect of a frame on the state, `none` where an exception other than a `VMException`
escapes and the process exits. -/
def run (se : SealEngine) (env : EnvInfo) : Trace → Frame → ArtaxState → SubState → Option Outcome
  | .stop output, _, s, sub => some (.done s sub output)
  | .exception e, _, s, _ => some (.threw s e)
  | .suicide dest, f, s, sub =>
    let s := s.noteUnused dest
    match s.transferBalance f.myAddress dest (s.balance f.myAddress) with
    | none => none
    | some (s, _) => some (.done s { sub with suicides := sub.suicides.insert f.myAddress } [])
  | .sstore key value rest, f, s, sub =>
    let sub := if s.storage f.myAddress key ≠ 0#256 ∧ value = 0#256
      then { sub with refunds := sub.refunds + se.sstoreRefundGas } else sub
    run se env rest f (s.setStorage f.myAddress key value) sub
  | .log topics data rest, f, s, sub =>
    run se env rest f s { sub with logs := sub.logs ++ [⟨f.myAddress, topics, data⟩] }
  | .call op codeAddress value gasCovers inner rest, f, s, sub =>
    let p := f.callParameters op codeAddress value
    if p.valueTransfer ≤ s.balance f.myAddress ∧ f.depth < 1024 then
      match Executive.call se env p gasCovers s with
      | none => none
      | some (entered, false) => run se env rest f entered sub
      | some (entered, true) =>
        match run se env inner (f.callee p) entered {} with
        | none => none
        | some (.done left child _) => run se env rest f left (sub.accrue child)
        | some (.threw left _) => run se env rest f (left.rollback s.savepoint) sub
    else run se env rest f s sub
  | .create hasInit inner rest, f, s, sub =>
    if f.depth < 1024 then
      match Executive.create se env f.myAddress 0#256 hasInit s with
      | none => none
      | some made =>
        if hasInit then
          match run se env inner ⟨made.newAddress, f.myAddress, f.depth + 1⟩ made.state {} with
          | none => none
          | some (.done left child output) =>
            run se env rest f (left.setNewCode made.newAddress output) (sub.accrue child)
          | some (.threw left _) => run se env rest f (left.rollback made.savepoint) sub
        else run se env rest f made.state sub
    else run se env rest f s sub

end Artax
