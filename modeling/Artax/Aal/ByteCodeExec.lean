import Artax.Aal.Execute

/-!
# Executing the contract outputs of a transaction

`ByteCodeExec` runs the virtual machine transactions of one transaction of a block on the global
state and turns their results into the transactions and refunds that the block has to contain.
-/

namespace Artax

structure ByteCodeExecResult where
  usedGas : UInt64 := 0
  refundSender : CAmount := 0
  refundOutputs : List CTxOut := []
  valueTransfers : List CTransaction := []
  deriving DecidableEq, Repr

namespace ByteCodeExec

variable (ctx : ExecutionContext) (env : EnvInfo)

def unknownAddress : ResultExecute := ⟨{ excepted := .unknown }, [], {}⟩

def perform (p : Permanence) (tx : ArtaxTransaction) (s : ArtaxState) :
    Option (ArtaxState × ResultExecute) :=
  if !tx.isCreation && !s.addressInUse tx.receiveAddress
  then some (s.fetch tx.receiveAddress, unknownAddress)
  else ArtaxState.execute ctx env tx p s

/-- `ByteCodeExec::performByteCode`. -/
def performByteCode (p : Permanence) : List ArtaxTransaction → ArtaxState → List ResultExecute →
    Option (Bool × ArtaxState × List ResultExecute)
  | [], s, result => some (true, { s with deleteAddresses := [] }, result)
  | tx :: rest, s, result =>
    if tx.version.toRaw ≠ VersionVM.evmDefault.toRaw then some (false, s, result)
    else match perform ctx env p tx s with
      | none => none
      | some (s, res) => performByteCode p rest s (result ++ [res])

/-- The gas refund of an execution that succeeded, `none` where `processingResults` fails; the
product wraps before it is read as signed. -/
def gasRefund (tx : ArtaxTransaction) (res : ResultExecute) : Option CAmount :=
  if tx.gas.toNat > 2 ^ 64 - 1 ∨ res.execRes.gasUsed.toNat > 2 ^ 64 - 1 ∨
    tx.gasPrice.toNat > 2 ^ 64 - 1 then none
  else
    let amount : CAmount := ((tx.gas.setWidth 64 - res.execRes.gasUsed.setWidth 64) *
      tx.gasPrice.setWidth 64).toInt
    if amount < 0 then none else some amount

def processResult (out : ByteCodeExecResult) (tx : ArtaxTransaction) (res : ResultExecute) :
    Option ByteCodeExecResult :=
  let usedGas := out.usedGas + UInt64.ofBitVec (res.execRes.gasUsed.setWidth 64)
  let out? : Option ByteCodeExecResult :=
    if res.execRes.excepted ≠ .none then
      some { out with
        usedGas
        valueTransfers := if 0#256 < tx.value
          then out.valueTransfers ++ [ArtaxState.refundTx tx (ctx.amounts.direct tx.value)]
          else out.valueTransfers }
    else match gasRefund tx res with
      | none => none
      | some amount => some (if 0 < amount
        then { out with
          usedGas
          refundOutputs := out.refundOutputs ++ [⟨amount, CScript.payToPubkeyHash tx.sender⟩]
          refundSender := out.refundSender + amount }
        else { out with usedGas })
  match out? with
  | none => none
  | some out => some (if res.tx.getHash ctx.computeHash ≠ CTransaction.getHash ctx.computeHash {}
      then { out with valueTransfers := out.valueTransfers ++ [res.tx] } else out)

/-- `ByteCodeExec::processingResults`. -/
def processingResults : List (ArtaxTransaction × ResultExecute) → ByteCodeExecResult →
    Option ByteCodeExecResult
  | [], out => some out
  | (tx, res) :: rest, out =>
    match processResult ctx out tx res with
    | none => none
    | some out => processingResults rest out

end ByteCodeExec
end Artax
