import Artax.Aal.Execute
import Artax.Dgp.Agreement

/-!
# Reading governed parameters by calls

With `-dgpevm` the templates are read by `CallContract`, which itself asks for the governed block gas
limit first. The recursion is modelled with a bound on its depth.
-/

namespace Artax

open ArtaxDGP Option

structure DgpNode where
  dgpevm : Bool
  state : ArtaxState
  paramsInstanceSlot : U256
  tipHeight : Nat
  byteCodeExec : UInt64 → ArtaxTransaction → ResultExecute

namespace ArtaxDGP

theorem isSome_published (dgp : ArtaxDGP) (contract : DgpContract) (template : Address) :
    (dgp.published contract template).isSome ↔
      template = 0 ∨ dgp.dgpevm = false ∨
        (dgp.callContract template contract.selector).isSome := by
  by_cases zero : template = 0
  · cases contract <;> simp [published, uint64FromTemplate, zero]
  · cases mode : dgp.dgpevm with
    | false | true =>
      cases contract <;> simp [published, uint64FromTemplate, scheduleValues, zero, mode]

theorem isSome_readAt (dgp : ArtaxDGP) (contract : DgpContract) (blockHeight : Nat) :
    (dgp.readAt contract blockHeight).isSome ↔
      ∃ history, dgp.createParamsInstance contract.address = some history ∧
        (dgp.published contract (getAddressForBlock history blockHeight)).isSome := by
  rw [readAt, templateForBlock]
  cases dgp.createParamsInstance contract.address with
  | none => simp
  | some history => simp

end ArtaxDGP

namespace DgpNode

variable (node : DgpNode)

def dgpWith (callContract : Address → Bytes → Option Bytes) : ArtaxDGP :=
  ⟨node.dgpevm, node.state, node.paramsInstanceSlot, callContract⟩

def callTransaction (addrContract : Address) (opcode : Bytes) (sender : Address) (gasLimit : UInt64) :
    ArtaxTransaction where
  version := .evmDefault
  isCreation := false
  value := 0#256
  gasPrice := 1#256
  gas := BitVec.ofNat 256 gasLimit.toNat
  receiveAddress := addrContract
  data := opcode
  nonce := 0#256
  sender := if sender = 0 then Fin.ofNat (2 ^ 160) (2 ^ 160 - 1) else sender

/-- `CallContract` with at most so many calls inside each other, `none` where they do not suffice. -/
def callContract : Nat → Address → Bytes → Address → UInt64 → Option (List ResultExecute)
  | 0, _, _, _, _ => none
  | depth + 1, addrContract, opcode, sender, gasLimit =>
    let xaxDGP := node.dgpWith fun template data =>
      (callContract depth template data 0 0).map fun results =>
        ((results.head?.map fun result => result.execRes.output).getD [])
    (xaxDGP.getBlockGasLimit (node.tipHeight + 1)).map fun blockGasLimit =>
      let gasLimit := if gasLimit = 0 then blockGasLimit - 1 else gasLimit
      [node.byteCodeExec blockGasLimit (callTransaction addrContract opcode sender gasLimit)]

def dgp (depth : Nat) : ArtaxDGP :=
  node.dgpWith fun template data =>
    (node.callContract depth template data 0 0).map fun results =>
      ((results.head?.map fun result => result.execRes.output).getD [])

/-- The four getters and `CallContract` return: some depth suffices, for every height and every
call. -/
def ReadsReturn : Prop :=
  ∃ enough, ∀ depth, enough ≤ depth →
    (∀ addrContract opcode sender gasLimit,
      (node.callContract depth addrContract opcode sender gasLimit).isSome = true) ∧
    ∀ blockHeight, ((node.dgp depth).getGasSchedule blockHeight).isSome = true ∧
      ((node.dgp depth).getBlockSize blockHeight).isSome = true ∧
      ((node.dgp depth).getMinGasPrice blockHeight).isSome = true ∧
      ((node.dgp depth).getBlockGasLimit blockHeight).isSome = true

def paramsInstance (contract : DgpContract) : Option (List (UInt32 × Address)) :=
  (node.dgpWith fun _ _ => none).createParamsInstance contract.address

/-- A template for the block gas limit is in force for the block on top of the tip. -/
def GasLimitActive : Prop :=
  ∃ history, node.paramsInstance .blockGasLimit = some history ∧
    getAddressForBlock history (node.tipHeight + 1) ≠ 0

theorem createParamsInstance_dgp (depth : Nat) (contract : DgpContract) :
    (node.dgp depth).createParamsInstance contract.address = node.paramsInstance contract :=
  createParamsInstance_congr (by rfl) (by rfl) _

theorem isSome_callContract (depth : Nat) (addrContract : Address) (opcode : Bytes)
    (sender : Address) (gasLimit : UInt64) :
    (node.callContract (depth + 1) addrContract opcode sender gasLimit).isSome =
      ((node.dgp depth).readAt .blockGasLimit (node.tipHeight + 1)).isSome := by
  rw [callContract, isSome_map]
  exact congrArg (fun reads => reads.blockGasLimit.isSome)
    ((node.dgp depth).reads_eq (node.tipHeight + 1))

theorem callContract_eq_none (mode : node.dgpevm) (active : node.GasLimitActive)
    (depth : Nat) (addrContract : Address) (opcode : Bytes) (sender : Address) (gasLimit : UInt64) :
    node.callContract depth addrContract opcode sender gasLimit = none := by
  -- induction on the depth: the call for the block gas limit is one of the calls one less deep
  induction depth generalizing addrContract opcode sender gasLimit with
  | zero => rfl
  | succ depth ih =>
    obtain ⟨history, stored, inForce⟩ := active
    rw [← not_isSome_iff_eq_none, isSome_callContract, isSome_readAt,
      createParamsInstance_dgp]
    rintro ⟨found, read, returns⟩
    obtain rfl : history = found := some.inj (stored.symm.trans read)
    rcases (isSome_published _ _ _).1 returns with zero | storage | called
    · exact inForce zero
    · rw [show (node.dgp depth).dgpevm = true from mode] at storage
      cases storage
    · simp only [dgp, dgpWith, ih, map_none, isSome_none, Bool.false_eq_true] at called

theorem isSome_readAt_dgp {depth : Nat}
    (returns : node.dgpevm = false ∨ ∀ addrContract opcode,
      (node.callContract depth addrContract opcode 0 0).isSome)
    {contract : DgpContract} (stored : (node.paramsInstance contract).isSome)
    (blockHeight : Nat) : ((node.dgp depth).readAt contract blockHeight).isSome := by
  obtain ⟨history, read⟩ := isSome_iff_exists.1 stored
  rw [isSome_readAt, createParamsInstance_dgp]
  refine ⟨history, read, (isSome_published _ _ _).2 (.inr ?_)⟩
  rcases returns with storage | calls
  · exact .inl storage
  · refine .inr ?_
    simp only [dgp, dgpWith, isSome_map]
    exact calls _ _

/-- Where no template for the block gas limit is in force, or values are read from storage, every
call returns at depth one. -/
theorem isSome_callContract_of (stored : (node.paramsInstance .blockGasLimit).isSome)
    (settled : node.dgpevm = false ∨ ¬ node.GasLimitActive) (depth : Nat) (addrContract : Address)
    (opcode : Bytes) (sender : Address) (gasLimit : UInt64) :
    (node.callContract (depth + 1) addrContract opcode sender gasLimit).isSome := by
  rw [isSome_callContract]
  rcases settled with storage | quiet
  · exact node.isSome_readAt_dgp (.inl storage) stored _
  · obtain ⟨history, read⟩ := isSome_iff_exists.1 stored
    rw [isSome_readAt, createParamsInstance_dgp]
    refine ⟨history, read, (isSome_published _ _ _).2 (.inl ?_)⟩
    exact not_not.1 fun inForce => quiet ⟨history, read, inForce⟩

/-- `CallContract` and the four getters return exactly when the instances of the four contracts can
be read, and values are read from storage or no template for the block gas limit is in force for the
next block. -/
theorem readsReturn_iff :
    node.ReadsReturn ↔
      (∀ contract, (node.paramsInstance contract).isSome = true) ∧
        (node.dgpevm = false ∨ ¬ node.GasLimitActive) := by
  constructor
  · rintro ⟨enough, returns⟩
    obtain ⟨calls, getters⟩ := returns enough (Nat.le_refl _)
    have reads := (node.dgp enough).reads_eq 0
    obtain ⟨schedule, size, price, limit⟩ := getters 0
    refine ⟨fun contract => ?_, ?_⟩
    · have read : ((node.dgp enough).readAt contract 0).isSome := by
        cases contract
        · exact congrArg (fun r => r.gasSchedule.isSome) reads ▸ schedule
        · exact congrArg (fun r => r.blockSize.isSome) reads ▸ size
        · exact congrArg (fun r => r.minGasPrice.isSome) reads ▸ price
        · exact congrArg (fun r => r.blockGasLimit.isSome) reads ▸ limit
      rw [isSome_readAt, createParamsInstance_dgp] at read
      obtain ⟨history, stored, _⟩ := read
      exact isSome_iff_exists.2 ⟨history, stored⟩
    · cases mode : node.dgpevm with
      | false => exact .inl rfl
      | true =>
        refine .inr fun active => ?_
        have returned := calls 0 [] 0 0
        rw [node.callContract_eq_none mode active] at returned
        cases returned
  · rintro ⟨stored, settled⟩
    refine ⟨1, fun depth positive => ?_⟩
    obtain ⟨depth, rfl⟩ := Nat.exists_eq_add_of_le' positive
    have calls := node.isSome_callContract_of (stored .blockGasLimit) settled depth
    refine ⟨calls, fun blockHeight => ?_⟩
    have read := fun contract => node.isSome_readAt_dgp
      (.inr fun addrContract opcode => calls addrContract opcode 0 0) (stored contract) blockHeight
    have reads := (node.dgp (depth + 1)).reads_eq blockHeight
    exact ⟨congrArg (fun r => r.gasSchedule.isSome) reads ▸ read .gasSchedule,
      congrArg (fun r => r.blockSize.isSome) reads ▸ read .blockSize,
      congrArg (fun r => r.minGasPrice.isSome) reads ▸ read .gasPrice,
      congrArg (fun r => r.blockGasLimit.isSome) reads ▸ read .blockGasLimit⟩

def votedGasLimit : DgpNode where
  dgpevm := true
  paramsInstanceSlot := 1000#256
  tipHeight := 0
  byteCodeExec := fun _ _ => ⟨{}, [], {}⟩
  state :=
    { trie := fun a =>
        if a = DgpContract.blockGasLimit.address then
          some { nonce := 0#256, balance := 0#256, code := [1],
                 storage := fun slot =>
                  if slot = 0#256 then 1#256 else if slot = 1000#256 then 1#256
                  else if slot = 1001#256 then 7#256 else 0#256 }
        else none }

/-- On top of the genesis block of that node no call returns, and the block gas limit is never
read. -/
theorem votedGasLimit_diverges :
    (∀ depth addrContract opcode sender gasLimit,
      votedGasLimit.callContract depth addrContract opcode sender gasLimit = none) ∧
    ∀ depth, (votedGasLimit.dgp depth).getBlockGasLimit 1 = none := by
  have active : votedGasLimit.GasLimitActive :=
    ⟨[(1, 7)], by decide +kernel, by decide +kernel⟩
  have calls := votedGasLimit.callContract_eq_none rfl active
  refine ⟨calls, fun depth => ?_⟩
  have call := votedGasLimit.isSome_callContract depth 0 [] 0 0
  have reads := (votedGasLimit.dgp depth).reads_eq 1
  rw [calls] at call
  rw [← not_isSome_iff_eq_none]
  intro returned
  have same : ((votedGasLimit.dgp depth).getBlockGasLimit 1).isSome = _ :=
    congrArg (fun r => r.blockGasLimit.isSome) reads
  rw [same] at returned
  cases call.trans returned

end DgpNode
end Artax
