import Artax.Evm.State

/-!
# The governed parameters

`ArtaxDGP` reads the gas schedule, block size, minimum gas price and block gas limit in force at a
height. The storage of a contract lists the templates voted in and when they take effect; a template
publishes its value in its storage or as the output of a call.
-/

namespace Artax

/-- `EVMSchedule`, the costs a template can set; the mode flags never change. The defaults are the
member initialisers. -/
structure EVMSchedule where
  tierStepGas : List UInt32 := [0, 2, 3, 5, 8, 10, 20, 0]
  expGas : UInt32 := 10
  expByteGas : UInt32 := 10
  sha3Gas : UInt32 := 30
  sha3WordGas : UInt32 := 6
  sloadGas : UInt32 := 50
  sstoreSetGas : UInt32 := 20000
  sstoreResetGas : UInt32 := 5000
  sstoreRefundGas : UInt32 := 15000
  jumpdestGas : UInt32 := 1
  logGas : UInt32 := 375
  logDataGas : UInt32 := 8
  logTopicGas : UInt32 := 375
  createGas : UInt32 := 32000
  callGas : UInt32 := 40
  callStipend : UInt32 := 2300
  callValueTransferGas : UInt32 := 9000
  callNewAccountGas : UInt32 := 25000
  suicideRefundGas : UInt32 := 24000
  memoryGas : UInt32 := 3
  quadCoeffDiv : UInt32 := 512
  createDataGas : UInt32 := 200
  txGas : UInt32 := 21000
  txCreateGas : UInt32 := 53000
  txDataZeroGas : UInt32 := 4
  txDataNonZeroGas : UInt32 := 68
  copyGas : UInt32 := 3
  extcodesizeGas : UInt32 := 20
  extcodecopyGas : UInt32 := 20
  balanceGas : UInt32 := 20
  suicideGas : UInt32 := 0
  maxCodeSize : UInt32 := 0xffffffff
  deriving DecidableEq, Repr

namespace EVMSchedule

def eip150 : EVMSchedule :=
  { extcodesizeGas := 700, extcodecopyGas := 700, balanceGas := 400, sloadGas := 200,
    callGas := 700, suicideGas := 5000, maxCodeSize := 0x6000 }

def eip158 : EVMSchedule := { eip150 with expByteGas := 50 }

def values (schedule : EVMSchedule) : List UInt32 :=
  schedule.tierStepGas ++
    [schedule.expGas, schedule.expByteGas, schedule.sha3Gas, schedule.sha3WordGas,
      schedule.sloadGas, schedule.sstoreSetGas, schedule.sstoreResetGas, schedule.sstoreRefundGas,
      schedule.jumpdestGas, schedule.logGas, schedule.logDataGas, schedule.logTopicGas,
      schedule.createGas, schedule.callGas, schedule.callStipend, schedule.callValueTransferGas,
      schedule.callNewAccountGas, schedule.suicideRefundGas, schedule.memoryGas,
      schedule.quadCoeffDiv, schedule.createDataGas, schedule.txGas, schedule.txCreateGas,
      schedule.txDataZeroGas, schedule.txDataNonZeroGas, schedule.copyGas,
      schedule.extcodesizeGas, schedule.extcodecopyGas, schedule.balanceGas, schedule.suicideGas,
      schedule.maxCodeSize]

def ofValues (v : List UInt32) : EVMSchedule where
  tierStepGas := v.take 8
  expGas := v.getD 8 0
  expByteGas := v.getD 9 0
  sha3Gas := v.getD 10 0
  sha3WordGas := v.getD 11 0
  sloadGas := v.getD 12 0
  sstoreSetGas := v.getD 13 0
  sstoreResetGas := v.getD 14 0
  sstoreRefundGas := v.getD 15 0
  jumpdestGas := v.getD 16 0
  logGas := v.getD 17 0
  logDataGas := v.getD 18 0
  logTopicGas := v.getD 19 0
  createGas := v.getD 20 0
  callGas := v.getD 21 0
  callStipend := v.getD 22 0
  callValueTransferGas := v.getD 23 0
  callNewAccountGas := v.getD 24 0
  suicideRefundGas := v.getD 25 0
  memoryGas := v.getD 26 0
  quadCoeffDiv := v.getD 27 0
  createDataGas := v.getD 28 0
  txGas := v.getD 29 0
  txCreateGas := v.getD 30 0
  txDataZeroGas := v.getD 31 0
  txDataNonZeroGas := v.getD 32 0
  copyGas := v.getD 33 0
  extcodesizeGas := v.getD 34 0
  extcodecopyGas := v.getD 35 0
  balanceGas := v.getD 36 0
  suicideGas := v.getD 37 0
  maxCodeSize := v.getD 38 0

end EVMSchedule

inductive DgpContract where
  | gasSchedule | blockSize | gasPrice | blockGasLimit
  deriving DecidableEq, Repr

namespace DgpContract

def address : DgpContract → Address
  | gasSchedule => 0x80
  | blockSize => 0x81
  | gasPrice => 0x82
  | blockGasLimit => 0x84

def selector : DgpContract → Bytes
  | gasSchedule => [0x26, 0xfa, 0xdb, 0xe2]
  | blockSize => [0x92, 0xac, 0x3c, 0x62]
  | gasPrice => [0x3f, 0xb5, 0x88, 0x19]
  | blockGasLimit => [0x2c, 0xc8, 0x37, 0x7d]

abbrev Value : DgpContract → Type
  | gasSchedule => EVMSchedule
  | blockSize => UInt32
  | gasPrice => UInt64
  | blockGasLimit => UInt64

end DgpContract

/-- `MIN_BLOCK_SIZE_DGP`, `MAX_BLOCK_SIZE_DGP` and `DEFAULT_BLOCK_SIZE_DGP` -/
def minBlockSizeDGP : UInt32 := 500000
@[inherit_doc minBlockSizeDGP] def maxBlockSizeDGP : UInt32 := 32000000
@[inherit_doc minBlockSizeDGP] def defaultBlockSizeDGP : UInt32 := 2000000

/-- `MIN_MIN_GAS_PRICE_DGP`, `MAX_MIN_GAS_PRICE_DGP` and `DEFAULT_MIN_GAS_PRICE_DGP` -/
def minMinGasPriceDGP : UInt64 := 1
@[inherit_doc minMinGasPriceDGP] def maxMinGasPriceDGP : UInt64 := 10000
@[inherit_doc minMinGasPriceDGP] def defaultMinGasPriceDGP : UInt64 := 40

/-- `MIN_BLOCK_GAS_LIMIT_DGP`, `MAX_BLOCK_GAS_LIMIT_DGP` and `DEFAULT_BLOCK_GAS_LIMIT_DGP` -/
def minBlockGasLimitDGP : UInt64 := 1000000
@[inherit_doc minBlockGasLimitDGP] def maxBlockGasLimitDGP : UInt64 := 1000000000
@[inherit_doc minBlockGasLimitDGP] def defaultBlockGasLimitDGP : UInt64 := 40000000

structure ArtaxDGP where
  dgpevm : Bool
  state : ArtaxState
  /-- `sha3(h256(0))` as a slot number: where the array that slot 0 counts is laid out. -/
  paramsInstanceSlot : U256
  callContract : Address → Bytes → Option Bytes

namespace ArtaxDGP

variable (dgp : ArtaxDGP)

def storageEntry (addr : Address) (slot : U256) : Option U256 :=
  if dgp.state.storage addr slot = 0#256 then none else some (dgp.state.storage addr slot)

def right160 (value : U256) : Address := Fin.ofNat (2 ^ 160) value.toNat

/-- The loop of `createParamsInstance` over the entries from a slot on, `none` where one is missing.
The height is cut to 32 bits. -/
def readInstances (addr : Address) : Nat → U256 → Option (List (UInt32 × Address))
  | 0, _ => some []
  | size + 1, slot =>
    match dgp.storageEntry addr slot, dgp.storageEntry addr (slot + 1#256),
        readInstances addr size (slot + 2#256) with
    | some first, some second, some rest =>
      some ((UInt32.ofNat first.toNat, right160 second) :: rest)
    | _, _, _ => none

/-- `createParamsInstance`. -/
def createParamsInstance (addr : Address) : Option (List (UInt32 × Address)) :=
  match dgp.storageEntry addr 0#256 with
  | none => some []
  | some size =>
    if size.toNat < 2 ^ 64 then dgp.readInstances addr size.toNat dgp.paramsInstanceSlot else none

theorem createParamsInstance_congr {left right : ArtaxDGP} (state : left.state = right.state)
    (slot : left.paramsInstanceSlot = right.paramsInstanceSlot) (addr : Address) :
    left.createParamsInstance addr = right.createParamsInstance addr := by
  have entries (slot : U256) : left.storageEntry addr slot = right.storageEntry addr slot := by
    rw [storageEntry, storageEntry, state]
  have instances (size : Nat) (slot : U256) :
      left.readInstances addr size slot = right.readInstances addr size slot := by
    induction size generalizing slot with
    | zero => rfl
    | succ size ih => rw [readInstances, readInstances, ih, entries, entries]
  simp only [createParamsInstance, entries, instances, slot]

def instanceForBlock (paramsInstance : List (UInt32 × Address)) (blockHeight : Nat) :
    Option (UInt32 × Address) :=
  paramsInstance.reverse.find? fun i => decide (i.1.toNat ≤ blockHeight)

/-- `getAddressForBlock`. -/
def getAddressForBlock (paramsInstance : List (UInt32 × Address)) (blockHeight : Nat) : Address :=
  match instanceForBlock paramsInstance blockHeight with
  | some i => i.2
  | none => 0

def parseStorageOneUint64 (template : Address) : UInt64 :=
  match dgp.storageEntry template 0#256 with
  | some value => UInt64.ofNat value.toNat
  | none => 0

def parseDataOneUint64 (dataTemplate : Bytes) : UInt64 :=
  if dataTemplate.length = 32 then UInt64.ofNat (ofBigEndian dataTemplate) else 0

def unpackSlot (value : U256) : List UInt32 :=
  (List.range 8).map fun i => UInt32.ofNat (value.toNat >>> (32 * i))

/-- `parseStorageScheduleContract`. -/
def parseStorageScheduleContract (template : Address) : List UInt32 :=
  let data := (List.range 5).filterMap fun i =>
    (dgp.storageEntry template (BitVec.ofNat 256 i)).map fun value => (i, value)
  (data.insertionSort fun a b => a.1 ≤ b.1).flatMap fun d => unpackSlot d.2

/-- `parseDataScheduleContract`. -/
def parseDataScheduleContract (dataTemplate : Bytes) : List UInt32 :=
  (List.range (dataTemplate.length / 32)).map fun i =>
    UInt32.ofNat (ofBigEndian ((dataTemplate.drop (i * 32)).take 32))

/-- `checkLimitSchedule`; the bounds are computed with 32-bit wrap-around. -/
def checkLimitSchedule (defaultData checkData : List UInt32) : Bool :=
  if defaultData.length = 39 ∧ checkData.length = 39 then
    (defaultData.zip checkData).all fun entry =>
      let max := if entry.1 * 1000 > 0 then entry.1 * 1000 else 1 * 1000
      let min := if entry.1 / 100 > 0 then entry.1 / 100 else 1
      !(decide (entry.2 > max) || decide (entry.2 < min))
  else false

/-- `createEVMSchedule`. -/
def createEVMSchedule (uint32Values : List UInt32) : EVMSchedule :=
  if !checkLimitSchedule EVMSchedule.eip158.values uint32Values then .eip158
  else if 39 ≤ uint32Values.length then .ofValues uint32Values
  else .eip158

/-- `initStorages`: the template in force at a height. -/
def templateForBlock (contract : DgpContract) (blockHeight : Nat) : Option Address :=
  (dgp.createParamsInstance contract.address).map (getAddressForBlock · blockHeight)

def scheduleValues (template : Address) : Option (List UInt32) :=
  if dgp.dgpevm
  then (dgp.callContract template DgpContract.gasSchedule.selector).map parseDataScheduleContract
  else some (dgp.parseStorageScheduleContract template)

def uint64FromTemplate (contract : DgpContract) (template : Address) : Option UInt64 :=
  if template = 0 then some 0
  else if dgp.dgpevm
  then (dgp.callContract template contract.selector).map parseDataOneUint64
  else some (dgp.parseStorageOneUint64 template)

/-- `getUint64FromDGP`. -/
def getUint64FromDGP (contract : DgpContract) (blockHeight : Nat) : Option UInt64 :=
  (dgp.templateForBlock contract blockHeight).bind (dgp.uint64FromTemplate contract)

/-- `getGasSchedule`. -/
def getGasSchedule (blockHeight : Nat) : Option EVMSchedule :=
  (dgp.templateForBlock .gasSchedule blockHeight).bind fun template =>
    if template = 0 then some .eip158
    else (dgp.scheduleValues template).map createEVMSchedule

/-- A governed block size as `getBlockSize` admits it: cut to 32 bits and within its limits. -/
def admitBlockSize (value : UInt64) : UInt32 :=
  if value.toUInt32 ≤ maxBlockSizeDGP ∧ minBlockSizeDGP ≤ value.toUInt32 then value.toUInt32
  else defaultBlockSizeDGP

def admitMinGasPrice (value : UInt64) : UInt64 :=
  if value ≤ maxMinGasPriceDGP ∧ minMinGasPriceDGP ≤ value then value else defaultMinGasPriceDGP

def admitBlockGasLimit (value : UInt64) : UInt64 :=
  if value ≤ maxBlockGasLimitDGP ∧ minBlockGasLimitDGP ≤ value then value
  else defaultBlockGasLimitDGP

def getBlockSize (blockHeight : Nat) : Option UInt32 :=
  (dgp.getUint64FromDGP .blockSize blockHeight).map admitBlockSize

def getMinGasPrice (blockHeight : Nat) : Option UInt64 :=
  (dgp.getUint64FromDGP .gasPrice blockHeight).map admitMinGasPrice

def getBlockGasLimit (blockHeight : Nat) : Option UInt64 :=
  (dgp.getUint64FromDGP .blockGasLimit blockHeight).map admitBlockGasLimit

end ArtaxDGP
end Artax
