import Artax.Evm.Executive
import Artax.Script.Script
import Artax.Util.OrderedMap

/-!
# Condensing transactions

`CondensingTX` turns the value transfers of one contract execution into a transaction that spends the
outputs of the accounts involved and pays each its new balance. It is modelled by its member
functions over what they read.
-/

namespace Artax

open Util (OrderedMap)

def maxContractVouts : Nat := 1000

/-- The conversions of a `u256` to a `CAmount`, directly and through `convert_to<uint64_t>`: exact on
what fits in 63 bits. -/
structure AmountConversion where
  direct : U256 → CAmount
  viaUint64 : U256 → CAmount
  direct_exact : ∀ b : U256, b.toNat < 2 ^ 63 → direct b = (b.toNat : Int)
  viaUint64_exact : ∀ b : U256, b.toNat < 2 ^ 63 → viaUint64 b = (b.toNat : Int)

def AmountConversion.byValue : AmountConversion :=
  ⟨fun b => b.toNat, fun b => b.toNat, fun _ _ => rfl, fun _ _ => rfl⟩

structure CondensingInput where
  vin : Address → Option Vin
  live : Address → Bool
  transfers : List TransferInfo
  deleteAddresses : List Address
  transaction : ArtaxTransaction
  amounts : AmountConversion

structure CondensingTX where
  plusMinusInfo : OrderedMap Address (U256 × U256) := .empty
  balances : OrderedMap Address U256 := .empty
  nVouts : OrderedMap Address UInt32 := .empty
  vins : OrderedMap Address Vin := .empty
  voutOverflow : Bool := false

namespace CondensingTX

variable (c : CondensingInput)

/-- `checkDeleteAddress`. -/
def checkDeleteAddress (a : Address) : Bool := decide (a ∈ c.deleteAddresses)

def ownVin : Vin := ⟨c.transaction.hashWith, c.transaction.nVout, c.transaction.value, true⟩

def loadVin (a : Address) (vins : OrderedMap Address Vin) : OrderedMap Address Vin :=
  match c.vin a with
  | some v => vins.insert a v
  | none => vins

def selectSource (vins : OrderedMap Address Vin) (a : Address) : OrderedMap Address Vin :=
  if vins.contains a then vins
  else if a = c.transaction.sender ∧ 0#256 < c.transaction.value
  then (loadVin c a vins).insert a (ownVin c)
  else loadVin c a vins

def selectTarget (vins : OrderedMap Address Vin) (a : Address) : OrderedMap Address Vin :=
  if vins.contains a then vins else loadVin c a vins

def selectVin (vins : OrderedMap Address Vin) (ti : TransferInfo) : OrderedMap Address Vin :=
  selectTarget c (selectSource c vins ti.source) ti.target

/-- `selectionVin`. -/
def selectionVin : OrderedMap Address Vin := c.transfers.foldl (selectVin c) .empty

def addMinus (info : OrderedMap Address (U256 × U256)) (a : Address) (value : U256) :
    OrderedMap Address (U256 × U256) :=
  match info.find? a with
  | none => info.insert a (0#256, value)
  | some (plus, minus) => info.insert a (plus, minus + value)

def addPlus (info : OrderedMap Address (U256 × U256)) (a : Address) (value : U256) :
    OrderedMap Address (U256 × U256) :=
  match info.find? a with
  | none => info.insert a (value, 0#256)
  | some (plus, minus) => info.insert a (plus + value, minus)

def addTransfer (info : OrderedMap Address (U256 × U256)) (ti : TransferInfo) :
    OrderedMap Address (U256 × U256) :=
  addPlus (addMinus info ti.source ti.value) ti.target ti.value

/-- `calculatePlusAndMinus`. -/
def calculatePlusAndMinus : OrderedMap Address (U256 × U256) :=
  c.transfers.foldl addTransfer .empty

/-- The loop of `createNewBalances`; it also fills the selection with default entries, and stops when
an account would be overdrawn. -/
def createNewBalances : List (Address × U256 × U256) → OrderedMap Address Vin →
    OrderedMap Address U256 → Bool × OrderedMap Address Vin × OrderedMap Address U256
  | [], vins, balances => (true, vins, balances)
  | (a, plus, minus) :: rest, vins, balances =>
    let found := vins.contains a
    let v := (vins.find? a).getD {}
    let vins := if found then vins else vins.insert a {}
    let start := if (found && v.alive) || (!v.alive && !checkDeleteAddress c a) then v.value else 0#256
    let balance := start + plus
    if balance < minus then (false, vins, balances)
    else createNewBalances rest vins (balances.insert a (balance - minus))

def spends (a : Address) (v : Vin) : Bool :=
  decide (0#256 < v.value) && (v.alive || !checkDeleteAddress c a)

/-- `createVins`. -/
def createVins (vins : OrderedMap Address Vin) : List CTxIn :=
  (vins.entries.filter fun entry => spends c entry.1 entry.2).map fun entry =>
    { prevout := ⟨entry.2.hash, entry.2.nVout⟩, scriptSig := CScript.opSpend }

def payScript (a : Address) : CScript :=
  if c.live a then CScript.noExecCall a else CScript.payToPubkeyHash a

/-- `createVout`. -/
def createVout : List (Address × U256) → Nat → List CTxOut → OrderedMap Address UInt32 →
    List CTxOut × OrderedMap Address UInt32 × Bool
  | [], _, outs, nVouts => (outs, nVouts, false)
  | (a, b) :: rest, count, outs, nVouts =>
    if 0#256 < b then
      let outs := outs ++ [⟨c.amounts.direct b, payScript c a⟩]
      let nVouts := nVouts.insert a (UInt32.ofNat count)
      if maxContractVouts < count + 1 then (outs, nVouts, true)
      else createVout rest (count + 1) outs nVouts
    else if maxContractVouts < count then (outs, nVouts, true)
    else createVout rest count outs nVouts

/-- `createCondensingTX`. -/
def createCondensingTX : CondensingTX × CTransaction :=
  let plusMinusInfo := calculatePlusAndMinus c
  let (ok, vins, balances) :=
    createNewBalances c plusMinusInfo.entries (selectionVin c) .empty
  if !ok then ({ plusMinusInfo, balances, vins }, {})
  else
    let vin := createVins c vins
    let (vout, nVouts, voutOverflow) := createVout c balances.entries 0 [] .empty
    ({ plusMinusInfo, balances, nVouts, vins, voutOverflow },
      if vin.isEmpty || vout.isEmpty then {} else { vin, vout })

/-- `CondensingTX::createVin`. -/
def createVin (members : CondensingTX) (hash : H256) : List (Address × Vin) :=
  (members.balances.entries.filter fun entry => entry.1 ≠ c.transaction.sender).map fun entry =>
    (entry.1, if 0#256 < entry.2
      then ⟨hash, (members.nVouts.find? entry.1).getD 0, entry.2, true⟩
      else ⟨hash, 0, 0#256, false⟩)

end CondensingTX
end Artax
