import Artax.Dgp.ArtaxDGP

/-!
# Producer and validator

`CreateNewBlock` reads the governed parameters at the height of the block, `ConnectBlock` one above.
They disagree exactly where an instance takes effect in between and publishes another value than the
one it replaces.
-/

namespace Artax

structure GovernedReads where
  gasSchedule : Option EVMSchedule
  blockSize : Option UInt32
  minGasPrice : Option UInt64
  blockGasLimit : Option UInt64
  deriving DecidableEq

namespace ArtaxDGP

variable (dgp : ArtaxDGP)

def reads (blockHeight : Nat) : GovernedReads :=
  ⟨dgp.getGasSchedule blockHeight, dgp.getBlockSize blockHeight, dgp.getMinGasPrice blockHeight,
    dgp.getBlockGasLimit blockHeight⟩

def createNewBlockReads (tipHeight : Nat) : GovernedReads :=
  let nHeight := tipHeight + 1
  dgp.reads nHeight

def connectBlockReads (indexHeight : Nat) : GovernedReads := dgp.reads (indexHeight + 1)

def published : (contract : DgpContract) → Address → Option contract.Value
  | .gasSchedule, template =>
    if template = 0 then some .eip158 else (dgp.scheduleValues template).map createEVMSchedule
  | .blockSize, template => (dgp.uint64FromTemplate .blockSize template).map admitBlockSize
  | .gasPrice, template => (dgp.uint64FromTemplate .gasPrice template).map admitMinGasPrice
  | .blockGasLimit, template =>
    (dgp.uint64FromTemplate .blockGasLimit template).map admitBlockGasLimit

def readAt (contract : DgpContract) (blockHeight : Nat) : Option contract.Value :=
  (dgp.templateForBlock contract blockHeight).bind (dgp.published contract)

theorem reads_eq (blockHeight : Nat) :
    dgp.reads blockHeight =
      ⟨dgp.readAt .gasSchedule blockHeight, dgp.readAt .blockSize blockHeight,
        dgp.readAt .gasPrice blockHeight, dgp.readAt .blockGasLimit blockHeight⟩ := by
  simp only [reads, readAt, getGasSchedule, getBlockSize, getMinGasPrice, getBlockGasLimit,
    getUint64FromDGP, Option.map_bind]
  rfl

theorem reads_eq_iff (first second : Nat) :
    dgp.reads first = dgp.reads second ↔
      ∀ contract, dgp.readAt contract first = dgp.readAt contract second := by
  rw [reads_eq, reads_eq, GovernedReads.mk.injEq]
  constructor
  · rintro ⟨schedule, size, price, limit⟩ contract
    cases contract
    · exact schedule
    · exact size
    · exact price
    · exact limit
  · exact fun same => ⟨same _, same _, same _, same _⟩

variable {history : List (UInt32 × Address)}

/-- An instance that was found at one height is found at every lower height it had already taken
effect at. -/
theorem instanceForBlock_of_le {low high : Nat} {found : UInt32 × Address} (le : low ≤ high)
    (scan : instanceForBlock history high = some found) (active : found.1.toNat ≤ low) :
    instanceForBlock history low = some found := by
  unfold instanceForBlock at *
  generalize history.reverse = backwards at *
  induction backwards with
  | nil => cases scan
  | cons head rest ih =>
    by_cases now : head.1.toNat ≤ high
    · rw [List.find?_cons_of_pos (by simpa using now)] at scan
      cases scan
      exact List.find?_cons_of_pos (by simpa using active)
    · rw [List.find?_cons_of_neg (by simpa using now)] at scan
      rw [List.find?_cons_of_neg (by simpa using fun early => now (le_trans early le))]
      exact ih scan

theorem instanceForBlock_eq_none_of_le {low high : Nat} (le : low ≤ high)
    (scan : instanceForBlock history high = none) :
    instanceForBlock history low = none := by
  unfold instanceForBlock at *
  rw [List.find?_eq_none] at *
  intro entry member active
  exact scan entry member (by simpa using le_trans (of_decide_eq_true active) le)

def TakesEffectAt (history : List (UInt32 × Address)) (blockHeight : Nat) : Prop :=
  (instanceForBlock history blockHeight).map (·.1.toNat) = some blockHeight

instance (history : List (UInt32 × Address)) (blockHeight : Nat) :
    Decidable (TakesEffectAt history blockHeight) :=
  inferInstanceAs (Decidable (_ = _))

theorem getAddressForBlock_succ {blockHeight : Nat}
    (quiet : ¬ TakesEffectAt history (blockHeight + 1)) :
    getAddressForBlock history (blockHeight + 1) = getAddressForBlock history blockHeight := by
  unfold getAddressForBlock
  cases scan : instanceForBlock history (blockHeight + 1) with
  | none => rw [instanceForBlock_eq_none_of_le (Nat.le_succ blockHeight) scan]
  | some found =>
    have active : found.1.toNat ≤ blockHeight + 1 := by
      simpa using List.find?_some scan
    have earlier : found.1.toNat ≤ blockHeight := by
      have other : found.1.toNat ≠ blockHeight + 1 := fun now =>
        quiet (by rw [TakesEffectAt, scan, Option.map_some, now])
      omega
    rw [instanceForBlock_of_le (Nat.le_succ blockHeight) scan earlier]

/-- A parameter keeps its value to the next height exactly when no instance takes effect there, or
one that publishes the value of the template it replaces. -/
theorem readAt_succ_iff (contract : DgpContract) (blockHeight : Nat) :
    dgp.readAt contract blockHeight = dgp.readAt contract (blockHeight + 1) ↔
      ∀ history, dgp.createParamsInstance contract.address = some history →
        TakesEffectAt history (blockHeight + 1) →
        dgp.published contract (getAddressForBlock history (blockHeight + 1)) =
          dgp.published contract (getAddressForBlock history blockHeight) := by
  cases stored : dgp.createParamsInstance contract.address with
  | none => simp [readAt, templateForBlock, stored]
  | some history =>
    simp only [readAt, templateForBlock, stored, Option.map_some, Option.bind_some,
      Option.some.injEq]
    constructor
    · rintro same _ rfl -
      exact same.symm
    · intro settled
      by_cases taken : TakesEffectAt history (blockHeight + 1)
      · exact (settled history rfl taken).symm
      · rw [getAddressForBlock_succ taken]

/-- For the block on top of a tip, producer and validator read the same parameters exactly when no
DGP contract has an instance that takes effect two above the tip and publishes another value than the
template in force one above the tip. -/
theorem producer_validator_agree_iff (tipHeight : Nat) :
    dgp.createNewBlockReads tipHeight = dgp.connectBlockReads (tipHeight + 1) ↔
      ∀ contract history, dgp.createParamsInstance (DgpContract.address contract) = some history →
        TakesEffectAt history (tipHeight + 2) →
        dgp.published contract (getAddressForBlock history (tipHeight + 2)) =
          dgp.published contract (getAddressForBlock history (tipHeight + 1)) :=
  (dgp.reads_eq_iff (tipHeight + 1) (tipHeight + 2)).trans
    (forall_congr' fun contract => dgp.readAt_succ_iff contract (tipHeight + 1))

/-- Accounts in which the gas price contract lists one instance: a template at address 7 that takes
effect at height 2 and publishes a price of 100. -/
def priceChangeTrie (a : Address) : Option AccountRecord :=
  if a = DgpContract.gasPrice.address then
    some { nonce := 0#256, balance := 0#256, code := [1],
           storage := fun slot =>
            if slot = 0#256 then 1#256 else if slot = 1000#256 then 2#256
            else if slot = 1001#256 then 7#256 else 0#256 }
  else if a = 7 then
    some { nonce := 0#256, balance := 0#256, code := [1],
           storage := fun slot => if slot = 0#256 then 100#256 else 0#256 }
  else none

def priceChange : ArtaxDGP where
  dgpevm := false
  paramsInstanceSlot := 1000#256
  callContract := fun _ _ => none
  state := { trie := priceChangeTrie }

/-- On top of the genesis block the producer still works with the default price, while the
validator already demands the new one. -/
theorem priceChange_disagrees :
    (priceChange.createNewBlockReads 0).minGasPrice = some 40 ∧
      (priceChange.connectBlockReads 1).minGasPrice = some 100 ∧
      priceChange.createNewBlockReads 0 ≠ priceChange.connectBlockReads 1 := by
  have producer : (priceChange.createNewBlockReads 0).minGasPrice = some 40 := by decide +kernel
  have validator : (priceChange.connectBlockReads 1).minGasPrice = some 100 := by decide +kernel
  refine ⟨producer, validator, fun same => ?_⟩
  have prices := congrArg GovernedReads.minGasPrice same
  rw [producer, validator] at prices
  exact absurd prices (by decide)

end ArtaxDGP
end Artax
