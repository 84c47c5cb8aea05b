import Artax.Consensus.Coins
import Artax.Consensus.StakeKernel

/-!
# Searching for a stake kernel

The wallet asks `CheckKernel` for every coin and time, on a cache that `CacheKernel` fills, and
validation asks `CheckProofOfStake` for the coin found. A block index is the chain from the block
down to the genesis block.
-/

namespace Artax

open List

/-- The fields of `CBlockIndex` that the search reads; `pskip` is either null or the ancestor at the
height of `GetSkipHeight`. -/
structure KernelIndex where
  nTime : UInt32
  nStakeModifier : H256
  hasSkip : Bool := true
  deriving DecidableEq, Repr

/-- `InvertLowestOne`. -/
def invertLowestOne (n : Nat) : Nat := n &&& (n - 1)

/-- `GetSkipHeight`. -/
def getSkipHeight (height : Nat) : Nat :=
  if height < 2 then 0
  else if height % 2 = 1 then invertLowestOne (invertLowestOne (height - 1)) + 1
  else invertLowestOne height

namespace KernelIndex

def walk (height : Nat) : Nat → List KernelIndex → List KernelIndex
  | 0, pindexWalk => pindexWalk
  | rounds + 1, pindexWalk =>
    let heightWalk := pindexWalk.length - 1
    if height < heightWalk then
      let heightSkip := getSkipHeight heightWalk
      let heightSkipPrev := getSkipHeight (heightWalk - 1)
      if (pindexWalk.head?.any hasSkip) = true ∧ (heightSkip = height ∨ height < heightSkip ∧
          ¬((heightSkipPrev : Int) < heightSkip - 2 ∧ height ≤ heightSkipPrev))
      then walk height rounds (pindexWalk.drop (heightWalk - heightSkip))
      else walk height rounds pindexWalk.tail
    else pindexWalk

def getAncestor (pindex : List KernelIndex) (height : Nat) : Option KernelIndex :=
  if pindex.length ≤ height then none else (walk height pindex.length pindex).head?

theorem getSkipHeight_lt {height : Nat} (positive : 0 < height) : getSkipHeight height < height := by
  have invert (n : Nat) : invertLowestOne n ≤ n - 1 := Nat.and_le_right
  have once := invert (height - 1)
  have twice := invert (invertLowestOne (height - 1))
  have direct := invert height
  unfold getSkipHeight
  split_ifs <;> omega

theorem walk_eq_drop {height rounds : Nat} {chain : List KernelIndex} (within : height < chain.length)
    (enough : chain.length ≤ rounds) :
    walk height rounds chain = chain.drop (chain.length - 1 - height) := by
  induction rounds generalizing chain with
  | zero => omega
  | succ rounds ih =>
    simp only [walk]
    split
    · rename_i below
      have skips := getSkipHeight_lt (Nat.lt_of_le_of_lt (Nat.zero_le _) below)
      split
      · rename_i skip
        rw [ih, drop_drop, length_drop]
        · congr 1
          omega
        · rw [length_drop]
          omega
        · rw [length_drop]
          omega
      · rw [← drop_one, ih, drop_drop, length_drop]
        · congr 1
          omega
        · rw [length_drop]
          omega
        · rw [length_drop]
          omega
    · rw [show chain.length - 1 - height = 0 by omega, drop_zero]

/-- An ancestor of an ancestor is an ancestor. -/
theorem getAncestor_of_suffix {ancestor pindex : List KernelIndex} (below : ancestor <:+ pindex)
    {height : Nat} {found : KernelIndex} (there : getAncestor ancestor height = some found) :
    getAncestor pindex height = some found := by
  unfold getAncestor at there ⊢
  obtain ⟨newer, rfl⟩ := below
  split_ifs at there with high
  have within : height < ancestor.length := Nat.lt_of_not_le high
  have longer : height < (newer ++ ancestor).length := by
    rw [length_append]
    omega
  rw [walk_eq_drop within le_rfl] at there
  rw [if_neg (Nat.not_le.2 longer), walk_eq_drop longer le_rfl, length_append,
    show newer.length + ancestor.length - 1 - height =
      newer.length + (ancestor.length - 1 - height) by omega, drop_length_add_append]
  exact there

end KernelIndex

structure CStakeCache where
  blockFromTime : UInt32
  amount : CAmount
  deriving DecidableEq, Repr

/-- What the checks of a kernel ask of the rest of the node. -/
structure KernelEnv where
  hashKernel : H256 → UInt32 → COutPoint → UInt32 → U256
  verifySignature : Coin → CTransaction → Bool

namespace KernelEnv

open KernelIndex

variable (env : KernelEnv) (pindexPrev : List KernelIndex) (nBits nTimeBlock : UInt32)

def checkStakeKernel (blockFromTime : UInt32) (amount : CAmount) (prevout : COutPoint) :
    Option (U256 × U256) :=
  match checkStakeKernelHash env.hashKernel ((pindexPrev.head?.map nStakeModifier).getD 0) nBits
    blockFromTime amount prevout nTimeBlock with
  | some (true, proof) => some proof
  | _ => none

def isMature (coin : Coin) : Bool :=
  !decide ((pindexPrev.length : Int) - coin.nHeight < coinbaseMaturity)

variable (prevout : COutPoint) (view : CoinsView)

def stakeOf : Option CStakeCache :=
  match view prevout with
  | none => none
  | some coinPrev =>
    if !isMature pindexPrev coinPrev then none
    else match getAncestor pindexPrev coinPrev.nHeight with
      | none => none
      | some blockFrom => some ⟨blockFrom.nTime, coinPrev.out.nValue⟩

/-- `CacheKernel`. -/
def cacheKernel (cache : COutPoint → Option CStakeCache) : COutPoint → Option CStakeCache :=
  if (cache prevout).isSome then cache
  else match stakeOf pindexPrev prevout view with
    | none => cache
    | some c => Function.update cache prevout (some c)

/-- `CheckKernel` without a cache. -/
def checkKernelFresh : Bool :=
  match view prevout with
  | none => false
  | some coinPrev =>
    if !isMature pindexPrev coinPrev then false
    else match getAncestor pindexPrev coinPrev.nHeight with
      | none => false
      | some blockFrom =>
        if coinPrev.isSpent then false
        else (env.checkStakeKernel pindexPrev nBits nTimeBlock blockFrom.nTime coinPrev.out.nValue
          prevout).isSome

/-- `CheckKernel` with a cache. -/
def checkKernel (cache : COutPoint → Option CStakeCache) : Bool :=
  match cache prevout with
  | none => env.checkKernelFresh pindexPrev nBits nTimeBlock prevout view
  | some stake =>
    if (env.checkStakeKernel pindexPrev nBits nTimeBlock stake.blockFromTime stake.amount
      prevout).isSome
    -- the cache of this call is empty
    then env.checkKernelFresh pindexPrev nBits nTimeBlock prevout view
    else false

/-- `CheckProofOfStake`. -/
def checkProofOfStake (tx : CTransaction) : Except (Option Nat) (U256 × U256) :=
  if !tx.isCoinStake then .error none
  else
    let prevout := (tx.vin.head?.map CTxIn.prevout).getD ⟨0, 0xffffffff⟩
    match view prevout with
    | none => .error (some 100)
    | some coinPrev =>
      if !isMature pindexPrev coinPrev then .error (some 100)
      else match getAncestor pindexPrev coinPrev.nHeight with
        | none => .error (some 100)
        | some blockFrom =>
          if !env.verifySignature coinPrev tx then .error (some 100)
          else match env.checkStakeKernel pindexPrev nBits nTimeBlock blockFrom.nTime
              coinPrev.out.nValue prevout with
            | none => .error (some 1)
            | some proof => .ok proof

/-- A cache whose entries were made by `CacheKernel` at ancestors of the block, in views that had the
coin as it is. -/
inductive CachedBelow (pindexPrev : List KernelIndex) (view : CoinsView) :
    (COutPoint → Option CStakeCache) → Prop
  | empty : CachedBelow pindexPrev view fun _ => none
  | cache {cache : COutPoint → Option CStakeCache} (before : CachedBelow pindexPrev view cache)
    {ancestor : List KernelIndex} (below : ancestor <:+ pindexPrev) (prevout : COutPoint)
    {past : CoinsView} (same : past prevout = view prevout) :
    CachedBelow pindexPrev view (cacheKernel ancestor prevout past cache)

variable {env pindexPrev nBits nTimeBlock prevout view}

theorem stakeOf_eq_some {stake : CStakeCache} :
    stakeOf pindexPrev prevout view = some stake ↔ ∃ coin blockFrom, view prevout = some coin ∧
      isMature pindexPrev coin ∧ getAncestor pindexPrev coin.nHeight = some blockFrom ∧
        stake = ⟨blockFrom.nTime, coin.out.nValue⟩ := by
  unfold stakeOf
  grind

theorem stakeOf_of_suffix {ancestor : List KernelIndex} (below : ancestor <:+ pindexPrev)
    {past : CoinsView} (same : past prevout = view prevout) {stake : CStakeCache}
    (made : stakeOf ancestor prevout past = some stake) :
    stakeOf pindexPrev prevout view = some stake := by
  obtain ⟨coin, blockFrom, held, mature, found, rfl⟩ := stakeOf_eq_some.1 made
  refine stakeOf_eq_some.2
    ⟨coin, blockFrom, same ▸ held, ?_, getAncestor_of_suffix below found, rfl⟩
  have shorter := below.length_le
  simp only [isMature, Bool.not_eq_true', decide_eq_false_iff_not] at mature ⊢
  omega

theorem CachedBelow.stake {cache : COutPoint → Option CStakeCache}
    (cached : CachedBelow pindexPrev view cache) {stake : CStakeCache}
    (found : cache prevout = some stake) : stakeOf pindexPrev prevout view = some stake := by
  induction cached with
  | empty => cases found
  | @cache cache before ancestor below other past same ih =>
    unfold cacheKernel at found
    split_ifs at found with present
    · exact ih found
    · cases made : stakeOf ancestor other past with
      | none =>
        rw [made] at found
        exact ih found
      | some stake' =>
        simp only [made] at found
        by_cases equal : prevout = other
        · subst equal
          rw [Function.update_self] at found
          exact stakeOf_of_suffix below same (found ▸ made)
        · rw [Function.update_of_ne equal] at found
          exact ih found

theorem checkKernelFresh_eq_true : env.checkKernelFresh pindexPrev nBits nTimeBlock prevout view ↔
    ∃ coin blockFrom proof, view prevout = some coin ∧ isMature pindexPrev coin ∧
      getAncestor pindexPrev coin.nHeight = some blockFrom ∧ coin.isSpent = false ∧
        env.checkStakeKernel pindexPrev nBits nTimeBlock blockFrom.nTime coin.out.nValue prevout =
          some proof := by
  unfold checkKernelFresh
  cases view prevout with
  | none => simp
  | some coin =>
    cases mature : isMature pindexPrev coin <;>
      cases found : getAncestor pindexPrev coin.nHeight <;> cases spent : coin.isSpent <;>
        simp [mature, found, spent, Option.isSome_iff_exists]

/-- The search with a cache finds only kernels that the search without finds, and all of them if it
was filled below the block; validation accepts the coinstake that spends what was found. -/
theorem kernelSearch_sound (env : KernelEnv) (pindexPrev : List KernelIndex)
    (nBits nTimeBlock : UInt32) (prevout : COutPoint) (view : CoinsView) :
    (∀ cache, env.checkKernel pindexPrev nBits nTimeBlock prevout view cache = true →
      env.checkKernel pindexPrev nBits nTimeBlock prevout view (fun _ => none) = true) ∧
    (∀ cache, CachedBelow pindexPrev view cache →
      env.checkKernel pindexPrev nBits nTimeBlock prevout view cache =
        env.checkKernel pindexPrev nBits nTimeBlock prevout view fun _ => none) ∧
    ∀ tx : CTransaction, tx.isCoinStake = true → tx.vin.head?.map CTxIn.prevout = some prevout →
      (∀ coin, view prevout = some coin → env.verifySignature coin tx = true) →
      env.checkKernel pindexPrev nBits nTimeBlock prevout view (fun _ => none) = true →
      ∃ proof, env.checkProofOfStake pindexPrev nBits nTimeBlock view tx = .ok proof := by
  refine ⟨fun cache accepted => ?_, fun cache cached => ?_, fun tx stake first signed accepted => ?_⟩
  · unfold checkKernel at accepted ⊢
    split at accepted
    · exact accepted
    · split_ifs at accepted
      exact accepted
  · cases found : cache prevout with
    | none => simp only [checkKernel, found]
    | some stake =>
      obtain ⟨coin, blockFrom, held, mature, there, rfl⟩ := stakeOf_eq_some.1 (cached.stake found)
      simp only [checkKernel, found]
      split_ifs with met
      · rfl
      · refine (Bool.eq_false_iff.2 fun accepted => met ?_).symm
        obtain ⟨_, _, proof, held', _, there', _, proved⟩ := checkKernelFresh_eq_true.1 accepted
        cases held.symm.trans held'
        cases there.symm.trans there'
        rw [proved]
        rfl
  · obtain ⟨coin, blockFrom, proof, held, mature, there, _, proved⟩ :=
      checkKernelFresh_eq_true.1 accepted
    refine ⟨proof, ?_⟩
    simp only [checkProofOfStake, stake, first, Option.getD_some, held, mature, there,
      signed coin held, proved, Bool.not_true, Bool.false_eq_true, if_false]

def sampleKernel : KernelEnv where
  hashKernel modifier _ prevout nTimeBlock := BitVec.ofNat 256 (modifier + prevout.n.toNat + nTimeBlock.toNat)
  verifySignature coin tx := coin.out.nValue ≤ (tx.vout.map CTxOut.nValue).sum

def stakeView : CoinsView := fun prevout =>
  if prevout = ⟨7, 0⟩ then some ⟨⟨5, []⟩, false, false, 3⟩ else none

def stakeTx : CTransaction where
  vin := [⟨⟨7, 0⟩, [], 0⟩]
  vout := [⟨0, []⟩, ⟨9, []⟩]

/-- A coin that was cached ten blocks earlier is found, and the coinstake that spends it accepted. -/
theorem kernelSearch_sound_cached : ∃ cache, CachedBelow (replicate 520 ⟨16, 2, true⟩) stakeView cache ∧
    cache ⟨7, 0⟩ = some ⟨16, 5⟩ ∧
    sampleKernel.checkKernel (replicate 520 ⟨16, 2, true⟩) 0x04010000 32 ⟨7, 0⟩ stakeView cache = true ∧
    ∃ proof, sampleKernel.checkProofOfStake (replicate 520 ⟨16, 2, true⟩) 0x04010000 32 stakeView
      stakeTx = .ok proof := by
  have below : replicate 510 (⟨16, 2, true⟩ : KernelIndex) <:+ replicate 520 ⟨16, 2, true⟩ :=
    ⟨replicate 10 _, replicate_append_replicate⟩
  have cached : CachedBelow _ stakeView (cacheKernel (replicate 510 _) ⟨7, 0⟩ stakeView fun _ => none) :=
    .cache .empty below ⟨7, 0⟩ rfl
  obtain ⟨-, complete, valid⟩ := kernelSearch_sound sampleKernel (replicate 520 ⟨16, 2, true⟩) 0x04010000
    32 ⟨7, 0⟩ stakeView
  have found : sampleKernel.checkKernel (replicate 520 ⟨16, 2, true⟩) 0x04010000 32 ⟨7, 0⟩ stakeView
      (fun _ => none) = true := by decide +kernel
  refine ⟨_, cached, by decide +kernel, (complete _ cached).trans found,
    valid stakeTx rfl rfl (fun coin held => ?_) found⟩
  cases held
  rfl

end KernelEnv
end Artax
