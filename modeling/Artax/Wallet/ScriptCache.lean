import Artax.Util.OrderedMap
import Artax.Validation.Reward

/-!
# The cache of reward scripts

`AddMPoSScript` keeps the scripts of recent stakers by height, each with the hash of its block. What
is cached under a hash is the script of that block's staker, whatever has happened to the active
chain since.
-/

namespace Artax

open Util (OrderedMap)

structure ScriptsElement where
  script : CScript
  hash : H256
  deriving DecidableEq, Repr

abbrev ScriptsMap := OrderedMap Int ScriptsElement

/-- The active chain and what `ReadStakeIndex` gives for a height. -/
structure StakeChain where
  chainActive : ActiveChain
  readStakeIndex : Int → Option Address

def stakerScript (stakeAddress : Address) : CScript :=
  if stakeAddress = 0 then [Op.ret] else CScript.payToPubkeyHash stakeAddress

namespace ScriptsMap

variable (params : ConsensusParams) (node : StakeChain) (scriptsMap : ScriptsMap) (nHeight : Int)

/-- `NeedToEraseScriptFromCache`. -/
def needToEraseScriptFromCache (chain : ActiveChain) (nBlockHeight nCacheScripts nScriptHeight : Int)
    (scriptElement : ScriptsElement) : Bool :=
  decide (nScriptHeight < nBlockHeight - nCacheScripts) ||
    decide (nBlockHeight + nCacheScripts < nScriptHeight) ||
    (chain.entryAt nScriptHeight).any fun pblockindex => pblockindex.hash != scriptElement.hash

/-- `CleanScriptCache`. -/
def cleanScriptCache : ScriptsMap :=
  scriptsMap.filter fun nScriptHeight scriptElement =>
    !needToEraseScriptFromCache node.chainActive nHeight (3 * params.nMPoSRewardRecipients / 2 : Nat)
      nScriptHeight scriptElement

/-- `ReadFromScriptCache`. -/
def readFromScriptCache (pblockindex : ChainEntry) : ScriptsMap × Option CScript :=
  let scriptsMap := cleanScriptCache params node scriptsMap nHeight
  (scriptsMap, ((scriptsMap.find? nHeight).filter fun element =>
    element.hash == pblockindex.hash).map ScriptsElement.script)

/-- `AddToScriptCache`. -/
def addToScriptCache (script : CScript) (pblockindex : ChainEntry) : ScriptsMap :=
  let scriptsMap := cleanScriptCache params node scriptsMap nHeight
  if scriptsMap.contains nHeight then scriptsMap
  else scriptsMap.insert nHeight ⟨script, pblockindex.hash⟩

/-- `AddMPoSScript`, with the script it adds to the list, `none` where it returns false. -/
def addMPoSScript : ScriptsMap × Option CScript :=
  match node.chainActive.entryAt nHeight with
  | none => (scriptsMap, none)
  | some pblockindex =>
    match readFromScriptCache params node scriptsMap nHeight pblockindex with
    | (scriptsMap, some script) => (scriptsMap, some script)
    | (scriptsMap, none) =>
      match node.readStakeIndex nHeight with
      | none => (scriptsMap, none)
      | some stakeAddress =>
        if pblockindex.isProofOfStake then
          (addToScriptCache params node scriptsMap nHeight (stakerScript stakeAddress) pblockindex,
            some (stakerScript stakeAddress))
        else if params.fPoSNoRetargeting then (scriptsMap, some [Op.ret])
        else (scriptsMap, none)

end ScriptsMap

/-- The loop of `GetMPoSOutputScripts` from a height down, with what `AddMPoSScript` carries along. A
list is also returned where the flag is false. -/
def outputScripts {σ : Type} (addMPoSScript : σ → Int → σ × Option CScript) :
    Nat → Int → σ → List CScript → σ × List CScript × Bool
  | 0, _, carried, mposScriptList => (carried, mposScriptList, true)
  | count + 1, nHeight, carried, mposScriptList =>
    match addMPoSScript carried nHeight with
    | (carried, none) => (carried, mposScriptList, false)
    | (carried, some script) =>
      outputScripts addMPoSScript count (nHeight - 1) carried (mposScriptList ++ [script])

def getMPoSOutputs {σ : Type} (params : ConsensusParams)
    (addMPoSScript : σ → Int → σ × Option CScript) (carried : σ) (nHeight : Int) :
    σ × List CScript × Bool :=
  outputScripts addMPoSScript (params.nMPoSRewardRecipients - 1) (nHeight - coinbaseMaturity)
    carried []

def addMPoSScriptUncached (params : ConsensusParams) (node : StakeChain) (carried : Unit)
    (nHeight : Int) : Unit × Option CScript :=
  (carried, addMPoSScript node.chainActive (fun _ => none) node.readStakeIndex params nHeight)

/-! ## One lookup -/

/-- What the blocks are, by their hashes. -/
structure StakedBlocks where
  isProofOfStake : H256 → Bool
  staker : H256 → Address

/-- The stake index has the staker of the active block at every active height. -/
def StakedBlocks.Indexed (blocks : StakedBlocks) (node : StakeChain) : Prop :=
  ∀ nHeight entry, node.chainActive.entryAt nHeight = some entry →
    entry.isProofOfStake = blocks.isProofOfStake entry.hash ∧
      node.readStakeIndex nHeight = some (blocks.staker entry.hash)

/-- Every cached script is that of the staker of the block it is cached with. -/
def StakedBlocks.Cached (blocks : StakedBlocks) (scriptsMap : ScriptsMap) : Prop :=
  ∀ nHeight element, scriptsMap.find? nHeight = some element →
    blocks.isProofOfStake element.hash = true ∧
      element.script = stakerScript (blocks.staker element.hash)

section Lookup

variable (params : ConsensusParams) {blocks : StakedBlocks} {node : StakeChain}
  {scriptsMap : ScriptsMap}

theorem StakedBlocks.Cached.clean (cached : blocks.Cached scriptsMap) (nHeight : Int) :
    blocks.Cached (ScriptsMap.cleanScriptCache params node scriptsMap nHeight) :=
  fun h element found => cached h element (OrderedMap.find?_filter_eq_some.1 found).1

theorem StakedBlocks.Cached.add (cached : blocks.Cached scriptsMap) {entry : ChainEntry}
    (staked : blocks.isProofOfStake entry.hash) (nHeight : Int) :
    blocks.Cached (ScriptsMap.addToScriptCache params node scriptsMap nHeight
      (stakerScript (blocks.staker entry.hash)) entry) := by
  have clean : blocks.Cached (ScriptsMap.cleanScriptCache params node scriptsMap nHeight) :=
    cached.clean params nHeight
  unfold ScriptsMap.addToScriptCache
  dsimp only
  split
  · exact clean
  · intro h element found
    rw [OrderedMap.find?_insert] at found
    split at found
    · cases found
      exact ⟨staked, rfl⟩
    · exact clean h element found

theorem addMPoSScript_cached (indexed : blocks.Indexed node) (cached : blocks.Cached scriptsMap)
    (nHeight : Int) :
    blocks.Cached (ScriptsMap.addMPoSScript params node scriptsMap nHeight).1 ∧
      (ScriptsMap.addMPoSScript params node scriptsMap nHeight).2 =
        (addMPoSScriptUncached params node () nHeight).2 := by
  unfold ScriptsMap.addMPoSScript addMPoSScriptUncached addMPoSScript
  cases active : node.chainActive.entryAt nHeight with
  | none => exact ⟨cached, rfl⟩
  | some entry =>
    obtain ⟨kind, staker⟩ := indexed nHeight entry active
    have clean : blocks.Cached (ScriptsMap.cleanScriptCache params node scriptsMap nHeight) :=
      cached.clean params nHeight
    unfold ScriptsMap.readFromScriptCache
    dsimp only
    rw [staker]
    generalize ScriptsMap.cleanScriptCache params node scriptsMap nHeight = cleaned at clean ⊢
    cases hit : (cleaned.find? nHeight).filter fun element => element.hash == entry.hash with
    | some element =>
      obtain ⟨found, same⟩ := Option.filter_eq_some_iff.1 hit
      obtain ⟨staked, script⟩ := clean nHeight element found
      rw [beq_iff_eq] at same
      rw [same] at staked script
      simp only [Option.map_some, Option.filter_none, kind, staked, if_true]
      exact ⟨clean, congrArg some script⟩
    | none =>
      simp only [Option.map_none, Option.filter_none, kind]
      cases staked : blocks.isProofOfStake entry.hash with
      | true => exact ⟨clean.add params staked nHeight, rfl⟩
      | false =>
        simp only [Bool.false_eq_true, if_false]
        split <;> exact ⟨clean, rfl⟩

theorem outputScripts_cached (indexed : blocks.Indexed node) (cached : blocks.Cached scriptsMap)
    (count : Nat) (nHeight : Int) (mposScriptList : List CScript) :
    blocks.Cached (outputScripts (ScriptsMap.addMPoSScript params node) count nHeight scriptsMap
        mposScriptList).1 ∧
      (outputScripts (ScriptsMap.addMPoSScript params node) count nHeight scriptsMap
        mposScriptList).2 =
        (outputScripts (addMPoSScriptUncached params node) count nHeight () mposScriptList).2 := by
  induction count generalizing nHeight scriptsMap mposScriptList with
  | zero => exact ⟨cached, rfl⟩
  | succ count ih =>
    obtain ⟨cachedAfter, same⟩ := addMPoSScript_cached params indexed cached nHeight
    rw [outputScripts, outputScripts]
    generalize ScriptsMap.addMPoSScript params node scriptsMap nHeight = looked at cachedAfter same ⊢
    generalize addMPoSScriptUncached params node () nHeight = read at same ⊢
    obtain ⟨after, script⟩ := looked
    obtain ⟨_, script'⟩ := read
    cases same
    cases script with
    | none => exact ⟨cachedAfter, rfl⟩
    | some script => exact ih cachedAfter (nHeight - 1) (mposScriptList ++ [script])

end Lookup

/-! ## Histories -/

/-- The active chain changes in any way, or reward scripts are asked for. -/
inductive ScriptEvent
  | tip (node : StakeChain)
  | getMPoSOutputScripts (nHeight : Int)

def ScriptEvent.answers {σ : Type} (params : ConsensusParams)
    (addMPoSScript : StakeChain → σ → Int → σ × Option CScript) :
    StakeChain → σ → List ScriptEvent → List (List CScript × Bool)
  | _, _, [] => []
  | _, carried, .tip node :: rest => answers params addMPoSScript node carried rest
  | node, carried, .getMPoSOutputScripts nHeight :: rest =>
    let outputs := getMPoSOutputs params (addMPoSScript node) carried nHeight
    outputs.2 :: answers params addMPoSScript node outputs.1 rest

/-- Every chain of a history has its stakers in the index. -/
def StakedBlocks.IndexedThroughout (blocks : StakedBlocks) (events : List ScriptEvent) : Prop :=
  ∀ node, ScriptEvent.tip node ∈ events → blocks.Indexed node

/-- Over every history of chains and calls the cache changes no answer. -/
theorem script_cache_transparent {params : ConsensusParams} {blocks : StakedBlocks}
    {node : StakeChain} (start : blocks.Indexed node) (events : List ScriptEvent)
    (indexed : blocks.IndexedThroughout events) :
    ScriptEvent.answers params (ScriptsMap.addMPoSScript params) node .empty events =
      ScriptEvent.answers params (addMPoSScriptUncached params) node () events := by
  have cached : blocks.Cached .empty := fun nHeight element found => by cases found
  revert cached
  generalize (OrderedMap.empty : ScriptsMap) = scriptsMap
  intro cached
  induction events generalizing node scriptsMap with
  | nil => rfl
  | cons event rest ih =>
    have later : blocks.IndexedThroughout rest :=
      fun other member => indexed other (List.mem_cons_of_mem _ member)
    cases event with
    | tip other => exact ih (indexed other List.mem_cons_self) later scriptsMap cached
    | getMPoSOutputScripts nHeight =>
      obtain ⟨cachedAfter, same⟩ := outputScripts_cached params start cached
        (params.nMPoSRewardRecipients - 1) (nHeight - coinbaseMaturity) []
      rw [ScriptEvent.answers, ScriptEvent.answers]
      exact congrArg₂ List.cons same (ih start later _ cachedAfter)

/-- The staker of a block depends on its hash; some are the zero address. -/
def stakedChain (first length : Nat) : StakeChain :=
  let chainActive : ActiveChain := (List.range length).map fun i => ⟨first + i, true⟩
  ⟨chainActive, fun nHeight => (chainActive.entryAt nHeight).map fun entry => Fin.ofNat _ (entry.hash % 7)⟩

theorem indexed_stakedChain (first length : Nat) :
    StakedBlocks.Indexed ⟨fun _ => true, fun hash => Fin.ofNat _ (hash % 7)⟩
      (stakedChain first length) := by
  intro nHeight entry active
  refine ⟨?_, congrArg (Option.map _) active⟩
  unfold ActiveChain.entryAt at active
  split at active
  · cases active
  · obtain ⟨i, -, rfl⟩ := List.mem_map.1 (List.mem_of_getElem? active)
    rfl

/-- A reorganisation of the whole chain between two calls. -/
theorem script_cache_transparent_reorg :
    ScriptEvent.answers .main (ScriptsMap.addMPoSScript .main) (stakedChain 0 510) .empty
        [.getMPoSOutputScripts 509, .tip (stakedChain 1000 510), .getMPoSOutputScripts 509] =
      ScriptEvent.answers .main (addMPoSScriptUncached .main) (stakedChain 0 510) ()
        [.getMPoSOutputScripts 509, .tip (stakedChain 1000 510), .getMPoSOutputScripts 509] := by
  refine script_cache_transparent (indexed_stakedChain 0 510) _ fun node member => ?_
  simp only [List.mem_cons, ScriptEvent.tip.injEq, reduceCtorEq, false_or, List.not_mem_nil,
    or_false] at member
  rw [member]
  exact indexed_stakedChain 1000 510

end Artax
