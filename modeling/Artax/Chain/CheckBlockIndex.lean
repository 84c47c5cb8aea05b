import Artax.Chain.ActivateBestChain
import Artax.Consensus.KernelSearch

/-!
# The consistency checks of the block index

`CheckBlockIndex`, and the operations after which it is run. Its walk visits every block once and
knows for each the oldest ancestor with certain properties. Pruning is not part of this.
-/

namespace Artax

/-- `CBlockIndex::pskip` as `BuildSkip` sets it. -/
def BlockTree.pskip (t : BlockTree) (b : H256) : Option H256 :=
  (t.pprev b).bind fun prev => t.getAncestor prev (getSkipHeight (t.nHeight b))

theorem BlockTree.exists_pskip {t : BlockTree} {b p : H256} (prev : t.pprev b = some p) :
    ∃ a, t.pskip b = some a ∧ t.Anc a p ∧ t.nHeight a = getSkipHeight (t.nHeight b) := by
  have height := nHeight_of_pprev prev
  have below := KernelIndex.getSkipHeight_lt (show 0 < t.nHeight b by omega)
  rw [pskip, prev, Option.bind_some]
  exact exists_getAncestor (isSome_of_pprev prev).2 (by omega)

namespace CChainState

variable (env : ChainEnv) (s : CChainState)

/-- The oldest ancestor with a property. -/
def oldest (property : H256 → Bool) (b : H256) : Option H256 :=
  (s.tree.links.line b).reverse.find? property

def firstInvalid : H256 → Option H256 := s.oldest fun b => (s.marks b).failedValid

def firstMissing : H256 → Option H256 := s.oldest fun b => !(s.marks b).haveData

def firstNeverProcessed : H256 → Option H256 := s.oldest fun b => (s.marks b).nTx == 0

def firstNot (validity : BlockValidity) : H256 → Option H256 :=
  s.oldest fun b => (s.tree.pprev b).isSome && decide ((s.marks b).validity.level < validity.level)

/-- `foundInUnlinked` of `CheckBlockIndex`. -/
def foundInUnlinked (b : H256) : Bool :=
  s.mapBlocksUnlinked.any fun entry => s.tree.pprev b == some entry.1 && entry.2 == b

/-- The assertions about the place of a block in the tree and its flags. -/
def TreeChecked (b : H256) : Prop :=
  (s.tree.pprev b = none → b = s.tree.genesis ∧ s.contains b) ∧
  s.tree.nHeight b + 1 = (s.tree.links.line b).length ∧
  (∀ p ∈ s.tree.pprev b, s.tree.nChainWork p ≤ s.tree.nChainWork b) ∧
  (s.tree.nHeight b < 2 ∨ ∃ a ∈ s.tree.pskip b, s.tree.nHeight a < s.tree.nHeight b) ∧
  s.firstNot .tree b = none ∧
  (BlockValidity.chain.level ≤ (s.marks b).validity.level → s.firstNot .chain b = none) ∧
  (BlockValidity.scripts.level ≤ (s.marks b).validity.level → s.firstNot .scripts b = none) ∧
  (s.firstInvalid b = none → (s.marks b).failed = false)

/-- The assertions about the data of a block and of its ancestors. -/
def DataChecked (b : H256) : Prop :=
  ((s.marks b).nChainTx = 0 → (s.marks b).nSequenceId ≤ 0) ∧
  ((s.marks b).haveData = false ↔ (s.marks b).nTx = 0) ∧
  s.firstMissing b = s.firstNeverProcessed b ∧
  ((s.marks b).haveUndo → (s.marks b).haveData) ∧
  (BlockValidity.transactions.level ≤ (s.marks b).validity.level ↔ 0 < (s.marks b).nTx) ∧
  ((s.firstNeverProcessed b).isSome ↔ (s.marks b).nChainTx = 0) ∧
  ((s.firstNot .transactions b).isSome ↔ (s.marks b).nChainTx = 0)

/-- The assertions about `setBlockIndexCandidates`. -/
def CandidatesChecked (b : H256) : Prop :=
  if !s.worse env b s.tip && (s.firstNeverProcessed b).isNone then
    s.firstInvalid b = none → (s.firstMissing b = none ∨ b = s.tip) → b ∈ s.setBlockIndexCandidates
  else b ∉ s.setBlockIndexCandidates

/-- The assertions about `mapBlocksUnlinked`. -/
def UnlinkedChecked (b : H256) : Prop :=
  ((s.tree.pprev b).isSome → (s.marks b).haveData → (s.firstNeverProcessed b).isSome →
    s.firstInvalid b = none → s.foundInUnlinked b) ∧
  ((s.marks b).haveData = false → s.foundInUnlinked b = false) ∧
  (s.firstMissing b = none → s.foundInUnlinked b = false) ∧
  -- without pruning no data is missing that was there
  ((s.tree.pprev b).isSome → (s.marks b).haveData → s.firstNeverProcessed b = none →
    s.firstMissing b = none)

instance (b : H256) : Decidable (s.TreeChecked b) := by
  unfold TreeChecked
  infer_instance

instance (b : H256) : Decidable (s.DataChecked b) := by
  unfold DataChecked
  infer_instance

instance (b : H256) : Decidable (s.CandidatesChecked env b) := by
  unfold CandidatesChecked
  infer_instance

instance (b : H256) : Decidable (s.UnlinkedChecked b) := by
  unfold UnlinkedChecked
  infer_instance

/-- The assertions of `CheckBlockIndex`. -/
def CheckBlockIndex : Prop :=
  ∀ b ∈ s.tree.known,
    s.TreeChecked b ∧ s.DataChecked b ∧ s.CandidatesChecked env b ∧ s.UnlinkedChecked b

instance : Decidable (s.CheckBlockIndex env) := by
  unfold CheckBlockIndex
  infer_instance

end CChainState

inductive ChainOp
  | acceptBlockHeader (header : CBlockHeader) (checks : HeaderChecks)
  | acceptBlock (block : CBlock) (checks : BlockChecks) (fRequested : Bool)
  | activateBestChain
  | invalidateBlock (pindex : H256)
  | resetBlockFailureFlags (pindex : H256)
  | preciousBlock (pindex : H256)

namespace CChainState

/-- An operation with so many rounds for `ActivateBestChain`. It has no result if it does not come to
its end. -/
def perform (env : ChainEnv) (rounds : Nat) (s : CChainState) : ChainOp → Option CChainState
  | .acceptBlockHeader header checks => some (s.acceptBlockHeader env header checks).1
  | .acceptBlock block checks fRequested => some (s.acceptBlock env block checks fRequested).1
  | .activateBestChain => s.activateBestChain env rounds
  | .invalidateBlock pindex => s.invalidateBlock env pindex
  | .resetBlockFailureFlags pindex =>
    if (s.tree.index pindex).isNone then none
    else (s.resetBlockFailureFlags env pindex).activateBestChain env rounds
  | .preciousBlock pindex => s.preciousBlock env rounds pindex

/-- Only the genesis block, and active. -/
def start (genesis : H256) (nChainWork : Nat) (nTime : UInt32) : CChainState where
  tree :=
    { genesis
      index := fun b => if b = genesis then some ⟨none, 0, nChainWork, nTime⟩ else none
      known := [genesis]
      mem_known := by
        intro b
        by_cases same : b = genesis <;> simp [same]
      root := by simp
      linked := by
        intro b n found
        simp only [Option.ite_none_right_eq_some, Option.some.injEq] at found
        obtain ⟨rfl, rfl⟩ := found
        exact .genesis rfl rfl }
  marks := fun b => if b = genesis then
    { nTx := 1, nChainTx := 1, nSequenceId := 1, validity := .transactions, haveData := true } else {}
  tip := genesis
  setBlockIndexCandidates := [genesis]
  mapBlocksUnlinked := []
  failedBlocks := []
  nBlockSequenceId := 2
  nBlockReverseSequenceId := -1
  nLastPreciousChainwork := 0
  blockDisconnected := []
  blockTried := []

/-- The states that operations of a kind lead to, each come to its end, from the genesis block. -/
inductive Reaches (env : ChainEnv) (allowed : CChainState → ChainOp → Prop) : CChainState → Prop
  | start (genesis : H256) (nChainWork : Nat) (nTime : UInt32) :
      Reaches env allowed (start genesis nChainWork nTime)
  | step {s s' : CChainState} {op : ChainOp} {rounds : Nat} (before : Reaches env allowed s)
      (is : allowed s op) (done : s.perform env rounds op = some s') : Reaches env allowed s'

end CChainState
end Artax
