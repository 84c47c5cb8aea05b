import Artax.Chain.BlockTree
import Artax.Primitives.Block
import Mathlib.Data.List.MinMax
import Mathlib.Data.Prod.Lex

/-!
# The chain state

`CChainState`: the tree of headers, what is known of each block, the tip and the sets kept to find
the best chain, with the functions that take in headers and blocks. Numbers are not bounded.
-/

namespace Artax

/-- The levels of `BlockStatus`, from `BLOCK_VALID_UNKNOWN` to `BLOCK_VALID_SCRIPTS`. -/
inductive BlockValidity
  | unknown
  | header
  | tree
  | transactions
  | chain
  | scripts
  deriving DecidableEq, Repr

def BlockValidity.level : BlockValidity → Nat
  | unknown => 0
  | header => 1
  | tree => 2
  | transactions => 3
  | chain => 4
  | scripts => 5

/-- The fields of `CBlockIndex` that change, with `nStatus` taken apart. The counters are exact: those
of the source have 32 bits. -/
structure BlockMarks where
  nTx : Nat := 0
  nChainTx : Nat := 0
  nSequenceId : Int := 0
  validity : BlockValidity := .unknown
  haveData : Bool := false
  haveUndo : Bool := false
  failedValid : Bool := false
  failedChild : Bool := false
  deriving DecidableEq, Repr

namespace BlockMarks

variable (m : BlockMarks)

def failed : Bool := m.failedValid || m.failedChild

/-- `CBlockIndex::IsValid`. -/
def isValid (nUpTo : BlockValidity) : Bool :=
  !m.failed && decide (nUpTo.level ≤ m.validity.level)

/-- `CBlockIndex::RaiseValidity`. -/
def raiseValidity (nUpTo : BlockValidity) : BlockMarks :=
  if m.failed then m
  else if m.validity.level < nUpTo.level then { m with validity := nUpTo }
  else m

end BlockMarks

/-- `CChainState`, with `chainActive` given by its tip. -/
structure CChainState where
  tree : BlockTree
  marks : H256 → BlockMarks
  tip : H256
  setBlockIndexCandidates : List H256
  mapBlocksUnlinked : List (H256 × H256)
  failedBlocks : List H256
  nBlockSequenceId : Int
  nBlockReverseSequenceId : Int
  nLastPreciousChainwork : Nat
  /-- The blocks that were announced as disconnected, the latest first. -/
  blockDisconnected : List H256
  /-- The blocks that `ConnectBlock` was called for, the latest first. -/
  blockTried : List H256

structure ChainEnv where
  addr : H256 → Nat
  addr_injective : Function.Injective addr
  hashHeader : CBlockHeader → H256
  getBlockProof : CBlockHeader → Nat
  getBlockProof_pos : ∀ header, 0 < getBlockProof header
  connectBlock : H256 → Bool
  nMinimumChainWork : Nat

structure HeaderChecks where
  checkCanonicalBlockSignature : Bool := true
  contextualCheckBlockHeader : Bool := true
  checkBlockHeader : Bool := true

inductive BlockVerdict
  | passed
  | corrupted
  | invalid
  deriving DecidableEq, Repr

structure BlockChecks extends HeaderChecks where
  updateHashProof : Bool := true
  timely : Bool := true
  checkBlock : BlockVerdict := .passed

def nCheckpointSpan : Nat := 500

def minBlocksToKeep : Nat := 288

def BlockMarks.failValid (m : BlockMarks) : BlockMarks := { m with failedValid := true }

def BlockMarks.failChild (m : BlockMarks) : BlockMarks := { m with failedChild := true }

def BlockMarks.unfail (m : BlockMarks) : BlockMarks := { m with failedValid := false, failedChild := false }

/-- Places in the order of `CBlockIndexWorkComparator`: work, sequence number and address. -/
def Rank : Type := ℕ ×ₗ ℤ ×ₗ ℤ

instance : LinearOrder Rank :=
  @Prod.Lex.instLinearOrder ℕ (ℤ ×ₗ ℤ) Nat.instLinearOrder
    (@Prod.Lex.instLinearOrder ℤ ℤ Int.instLinearOrder Int.instLinearOrder)

namespace CChainState

variable (env : ChainEnv) (s : CChainState)

/-- `CBlockIndexWorkComparator`. -/
def worse (pa pb : H256) : Bool :=
  if s.tree.nChainWork pb < s.tree.nChainWork pa then false
  else if s.tree.nChainWork pa < s.tree.nChainWork pb then true
  else if (s.marks pa).nSequenceId < (s.marks pb).nSequenceId then false
  else if (s.marks pb).nSequenceId < (s.marks pa).nSequenceId then true
  else if env.addr pa < env.addr pb then false
  else decide (env.addr pb < env.addr pa)

def rank (b : H256) : Rank :=
  toLex (s.tree.nChainWork b, toLex (-(s.marks b).nSequenceId, -(env.addr b : ℤ)))

/-- `CChain::Contains`. -/
def contains (b : H256) : Bool := decide (s.tree.Anc b s.tip)

def markWhere (which : H256 → Bool) (change : BlockMarks → BlockMarks) : CChainState :=
  { s with marks := fun b => if which b then change (s.marks b) else s.marks b }

/-! ## The synchronized checkpoint -/

def autoSelectSyncCheckpoint : H256 :=
  ((s.tree.links.line s.tip).find? fun b => (s.tree.pprev b).isNone ||
    decide (s.tree.nHeight b + nCheckpointSpan ≤ s.tree.nHeight s.tip)).getD s.tip

def checkSync (nHeight : Nat) : Bool :=
  nHeight == 0 || decide (s.tree.nHeight s.autoSelectSyncCheckpoint < nHeight)

/-! ## Headers -/

/-- `AddToBlockIndex`. -/
def addToBlockIndex (header : CBlockHeader) : CChainState :=
  let hash := env.hashHeader header
  { s with
    tree := s.tree.addToBlockIndex hash header.hashPrevBlock header.nTime (env.getBlockProof header)
      (env.getBlockProof_pos header)
    marks := Function.update s.marks hash (BlockMarks.raiseValidity {} .tree) }

/-- The first of the blocks that were found invalid, in the order of their addresses, that a block
descends from. -/
def failedAncestor (b : H256) : Option H256 :=
  if (s.marks b).isValid .scripts then none
  else (s.failedBlocks.filter fun failed => s.tree.Anc failed b).argmin env.addr

def tooOld (header : CBlockHeader) : Bool :=
  header.hashPrevBlock != s.tip &&
    (s.tree.index s.autoSelectSyncCheckpoint).any fun checkpoint => header.nTime < checkpoint.nTime

/-- `AcceptBlockHeader`. -/
def acceptBlockHeader (header : CBlockHeader) (checks : HeaderChecks) : CChainState × Bool :=
  let hash := env.hashHeader header
  if hash = s.tree.genesis then (s, true)
  else if (s.tree.index hash).isSome then (s, !(s.marks hash).failed)
  else if s.tooOld header || !checks.checkCanonicalBlockSignature then (s, false)
  else match s.tree.index header.hashPrevBlock with
    | none => (s, false)
    | some prev =>
      if (s.marks header.hashPrevBlock).failed || !checks.contextualCheckBlockHeader ||
          !s.checkSync (prev.nHeight + 1) then (s, false)
      else match s.failedAncestor env header.hashPrevBlock with
        | some failed =>
          -- the blocks between are marked as well
          (s.markWhere (fun b => decide (b ∈ (s.tree.links.line header.hashPrevBlock).takeWhile
            (· ≠ failed))) .failChild, false)
        | none =>
          if checks.checkBlockHeader then (s.addToBlockIndex env header, true) else (s, false)

/-! ## Blocks -/

/-- One block of the loop of `ReceivedBlockTransactions`. -/
def linkBlock (pindex : H256) : CChainState :=
  let before := ((s.tree.pprev pindex).map fun p => (s.marks p).nChainTx).getD 0
  let s := { s.markWhere (· = pindex) fun m =>
      { m with nChainTx := before + m.nTx, nSequenceId := s.nBlockSequenceId } with
    nBlockSequenceId := s.nBlockSequenceId + 1 }
  if s.worse env pindex s.tip then s
  else { s with setBlockIndexCandidates := s.setBlockIndexCandidates.insert pindex }

/-- The loop of `ReceivedBlockTransactions`: blocks that wait for the one that was linked come after
it. -/
def linkQueue : Nat → List H256 → CChainState → CChainState
  | 0, _, s => s
  | _, [], s => s
  | rounds + 1, pindex :: queue, s =>
    let s := s.linkBlock env pindex
    let waiting := (s.mapBlocksUnlinked.filter fun entry => entry.1 = pindex).map Prod.snd
    linkQueue rounds (queue ++ waiting)
      { s with mapBlocksUnlinked := s.mapBlocksUnlinked.filter fun entry => entry.1 ≠ pindex }

/-- `ReceivedBlockTransactions`. -/
def receivedBlockTransactions (pindexNew : H256) (count : Nat) : CChainState :=
  let s := s.markWhere (· = pindexNew) fun m =>
    ({ m with nTx := count, nChainTx := 0, haveData := true } : BlockMarks).raiseValidity .transactions
  match s.tree.pprev pindexNew with
  | none => linkQueue env (s.mapBlocksUnlinked.length + 1) [pindexNew] s
  | some p =>
    if (s.marks p).nChainTx ≠ 0 then linkQueue env (s.mapBlocksUnlinked.length + 1) [pindexNew] s
    else if (s.marks p).isValid .tree then
      { s with mapBlocksUnlinked := (p, pindexNew) :: s.mapBlocksUnlinked }
    else s

/-- A block that was not asked for is only processed if it is new, has more work than the tip and is
not too far ahead. -/
def ignored (pindex : H256) : Bool :=
  (s.marks pindex).nTx != 0 ||
    decide (s.tree.nChainWork pindex ≤ s.tree.nChainWork s.tip) ||
    decide (s.tree.nHeight s.tip + minBlocksToKeep < s.tree.nHeight pindex) ||
    decide (s.tree.nChainWork pindex < env.nMinimumChainWork)

def acceptBlockData (pindex : H256) (count : Nat) (checks : BlockChecks) (fRequested : Bool) :
    CChainState × Bool :=
  if !checks.updateHashProof || !s.checkSync (s.tree.nHeight pindex) || !checks.timely then (s, false)
  else if (s.marks pindex).haveData || (!fRequested && s.ignored env pindex) then (s, true)
  else match checks.checkBlock with
    | .corrupted => (s, false)
    | .invalid => (s.markWhere (· = pindex) .failValid, false)
    | .passed =>
      -- a block without transactions does not pass
      if count = 0 then (s.markWhere (· = pindex) .failValid, false)
      else (s.receivedBlockTransactions env pindex count, true)

/-- `AcceptBlock`. -/
def acceptBlock (block : CBlock) (checks : BlockChecks) (fRequested : Bool) : CChainState × Bool :=
  let (s, accepted) := s.acceptBlockHeader env block.toCBlockHeader checks.toHeaderChecks
  if accepted then
    s.acceptBlockData env (env.hashHeader block.toCBlockHeader) block.vtx.length checks fRequested
  else (s, false)

end CChainState
end Artax
