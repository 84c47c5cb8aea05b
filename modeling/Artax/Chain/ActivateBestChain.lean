import Artax.Chain.ChainState

/-!
# Moving the active chain

`ActivateBestChain` with the functions below it, and the commands that change the validity of blocks
by hand. There is no result where the source stops at an assertion or reports a failure of the
system, or when the rounds given do not suffice.
-/

namespace Artax.CChainState

variable (env : ChainEnv) (s : CChainState)

/-! ## The best candidate -/

/-- The loop of `FindMostWorkChain` from a candidate to the active chain: the first block that cannot
be used. -/
def examine : List H256 → Option (Option H256)
  | [] => some none
  | pindexTest :: rest =>
    if (s.marks pindexTest).nChainTx = 0 ∧ s.tree.nHeight pindexTest ≠ 0 then none
    else if (s.marks pindexTest).failed || !(s.marks pindexTest).haveData then some (some pindexTest)
    else examine rest

def discard (pindexNew pindexTest : H256) : CChainState :=
  let chain := (s.tree.links.line pindexNew).takeWhile (· ≠ pindexTest)
  let s := if (s.marks pindexTest).failed then s.markWhere (fun b => decide (b ∈ chain)) .failChild
    else { s with mapBlocksUnlinked :=
      chain.filterMap (fun b => (s.tree.pprev b).map fun p => (p, b)) ++ s.mapBlocksUnlinked }
  { s with setBlockIndexCandidates :=
      s.setBlockIndexCandidates.filter fun b => b ∉ chain ∧ b ≠ pindexTest }

def findMostWork : Nat → CChainState → Option (CChainState × Option H256)
  | 0, s => some (s, none)
  | rounds + 1, s =>
    match s.setBlockIndexCandidates.argmax (s.rank env) with
    | none => some (s, none)
    | some pindexNew =>
      match s.examine ((s.tree.links.line pindexNew).takeWhile fun b => !s.contains b) with
      | none => none
      | some none => some (s, some pindexNew)
      | some (some pindexTest) => findMostWork rounds (s.discard pindexNew pindexTest)

/-- `FindMostWorkChain`. -/
def findMostWorkChain : Option (CChainState × Option H256) :=
  findMostWork env (s.setBlockIndexCandidates.length + 1) s

/-- `PruneBlockIndexCandidates`. -/
def pruneBlockIndexCandidates : Option CChainState :=
  let kept := s.setBlockIndexCandidates.filter fun b => !s.worse env b s.tip
  if kept = [] then none else some { s with setBlockIndexCandidates := kept }

/-! ## Tips -/

/-- `DisconnectTip`, as long as the tip has to go. -/
def disconnectTips (gone : H256 → Bool) : Option CChainState :=
  (s.tree.links.line s.tip).find? (fun b => !gone b) |>.map fun tip =>
    { s with
      tip
      blockDisconnected := ((s.tree.links.line s.tip).takeWhile gone).reverse ++ s.blockDisconnected }

/-- `InvalidBlockFound`. -/
def invalidBlockFound (pindex : H256) : CChainState :=
  { s.markWhere (· = pindex) .failValid with
    failedBlocks := s.failedBlocks.insert pindex
    setBlockIndexCandidates := s.setBlockIndexCandidates.filter (· ≠ pindex) }

def connected (pindexNew : H256) : CChainState :=
  { s.markWhere (· = pindexNew) fun m =>
      ({ m with haveUndo := true } : BlockMarks).raiseValidity .scripts with tip := pindexNew }

def trying (pindexNew : H256) : CChainState := { s with blockTried := pindexNew :: s.blockTried }

/-- `ConnectTip`, given the verdict on the block. -/
def connectTip (pindexNew : H256) : Option (CChainState × Bool) :=
  if s.tree.pprev pindexNew ≠ some s.tip then none
  else if env.connectBlock pindexNew then some ((s.trying pindexNew).connected pindexNew, true)
  else some ((s.trying pindexNew).invalidBlockFound pindexNew, false)

/-- `CChain::FindFork`. -/
def findFork (pindex : H256) : Option H256 := do
  let b ← s.tree.lowered pindex (s.tree.nHeight s.tip)
  (s.tree.links.line b).find? s.contains

inductive ConnectOutcome
  | all
  | better
  | invalid
  deriving DecidableEq, Repr

/-- The loop of `ActivateBestChainStep` over the blocks of a round, up to one that is invalid or that
makes the active chain better than it was. -/
def connectBlocks (pindexOldTip : H256) : List H256 → CChainState → Option (CChainState × ConnectOutcome)
  | [], s => some (s, .all)
  | pindexConnect :: rest, s => do
    let (s, connected) ← s.connectTip env pindexConnect
    if connected then do
      let s ← s.pruneBlockIndexCandidates env
      if s.tree.nChainWork pindexOldTip < s.tree.nChainWork s.tip then some (s, .better)
      else connectBlocks pindexOldTip rest s
    else some (s, .invalid)

def ancestorsBetween (b : H256) (low high : Nat) : List H256 :=
  (List.range' (low + 1) (high - low)).filterMap (s.tree.getAncestor b)

def connectRounds (pindexOldTip pindexMostWork : H256) :
    Nat → Nat → CChainState → Option (CChainState × ConnectOutcome)
  | 0, _, s => some (s, .all)
  | rounds + 1, nHeight, s =>
    if nHeight = s.tree.nHeight pindexMostWork then some (s, .all)
    else
      let nTargetHeight := min (nHeight + 32) (s.tree.nHeight pindexMostWork)
      match connectBlocks env pindexOldTip (s.ancestorsBetween pindexMostWork nHeight nTargetHeight) s with
      | some (s, .all) => connectRounds pindexOldTip pindexMostWork rounds nTargetHeight s
      | result => result

/-- `ActivateBestChainStep`. -/
def activateBestChainStep (pindexMostWork : H256) : Option (CChainState × Bool) := do
  let pindexFork ← s.findFork pindexMostWork
  let nForkHeight := s.tree.nHeight pindexFork
  let after ← s.disconnectTips (· ≠ pindexFork)
  let (after, outcome) ← connectRounds env s.tip pindexMostWork
    (s.tree.nHeight pindexMostWork - nForkHeight) nForkHeight after
  some (after, outcome == .invalid)

/-- The loops of `ActivateBestChain`, a round for each pass of the inner one, with the tip from which
that has to get on and whether a step was made. -/
def activateLoop : Nat → Option H256 → H256 → Bool → CChainState → Option CChainState
  | 0, _, _, _, _ => none
  | rounds + 1, pindexMostWork, starting_tip, blocks_connected, s => do
    let (s, pindexMostWork) ← match pindexMostWork with
      | none => s.findMostWorkChain env
      | some b => some (s, some b)
    match pindexMostWork with
    | none =>
      -- nothing is left to go to
      if blocks_connected then activateLoop rounds none s.tip false s else some s
    | some b =>
      if b = s.tip then some s
      else do
        let (s, fInvalidFound) ← s.activateBestChainStep env b
        let pindexMostWork := if fInvalidFound then none else some b
        if s.worse env s.tip starting_tip then activateLoop rounds pindexMostWork starting_tip true s
        else if pindexMostWork = some s.tip then some s
        else activateLoop rounds pindexMostWork s.tip false s

/-- `ActivateBestChain`, in so many rounds. -/
def activateBestChain (rounds : Nat) : Option CChainState :=
  activateLoop env rounds none s.tip false s

/-! ## Validity by hand -/

/-- The loop of `InvalidateBlock` over the map: the new tip and what is not worse may not be among the
candidates. -/
def restoreCandidates : CChainState :=
  let others := s.tree.known.filter fun b =>
    (s.marks b).isValid .transactions && (s.marks b).nChainTx != 0 && !s.worse env b s.tip
  { s with setBlockIndexCandidates := s.setBlockIndexCandidates ∪ others }

def markInvalid (pindex : H256) (walk : List H256) : CChainState :=
  { (s.markWhere (fun b => decide (b ∈ walk)) .failChild).markWhere (· = pindex) .failValid with
    failedBlocks := s.failedBlocks.insert pindex
    setBlockIndexCandidates := s.setBlockIndexCandidates.filter fun b => b ∉ walk ∧ b ≠ pindex }

/-- `InvalidateBlock`. -/
def invalidateBlock (pindex : H256) : Option CChainState :=
  let walk := if s.contains pindex then (s.tree.links.line s.tip).takeWhile (· ≠ pindex) else []
  if (s.tree.index pindex).isNone then none
  else (s.disconnectTips fun b => decide (s.tree.Anc pindex b)).map fun s =>
    (s.markInvalid pindex walk).restoreCandidates env

def clearDescendants (pindex : H256) : CChainState :=
  let cleared := fun b : H256 => !(s.marks b).isValid .transactions && decide (s.tree.Anc pindex b)
  let after := s.markWhere (fun b => (s.tree.index b).isSome && cleared b) .unfail
  let better := s.tree.known.filter fun b => cleared b && (after.marks b).isValid .transactions &&
    (s.marks b).nChainTx != 0 && s.worse env s.tip b
  { after with
    failedBlocks := s.failedBlocks.filter fun b => !cleared b
    setBlockIndexCandidates := s.setBlockIndexCandidates ∪ better }

def clearAncestors (pindex : H256) : CChainState :=
  let flagged := fun b : H256 => (s.marks b).failed && decide (s.tree.Anc b pindex)
  { s.markWhere flagged .unfail with failedBlocks := s.failedBlocks.filter fun b => !flagged b }

/-- `ResetBlockFailureFlags`. -/
def resetBlockFailureFlags (pindex : H256) : CChainState :=
  (s.clearDescendants env pindex).clearAncestors pindex

def preciousSequenceId : Int :=
  if s.nLastPreciousChainwork < s.tree.nChainWork s.tip then -1 else s.nBlockReverseSequenceId

def makePrecious (pindex : H256) : Option CChainState :=
  let id := s.preciousSequenceId
  let s := { s.markWhere (· = pindex) fun m => { m with nSequenceId := id } with
    nBlockReverseSequenceId := if -2 ^ 31 < id then id - 1 else id
    nLastPreciousChainwork := s.tree.nChainWork s.tip
    setBlockIndexCandidates := s.setBlockIndexCandidates.filter (· ≠ pindex) }
  if (s.marks pindex).isValid .transactions && (s.marks pindex).nChainTx != 0 then
    let s := { s with setBlockIndexCandidates := s.setBlockIndexCandidates.insert pindex }
    s.pruneBlockIndexCandidates env
  else some s

/-- `PreciousBlock`. -/
def preciousBlock (rounds : Nat) (pindex : H256) : Option CChainState :=
  if (s.tree.index pindex).isNone then none
  else if s.tree.nChainWork pindex < s.tree.nChainWork s.tip then some s
  else (s.makePrecious env pindex).bind fun s => s.activateBestChain env rounds

end Artax.CChainState
