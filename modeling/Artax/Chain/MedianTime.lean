import Artax.Chain.Maintained
import Artax.Mining.BlockAssembler
import Artax.Util.SlidingMedian

/-!
# Median time past

`GetMedianTimePast` and the checks of `AcceptBlockHeader` on times. Only proof-of-stake headers are
compared with the median time. Where no proof-of-work header is earlier either, it never falls along
a branch.
-/

namespace Artax

open Util.ParentTree BlockTree CChainState

def nMedianTimeSpan : Nat := 11

namespace BlockTree

variable (t : BlockTree)

/-- `CBlockIndex::GetBlockTime`. -/
def getBlockTime (b : H256) : Int :=
  ((t.index b).map fun n => (n.nTime.toNat : Int)).getD 0

def times (b : H256) : List Int := (t.links.line b).map t.getBlockTime

/-- `CBlockIndex::GetMedianTimePast`. -/
def getMedianTimePast (b : H256) : Int :=
  (Util.median? ((t.times b).take nMedianTimeSpan)).getD 0

variable {t t' : BlockTree} {b p : H256}

theorem times_of_pprev (prev : t.pprev b = some p) : t.times b = t.getBlockTime b :: t.times p := by
  rw [times, line_of_parent (show t.links.parent b = some p from prev), List.map_cons,
    times]

theorem median_times (t : BlockTree) (b : H256) :
    Util.median? ((t.times b).take nMedianTimeSpan) = some (t.getMedianTimePast b) := by
  have some : (t.times b).take nMedianTimeSpan ≠ [] := by
    rw [times, line_eq]
    simp [nMedianTimeSpan]
  obtain ⟨m, found⟩ := Option.isSome_iff_exists.1 (Util.median?_isSome some)
  rw [getMedianTimePast, found]
  rfl

theorem getMedianTimePast_le (prev : t.pprev b = some p)
    (late : t.getMedianTimePast p ≤ t.getBlockTime b) :
    t.getMedianTimePast p ≤ t.getMedianTimePast b := by
  have after := t.median_times b
  rw [times_of_pprev prev] at after
  exact Util.median_take_cons (t.median_times p) after late

theorem Extends.times (ext : t.Extends t') (known : (t.index b).isSome) :
    t'.times b = t.times b := by
  induction b using t.links.induct with
  | _ b ih =>
    have here : t'.getBlockTime b = t.getBlockTime b := by
      rw [getBlockTime, ext.index_eq known, getBlockTime]
    cases prev : t.pprev b with
    | none =>
      have prev' := (ext.pprev known).trans prev
      rw [BlockTree.times, BlockTree.times,
        line_of_root (show t'.links.parent b = none from prev'),
        line_of_root (show t.links.parent b = none from prev), List.map_singleton,
        List.map_singleton, here]
    | some p =>
      rw [times_of_pprev prev, times_of_pprev ((ext.pprev known).trans prev), here,
        ih p prev (isSome_of_pprev prev).2]

theorem Extends.getMedianTimePast (ext : t.Extends t') (known : (t.index b).isSome) :
    t'.getMedianTimePast b = t.getMedianTimePast b := by
  rw [BlockTree.getMedianTimePast, ext.times known, BlockTree.getMedianTimePast]

def MedianRises (t : BlockTree) : Prop :=
  ∀ b p, t.pprev b = some p → t.getMedianTimePast p ≤ t.getMedianTimePast b

theorem MedianRises.anc {a : H256} (rises : t.MedianRises) (anc : t.Anc a b) :
    t.getMedianTimePast a ≤ t.getMedianTimePast b := by
  induction b using t.links.induct with
  | _ b ih =>
    rcases anc_iff.1 anc with rfl | ⟨p, prev, anc⟩
    · exact Int.le_refl _
    · exact (ih p prev anc).trans (rises b p prev)

end BlockTree

theorem CTransaction.isFinalTx_mono (tx : CTransaction) {h h' : Nat} {time time' : Int}
    (height : h ≤ h') (later : time ≤ time') (final : tx.isFinalTx h time) :
    tx.isFinalTx h' time' := by
  simp only [isFinalTx, Bool.or_eq_true, decide_eq_true_eq] at final ⊢
  rcases final with (none | passed) | sequences
  · exact .inl (.inl none)
  · refine .inl (.inr ?_)
    split
    · rename_i byHeight
      rw [if_pos byHeight] at passed
      omega
    · rename_i byTime
      rw [if_neg byTime] at passed
      omega
  · exact .inr sequences

/-- `FutureDrift`. -/
def futureDrift (nTime : Int) : Int := ((BitVec.ofInt 32 nTime + 15#32).toNat : Int)

/-- What the checks of a header read besides the chain state. -/
structure HeaderRules where
  params : ConsensusParams
  bip34Height : Nat
  bip65Height : Nat
  bip66Height : Nat
  getNextWorkRequired : CChainState → H256 → CBlockHeader → UInt32
  lastCheckpoint : CChainState → Option Nat
  checkCanonicalBlockSignature : CBlockHeader → Bool
  checkBlockHeader : CBlockHeader → Bool

namespace HeaderRules

variable (rules : HeaderRules) (s : CChainState) (block : CBlockHeader) (nAdjustedTime : Int)

/-- `ContextualCheckBlockHeader`. -/
def contextualCheckBlockHeader : Bool :=
  let nHeight := s.tree.nHeight block.hashPrevBlock + 1
  let time : Int := block.nTime.toNat
  decide (block.nBits = rules.getNextWorkRequired s block.hashPrevBlock block) &&
  !(rules.lastCheckpoint s).any (fun height => decide (nHeight < height)) &&
  !(block.isProofOfStake && decide (time ≤ s.tree.getMedianTimePast block.hashPrevBlock)) &&
  !(block.isProofOfStake && decide (futureDrift nAdjustedTime < time)) &&
  !((decide (block.nVersion < 2) && decide (rules.bip34Height ≤ nHeight)) ||
    (decide (block.nVersion < 3) && decide (rules.bip66Height ≤ nHeight)) ||
    (decide (block.nVersion < 4) && decide (rules.bip65Height ≤ nHeight)))

def proofChecks : Bool :=
  let nHeight := s.tree.nHeight block.hashPrevBlock + 1
  !(block.isProofOfWork && decide (rules.params.nLastPOWBlock < nHeight)) &&
  !(block.isProofOfStake && decide (nHeight < coinbaseMaturity)) &&
  !(block.isProofOfStake && block.nTime &&& stakeTimestampMask != 0) &&
  rules.checkBlockHeader block

def headerChecks : HeaderChecks where
  checkCanonicalBlockSignature := rules.checkCanonicalBlockSignature block
  contextualCheckBlockHeader := rules.contextualCheckBlockHeader s block nAdjustedTime
  checkBlockHeader := rules.proofChecks s block

def acceptBlockHeader (env : ChainEnv) : CChainState × Bool :=
  s.acceptBlockHeader env block (rules.headerChecks s block nAdjustedTime)

/-- The chain states with a tree that `AcceptBlockHeader` built from the genesis block, each header
on a condition. -/
inductive Built (env : ChainEnv) (admits : CChainState → CBlockHeader → Prop) : CChainState → Prop
  | genesis {s : CChainState} (alone : ∀ b, (s.tree.index b).isSome = true → b = s.tree.genesis) :
      Built env admits s
  | header {s : CChainState} (before : Built env admits s) (block : CBlockHeader)
      (nAdjustedTime : Int) (met : admits s block) :
      Built env admits (rules.acceptBlockHeader s block nAdjustedTime env).1
  | other {s s' : CChainState} (before : Built env admits s) (same : s'.tree = s.tree) :
      Built env admits s'

/-- A proof-of-work header that is not earlier than the median time of its parent. -/
def LateWork (s : CChainState) (block : CBlockHeader) : Prop :=
  block.isProofOfWork = true →
    s.tree.getMedianTimePast block.hashPrevBlock ≤ (block.nTime.toNat : Int)

variable {rules s block nAdjustedTime}

theorem late_of_stake (stake : block.isProofOfStake)
    (passed : rules.contextualCheckBlockHeader s block nAdjustedTime) :
    s.tree.getMedianTimePast block.hashPrevBlock < (block.nTime.toNat : Int) := by
  simp only [contextualCheckBlockHeader, stake, Bool.true_and, Bool.and_eq_true,
    Bool.not_eq_true', decide_eq_false_iff_not, not_le] at passed
  exact passed.1.1.2

theorem tree_of_refused (env : ChainEnv) {checks : HeaderChecks}
    (refused : checks.contextualCheckBlockHeader = false) :
    (s.acceptBlockHeader env block checks).1.tree = s.tree := by
  unfold CChainState.acceptBlockHeader
  dsimp only
  split
  · rfl
  split
  · rfl
  split
  · rfl
  split
  · rfl
  rw [if_pos (by simp [refused])]

/-- Accepting a header leaves the tree, or adds a block that is not earlier than the median time of
its parent if it is staked. -/
theorem acceptBlockHeader_tree (rules : HeaderRules) (s : CChainState) (block : CBlockHeader)
    (nAdjustedTime : Int) (env : ChainEnv) :
    (rules.acceptBlockHeader s block nAdjustedTime env).1.tree = s.tree ∨
    ∃ prev, s.tree.index (env.hashHeader block) = none ∧
      s.tree.index block.hashPrevBlock = some prev ∧
      (block.isProofOfStake →
        s.tree.getMedianTimePast block.hashPrevBlock < (block.nTime.toNat : Int)) ∧
      (rules.acceptBlockHeader s block nAdjustedTime env).1.tree =
        s.tree.addToBlockIndex (env.hashHeader block) block.hashPrevBlock block.nTime
          (env.getBlockProof block) (env.getBlockProof_pos block) := by
  cases passed : rules.contextualCheckBlockHeader s block nAdjustedTime with
  | false => exact .inl (tree_of_refused env passed)
  | true =>
    rcases acceptBlockHeader_cases env s block (rules.headerChecks s block nAdjustedTime) with
      ⟨_, same, _⟩ | ⟨_, _, _, marked⟩ | ⟨prev, fresh, found, _, _, added⟩
    · exact .inl (by rw [acceptBlockHeader, same])
    · exact .inl (by rw [acceptBlockHeader, marked]; rfl)
    · exact .inr ⟨prev, fresh, found, fun stake => late_of_stake stake passed,
        by rw [acceptBlockHeader, added]; rfl⟩

theorem medianRises_added {t : BlockTree} (rises : t.MedianRises) {hash prevHash : H256}
    {nTime : UInt32} {proof : Nat} (positive : 0 < proof) {prev : CBlockIndex}
    (fresh : t.index hash = none) (found : t.index prevHash = some prev)
    (late : t.getMedianTimePast prevHash ≤ (nTime.toNat : Int)) :
    (t.addToBlockIndex hash prevHash nTime proof positive).MedianRises := by
  have ext : t.Extends (t.addToBlockIndex hash prevHash nTime proof positive) :=
    extends_addToBlockIndex positive fresh found
  have parentKnown : (t.index prevHash).isSome := by rw [found]; rfl
  intro b p named
  by_cases new : b = hash
  · subst new
    obtain rfl : p = prevHash := Option.some.inj
      (named.symm.trans (pprev_addToBlockIndex positive fresh found))
    apply getMedianTimePast_le named
    rw [ext.getMedianTimePast parentKnown, getBlockTime,
      index_addToBlockIndex positive fresh found, Function.update_self]
    exact late
  · have known : (t.index b).isSome := by
      have some := (isSome_of_pprev named).1
      rw [isSome_addToBlockIndex positive fresh found] at some
      exact some.resolve_left new
    rw [ext.pprev known] at named
    rw [ext.getMedianTimePast known, ext.getMedianTimePast (isSome_of_pprev named).2]
    exact rises b p named

theorem Built.medianRises {env : ChainEnv} (built : Built rules env LateWork s) :
    s.tree.MedianRises := by
  induction built with
  | @genesis s alone =>
    intro b p named
    have root := alone b (isSome_of_pprev named).1
    rw [root, pprev_genesis] at named
    cases named
  | other _ same ih =>
    rw [same]
    exact ih
  | @header s _ block nAdjustedTime met ih =>
    rcases acceptBlockHeader_tree rules s block nAdjustedTime env with
      same | ⟨prev, fresh, found, staked, added⟩
    · rw [same]
      exact ih
    · rw [added]
      refine medianRises_added ih _ fresh found ?_
      cases kind : block.isProofOfStake with
      | true => exact Int.le_of_lt (staked kind)
      | false => exact met (by rw [CBlockHeader.isProofOfWork, kind]; rfl)

/-- Where no proof-of-work header is earlier than the median time of its parent, median times never
fall along a branch, and a transaction that is final at a height with the median time of a block is
final at every later height with that of any descendant. -/
theorem median_time_past_rises {env : ChainEnv} (built : Built rules env LateWork s) :
    (∀ b p, s.tree.pprev b = some p → s.tree.getMedianTimePast p ≤ s.tree.getMedianTimePast b) ∧
    ∀ (tx : CTransaction) p b h h', s.tree.Anc p b → h ≤ h' →
      tx.isFinalTx h (s.tree.getMedianTimePast p) = true →
      tx.isFinalTx h' (s.tree.getMedianTimePast b) = true := by
  have rises := built.medianRises
  exact ⟨rises, fun tx p b h h' anc height final => tx.isFinalTx_mono height (rises.anc anc) final⟩

/-! ## Early proof of work -/

def sampleRules : HeaderRules where
  params := .main
  bip34Height := 0
  bip65Height := 0
  bip66Height := 0
  getNextWorkRequired := fun _ _ _ => 0
  lastCheckpoint := fun _ => none
  checkCanonicalBlockSignature := fun _ => true
  checkBlockHeader := fun _ => true

def workHeader (hashPrevBlock hash : Nat) (nTime : UInt32) : CBlockHeader where
  nVersion := hash
  hashPrevBlock := hashPrevBlock
  hashMerkleRoot := 0
  nTime := nTime
  nBits := 0
  nNonce := 0
  hashStateRoot := 0
  hashUTXORoot := 0
  prevoutStake := ⟨0, 0xffffffff⟩
  vchBlockSig := []

def acceptAll (headers : List CBlockHeader) (s : CChainState) : CChainState :=
  headers.foldl (fun s header => (sampleRules.acceptBlockHeader s header 0 sampleEnv).1) s

def lockedTx : CTransaction where
  vin := [{ prevout := ⟨1, 0⟩, scriptSig := [], nSequence := 0 }]
  vout := []
  nLockTime := 500000250

/-- Two proof-of-work headers over a genesis block: the second lowers the median time, and a
transaction that was final no longer is. -/
theorem median_time_past_falls :
    let s := acceptAll [workHeader 4 5 500000300, workHeader 5 6 500000200] (.start 4 1 500000000)
    s.tree.pprev 6 = some 5 ∧ s.tree.getMedianTimePast 5 = 500000300 ∧
      s.tree.getMedianTimePast 6 = 500000200 ∧
      lockedTx.isFinalTx 2 (s.tree.getMedianTimePast 5) ∧
      lockedTx.isFinalTx 3 (s.tree.getMedianTimePast 6) = false := by
  decide +kernel

theorem start_alone (genesis : H256) (nChainWork : Nat) (nTime : UInt32) :
    ∀ b, ((start genesis nChainWork nTime).tree.index b).isSome →
      b = (start genesis nChainWork nTime).tree.genesis := by
  intro b known
  simp only [start] at known ⊢
  split at known
  · rename_i same
    exact same
  · cases known

def lateHeaders : List CBlockHeader :=
  [workHeader 4 5 500000300, workHeader 5 6 500000300, workHeader 6 7 500000400,
    workHeader 7 8 500000350]

/-- The last of four headers is earlier than the one before, but not than the median time there. -/
theorem median_time_past_rises_late :
    let s := acceptAll lateHeaders (.start 4 1 500000100)
    s.tree.pprev 8 = some 7 ∧ s.tree.getMedianTimePast 7 ≤ s.tree.getMedianTimePast 8 ∧
      lockedTx.isFinalTx 2 (s.tree.getMedianTimePast 5) ∧
      lockedTx.isFinalTx 5 (s.tree.getMedianTimePast 8) := by
  have built : Built sampleRules sampleEnv LateWork (acceptAll lateHeaders (.start 4 1 500000100)) :=
    .header (.header (.header (.header (.genesis (start_alone 4 1 500000100)) _ 0
      fun _ => by decide +kernel) _ 0 fun _ => by decide +kernel) _ 0
      fun _ => by decide +kernel) _ 0 fun _ => by decide +kernel
  obtain ⟨rises, final⟩ := median_time_past_rises built
  have links : let t := (acceptAll lateHeaders (.start 4 1 500000100)).tree
      (t.pprev 8 = some 7 ∧ t.pprev 7 = some 6 ∧ t.pprev 6 = some 5) ∧
        lockedTx.isFinalTx 2 (t.getMedianTimePast 5) := by decide +kernel
  obtain ⟨⟨eight, seven, six⟩, before⟩ := links
  have anc : (acceptAll lateHeaders (.start 4 1 500000100)).tree.Anc 5 8 :=
    (BlockTree.anc_of_pprev eight).2 (.inr ((BlockTree.anc_of_pprev seven).2 (.inr (.parent six))))
  exact ⟨eight, rises 8 7 eight, before, final lockedTx 5 8 2 5 anc (by decide) before⟩

end HeaderRules
end Artax
