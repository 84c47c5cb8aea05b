import Artax.Chain.Finality

/-!
# Pruning of block files

`FindFilesToPrune` keeps files with one of the last 288 active blocks, but the synchronized
checkpoint lies 500 blocks below the tip. What may have to be disconnected stays available as long as
each file that may be pruned ends at or below the checkpoint.
-/

namespace Artax

open BlockTree CChainState List

/-- The fields of `CBlockFileInfo` that pruning reads. -/
structure CBlockFileInfo where
  nSize : UInt32 := 0
  nUndoSize : UInt32 := 0
  nHeightLast : UInt32 := 0
  deriving DecidableEq, Repr

def CBlockFileInfo.usage (file : CBlockFileInfo) : UInt64 := (file.nSize + file.nUndoSize).toUInt64

structure PruningNode where
  chain : CChainState
  nFile : H256 → Nat
  vinfoBlockFile : List CBlockFileInfo
  nLastBlockFile : Nat

def blockfileChunkSize : UInt64 := 0x1000000

def undofileChunkSize : UInt64 := 0x100000

namespace PruningNode

variable (n : PruningNode)

def info (fileNumber : Nat) : CBlockFileInfo := n.vinfoBlockFile.getD fileNumber {}

/-- `CalculateCurrentUsage`. -/
def calculateCurrentUsage : UInt64 :=
  n.vinfoBlockFile.foldl (fun retval file => retval + file.usage) 0

def storedIn (fileNumber : Nat) (b : H256) : Bool :=
  (n.chain.tree.index b).isSome && n.nFile b == fileNumber

/-- `PruneOneBlockFile`. -/
def pruneOneBlockFile (fileNumber : Nat) : PruningNode where
  chain :=
    { n.chain.markWhere (n.storedIn fileNumber) fun m =>
        { m with haveData := false, haveUndo := false } with
      mapBlocksUnlinked := n.chain.mapBlocksUnlinked.filter fun entry =>
        !(n.storedIn fileNumber entry.2 && n.chain.tree.pprev entry.2 == some entry.1) }
  nFile b := if n.storedIn fileNumber b then 0 else n.nFile b
  vinfoBlockFile := n.vinfoBlockFile.set fileNumber {}
  nLastBlockFile := n.nLastBlockFile

def pruneFiles (nPruneTarget nBuffer : UInt64) (nLastBlockWeCanPrune : UInt32) :
    List Nat → PruningNode → UInt64 → PruningNode × List Nat
  | [], n, _ => (n, [])
  | fileNumber :: rest, n, nCurrentUsage =>
    if (n.info fileNumber).nSize = 0 then
      pruneFiles nPruneTarget nBuffer nLastBlockWeCanPrune rest n nCurrentUsage
    else if nCurrentUsage + nBuffer < nPruneTarget then (n, [])
    else if nLastBlockWeCanPrune < (n.info fileNumber).nHeightLast then
      pruneFiles nPruneTarget nBuffer nLastBlockWeCanPrune rest n nCurrentUsage
    else
      let after := pruneFiles nPruneTarget nBuffer nLastBlockWeCanPrune rest
        (n.pruneOneBlockFile fileNumber) (nCurrentUsage - (n.info fileNumber).usage)
      (after.1, fileNumber :: after.2)

/-- `nLastBlockWeCanPrune`; the subtraction wraps below height 288. -/
def nLastBlockWeCanPrune : UInt32 :=
  UInt32.ofNat (n.chain.tree.nHeight n.chain.tip) - UInt32.ofNat minBlocksToKeep

/-- `FindFilesToPrune`. -/
def findFilesToPrune (nPruneTarget nPruneAfterHeight : UInt64) (isInitialBlockDownload : Bool) :
    PruningNode × List Nat :=
  let nBuffer := blockfileChunkSize + undofileChunkSize
  if nPruneTarget = 0 then (n, [])
  else if UInt64.ofNat (n.chain.tree.nHeight n.chain.tip) ≤ nPruneAfterHeight then (n, [])
  else if nPruneTarget ≤ n.calculateCurrentUsage + nBuffer then
    pruneFiles nPruneTarget
      (if isInitialBlockDownload then nBuffer + nPruneTarget / 10 else nBuffer)
      n.nLastBlockWeCanPrune (List.range n.nLastBlockFile) n n.calculateCurrentUsage
  else (n, [])

/-- A block of the active chain above the synchronized checkpoint. -/
def Reorganisable (b : H256) : Prop :=
  n.chain.tree.Anc b n.chain.tip ∧
    n.chain.tree.nHeight n.chain.autoSelectSyncCheckpoint < n.chain.tree.nHeight b

def Stored (b : H256) : Prop :=
  (n.chain.marks b).haveData = true ∧ (n.chain.marks b).haveUndo = true

/-- All blocks that may still be disconnected are there. -/
def Kept : Prop := ∀ b, n.Reorganisable b → n.Stored b

/-- The greatest height that is noted for a file is at least that of every block in it. -/
def Covered : Prop :=
  ∀ b, (n.chain.tree.index b).isSome = true → (n.chain.marks b).haveData = true →
    n.chain.tree.nHeight b ≤ (n.info (n.nFile b)).nHeightLast.toNat

/-- Each file that a run of `FindFilesToPrune` may prune ends at or below the checkpoint. -/
def Sparing : Prop :=
  ∀ fileNumber < n.nLastBlockFile, (n.info fileNumber).nSize ≠ 0 →
    (n.info fileNumber).nHeightLast ≤ n.nLastBlockWeCanPrune →
      (n.info fileNumber).nHeightLast.toNat ≤
        n.chain.tree.nHeight n.chain.autoSelectSyncCheckpoint

/-- What the connection of a block leaves: the new tip is stored, and so is what was stored of the
chain, in the same files. -/
structure Connects (n n' : PruningNode) : Prop where
  tree : n.chain.tree.Extends n'.chain.tree
  next : n'.chain.tree.pprev n'.chain.tip = some n.chain.tip
  new : n'.Stored n'.chain.tip
  old : ∀ b, n.chain.tree.Anc b n.chain.tip → (n'.Stored b ↔ n.Stored b) ∧ n'.nFile b = n.nFile b
  covered : n'.Covered

/-! ## One run -/

variable {n}

theorem stored_pruneOneBlockFile {fileNumber : Nat} {b : H256} :
    (n.pruneOneBlockFile fileNumber).Stored b ↔ n.Stored b ∧ n.storedIn fileNumber b = false := by
  unfold Stored pruneOneBlockFile markWhere
  dsimp only
  cases n.storedIn fileNumber b <;> simp

theorem nFile_pruneOneBlockFile {fileNumber : Nat} {b : H256}
    (elsewhere : n.nFile b ≠ fileNumber) :
    (n.pruneOneBlockFile fileNumber).nFile b = n.nFile b := by
  have apart : n.storedIn fileNumber b = false := by simp [storedIn, elsewhere]
  simp [pruneOneBlockFile, apart]

theorem info_pruneOneBlockFile {fileNumber other : Nat} (apart : other ≠ fileNumber) :
    (n.pruneOneBlockFile fileNumber).info other = n.info other := by
  simp [info, pruneOneBlockFile, getD_eq_getElem?_getD, getElem?_set_ne apart.symm]

theorem covered_pruneOneBlockFile (covered : n.Covered) (fileNumber : Nat) :
    (n.pruneOneBlockFile fileNumber).Covered := by
  intro b known data
  have known : (n.chain.tree.index b).isSome := known
  cases inside : n.storedIn fileNumber b with
  | true => simp [pruneOneBlockFile, markWhere, inside] at data
  | false =>
    have elsewhere : n.nFile b ≠ fileNumber := by simpa [storedIn, known] using inside
    have data : (n.chain.marks b).haveData := by
      simpa [pruneOneBlockFile, markWhere, inside] using data
    rw [nFile_pruneOneBlockFile elsewhere, info_pruneOneBlockFile elsewhere]
    exact covered b known data

/-- Files were pruned one after the other. -/
inductive Prunes : PruningNode → List Nat → PruningNode → Prop
  | nil {n : PruningNode} : Prunes n [] n
  | cons {n n' : PruningNode} {fileNumber : Nat} {files : List Nat}
      (rest : Prunes (n.pruneOneBlockFile fileNumber) files n') :
      Prunes n (fileNumber :: files) n'

theorem prunes_pruneFiles (nPruneTarget nBuffer nCurrentUsage : UInt64) (last : UInt32)
    (files : List Nat) :
    Prunes n (pruneFiles nPruneTarget nBuffer last files n nCurrentUsage).2
      (pruneFiles nPruneTarget nBuffer last files n nCurrentUsage).1 := by
  induction files generalizing n nCurrentUsage with
  | nil => exact .nil
  | cons fileNumber files ih =>
    rw [pruneFiles]
    split
    · exact ih _
    · split
      · exact .nil
      · split
        · exact ih _
        · exact .cons (ih _)

/-- A file that is pruned was one to look at, was not empty and ended low enough, before the run. -/
theorem mem_pruneFiles {nPruneTarget nBuffer nCurrentUsage : UInt64} {last : UInt32}
    {files : List Nat} {fileNumber : Nat} (distinct : files.Nodup)
    (pruned : fileNumber ∈ (pruneFiles nPruneTarget nBuffer last files n nCurrentUsage).2) :
    fileNumber ∈ files ∧ (n.info fileNumber).nSize ≠ 0 ∧ (n.info fileNumber).nHeightLast ≤ last := by
  induction files generalizing n nCurrentUsage with
  | nil => cases pruned
  | cons first files ih =>
    obtain ⟨fresh, distinct⟩ := nodup_cons.1 distinct
    rw [pruneFiles] at pruned
    split at pruned
    · exact (ih distinct pruned).imp_left (mem_cons_of_mem _)
    · rename_i full
      split at pruned
      · cases pruned
      · split at pruned
        · exact (ih distinct pruned).imp_left (mem_cons_of_mem _)
        · rename_i low
          rcases mem_cons.1 pruned with rfl | later
          · exact ⟨mem_cons_self, full, UInt32.not_lt.1 low⟩
          · obtain ⟨listed, size, height⟩ := ih distinct later
            have apart : fileNumber ≠ first := fun same => fresh (same ▸ listed)
            rw [info_pruneOneBlockFile apart] at size height
            exact ⟨mem_cons_of_mem _ listed, size, height⟩

theorem findFilesToPrune_cases (n : PruningNode) (nPruneTarget nPruneAfterHeight : UInt64)
    (ibd : Bool) :
    n.findFilesToPrune nPruneTarget nPruneAfterHeight ibd = (n, []) ∨
      ∃ nBuffer, n.findFilesToPrune nPruneTarget nPruneAfterHeight ibd =
        pruneFiles nPruneTarget nBuffer n.nLastBlockWeCanPrune (range n.nLastBlockFile) n
          n.calculateCurrentUsage := by
  unfold findFilesToPrune
  dsimp only
  split_ifs
  · exact .inl rfl
  · exact .inl rfl
  · exact .inr ⟨_, rfl⟩
  · exact .inr ⟨_, rfl⟩
  · exact .inl rfl

theorem prunes_findFilesToPrune (n : PruningNode) (nPruneTarget nPruneAfterHeight : UInt64)
    (ibd : Bool) :
    Prunes n (n.findFilesToPrune nPruneTarget nPruneAfterHeight ibd).2
      (n.findFilesToPrune nPruneTarget nPruneAfterHeight ibd).1 := by
  rcases n.findFilesToPrune_cases nPruneTarget nPruneAfterHeight ibd with same | ⟨_, same⟩
  · rw [same]
    exact .nil
  · rw [same]
    exact prunes_pruneFiles ..

variable {n' : PruningNode} {files : List Nat} {b : H256}

section

variable (prunes : Prunes n files n')
include prunes

theorem Prunes.chain :
    n'.chain.tree = n.chain.tree ∧ n'.chain.tip = n.chain.tip := by
  induction prunes with
  | nil => exact ⟨rfl, rfl⟩
  | cons rest ih => exact ih

theorem Prunes.stored_of_stored (after : n'.Stored b) :
    n.Stored b := by
  induction prunes with
  | nil => exact after
  | cons rest ih => exact (stored_pruneOneBlockFile.1 (ih after)).1

theorem Prunes.stored_iff (known : (n.chain.tree.index b).isSome) :
    n'.Stored b ↔ n.Stored b ∧ n.nFile b ∉ files := by
  induction prunes with
  | nil => simp
  | @cons n n' fileNumber files rest ih =>
    by_cases here : n.nFile b = fileNumber
    · have inside : n.storedIn fileNumber b := by simp [storedIn, known, here]
      constructor
      · intro after
        have apart := (stored_pruneOneBlockFile.1 (rest.stored_of_stored after)).2
        cases inside.symm.trans apart
      · rintro ⟨-, outside⟩
        exact absurd (here ▸ mem_cons_self) outside
    · have apart : n.storedIn fileNumber b = false := by simp [storedIn, here]
      rw [ih known, stored_pruneOneBlockFile, nFile_pruneOneBlockFile here, mem_cons, not_or]
      constructor
      · exact fun kept => ⟨kept.1.1, here, kept.2⟩
      · exact fun kept => ⟨⟨kept.1, apart⟩, kept.2.2⟩

theorem Prunes.covered (covered : n.Covered) : n'.Covered := by
  induction prunes with
  | nil => exact covered
  | cons rest ih => exact ih (covered_pruneOneBlockFile covered _)

theorem Prunes.reorganisable_iff :
    n'.Reorganisable b ↔ n.Reorganisable b := by
  obtain ⟨tree, tip⟩ := prunes.chain
  unfold Reorganisable autoSelectSyncCheckpoint
  rw [tree, tip]

end

/-! ## Whole histories -/

inductive PruneEvent
  | connect (next : PruningNode)
  | prune (nPruneTarget nPruneAfterHeight : UInt64) (isInitialBlockDownload : Bool)

namespace PruneEvent

def perform (n : PruningNode) : PruneEvent → PruningNode
  | connect next => next
  | prune target after ibd => (n.findFilesToPrune target after ibd).1

def Proper (n : PruningNode) : PruneEvent → Prop
  | connect next => n.Connects next
  | prune _ _ _ => True

/-- A run finds only files to prune that end at or below the checkpoint. -/
def Spares (n : PruningNode) : PruneEvent → Prop
  | connect _ => True
  | prune _ _ _ => n.Sparing

end PruneEvent

def ProperHistory : PruningNode → List PruneEvent → Prop
  | _, [] => True
  | n, event :: rest => event.Proper n ∧ ProperHistory (event.perform n) rest

def KeptThroughout : PruningNode → List PruneEvent → Prop
  | _, [] => True
  | n, event :: rest => (event.perform n).Kept ∧ KeptThroughout (event.perform n) rest

/-- Each run of a history has before it only files to prune that end at or below the checkpoint. -/
def SparesThroughout : PruningNode → List PruneEvent → Prop
  | _, [] => True
  | n, event :: rest => event.Spares n ∧ SparesThroughout (event.perform n) rest

section

variable (connects : n.Connects n') (known : (n.chain.tree.index n.chain.tip).isSome)
include connects known

theorem Connects.checkpoint_le :
    n.chain.tree.nHeight n.chain.autoSelectSyncCheckpoint ≤
      n'.chain.tree.nHeight n'.chain.autoSelectSyncCheckpoint := by
  have knownAfter := isSome_of_pprev connects.next
  obtain ⟨anc, below, -⟩ := autoSelectSyncCheckpoint_spec known
  obtain ⟨-, -, last⟩ := autoSelectSyncCheckpoint_spec knownAfter.1
  have knownCheckpoint := isSome_of_anc anc known
  have ancAfter : n'.chain.tree.Anc n.chain.autoSelectSyncCheckpoint n'.chain.tip :=
    (anc_of_pprev connects.next).2 (.inr (connects.tree.anc_mono anc))
  have height := nHeight_of_pprev connects.next
  rw [← connects.tree.nHeight knownCheckpoint]
  refine nHeight_le_of_anc (last _ ancAfter ?_)
  unfold CChainState.BelowSpan at below ⊢
  rw [connects.tree.pprev knownCheckpoint, connects.tree.nHeight knownCheckpoint, height,
    connects.tree.nHeight known]
  exact below.imp id fun low => Nat.le_succ_of_le low

theorem Connects.kept (kept : n.Kept) : n'.Kept := by
  rintro b ⟨active, above⟩
  rcases (anc_of_pprev connects.next).1 active with rfl | before
  · exact connects.new
  · rw [connects.tree.anc known] at before
    refine (connects.old b before).1.2 (kept b ⟨before, ?_⟩)
    rw [connects.tree.nHeight (isSome_of_anc before known)] at above
    exact lt_of_le_of_lt (connects.checkpoint_le known) above

end

/-- The files of blocks above the checkpoint end above it, so a run that spares the checkpoint spares
them. -/
theorem Kept.prune (kept : n.Kept) (known : (n.chain.tree.index n.chain.tip).isSome)
    (covered : n.Covered) (sparing : n.Sparing) (nPruneTarget nPruneAfterHeight : UInt64)
    (ibd : Bool) : (n.findFilesToPrune nPruneTarget nPruneAfterHeight ibd).1.Kept := by
  have prunes := n.prunes_findFilesToPrune nPruneTarget nPruneAfterHeight ibd
  intro b above
  have above := prunes.reorganisable_iff.1 above
  have known := isSome_of_anc above.1 known
  refine (prunes.stored_iff known).2 ⟨kept b above, fun pruned => ?_⟩
  rcases n.findFilesToPrune_cases nPruneTarget nPruneAfterHeight ibd with none | ⟨_, run⟩
  · rw [none] at pruned
    cases pruned
  · rw [run] at pruned
    obtain ⟨listed, size, low⟩ := mem_pruneFiles nodup_range pruned
    have ends := sparing _ (mem_range.1 listed) size low
    exact absurd ((covered b known (kept b above).1).trans ends) (Nat.not_le_of_lt above.2)

theorem kept_perform (known : (n.chain.tree.index n.chain.tip).isSome) (kept : n.Kept)
    (covered : n.Covered) {event : PruneEvent} (proper : event.Proper n) (spares : event.Spares n) :
    (event.perform n).Kept ∧ (event.perform n).Covered := by
  cases event with
  | connect next => exact ⟨Connects.kept proper known kept, Connects.covered proper⟩
  | prune target after ibd =>
    exact ⟨kept.prune known covered spares target after ibd,
      (n.prunes_findFilesToPrune target after ibd).covered covered⟩

theorem known_perform (known : (n.chain.tree.index n.chain.tip).isSome)
    {event : PruneEvent} (proper : event.Proper n) :
    ((event.perform n).chain.tree.index (event.perform n).chain.tip).isSome := by
  cases event with
  | connect next => exact (isSome_of_pprev (Connects.next proper)).1
  | prune target after ibd =>
    obtain ⟨tree, tip⟩ := (n.prunes_findFilesToPrune target after ibd).chain
    rw [PruneEvent.perform, tree, tip]
    exact known

/-- Over every history, with the heights of the files noted, the blocks above the checkpoint stay
available if before each run every file that may be pruned ends at or below the checkpoint. -/
theorem kept_throughout_of_spares {n : PruningNode} {events : List PruneEvent}
    (known : (n.chain.tree.index n.chain.tip).isSome = true) (covered : n.Covered)
    (start : ∀ b, n.chain.tree.Anc b n.chain.tip → n.Stored b)
    (proper : ProperHistory n events) (spares : SparesThroughout n events) :
    KeptThroughout n events := by
  have kept : n.Kept := fun b above => start b above.1
  clear start
  induction events generalizing n with
  | nil => trivial
  | cons event rest ih =>
    obtain ⟨keptAfter, coveredAfter⟩ := kept_perform known kept covered proper.1 spares.1
    exact ⟨keptAfter, ih (known_perform known proper.1) coveredAfter proper.2 spares.2 keptAfter⟩

end PruningNode

theorem mem_range_iff_chainIndex (n : Nat) (b : Nat) :
    b ∈ range (n + 1) ↔ (chainIndex n b).isSome := by
  rw [mem_range, Nat.lt_succ_iff, chainIndex]
  split <;> simp [*]

theorem isSome_chainIndex_zero (n : Nat) : (chainIndex n 0).isSome :=
  (mem_range_iff_chainIndex n 0).1 (mem_range.2 n.succ_pos)

theorem linked_chainIndex {n b : Nat} {entry : CBlockIndex}
    (found : chainIndex n b = some entry) :
    entry.Linked 0 (chainIndex n) b := by
  unfold chainIndex at found
  split at found
  · rename_i le
    cases found
    by_cases root : b = 0
    · subst root
      exact .genesis rfl rfl
    · have below : b - 1 ≤ n := Nat.le_trans (Nat.sub_le b 1) le
      refine .child (p := b - 1) (if_neg root) (if_pos below) ?_ ?_
      · change b = b - 1 + 1
        omega
      · change b - 1 + 1 < b + 1
        omega
  · cases found

def chainTree (n : Nat) : BlockTree where
  genesis := 0
  index := chainIndex n
  known := List.range (n + 1)
  mem_known := mem_range_iff_chainIndex n
  root := isSome_chainIndex_zero n
  linked _ _ := linked_chainIndex

namespace PruningNode

theorem anc_chainTree {n a b : Nat} (le : a ≤ b) (top : b ≤ n) : (chainTree n).Anc a b := by
  induction b with
  | zero =>
    rw [Nat.le_zero.1 le]
  | succ b ih =>
    rcases Nat.le_succ_iff.1 le with below | rfl
    · have prev : (chainTree n).pprev (b + 1) = some b := by
        simp [pprev, chainTree, chainIndex, top]
      exact (anc_of_pprev prev).2 (.inr (ih below (Nat.le_of_succ_le top)))
    · exact .refl _

theorem nHeight_chainTree {n b : Nat} (le : b ≤ n) : (chainTree n).nHeight b = b := by
  simp [nHeight, chainTree, chainIndex, le]

/-- A chain of 1001 blocks in five files, of which the first ends at a given height. -/
def crowdedNode (first : Nat) : PruningNode where
  chain :=
    { tree := chainTree 1001
      marks := fun _ => { haveData := true, haveUndo := true }
      tip := 1001
      setBlockIndexCandidates := [1001]
      mapBlocksUnlinked := []
      failedBlocks := []
      nBlockSequenceId := 1
      nBlockReverseSequenceId := -1
      nLastPreciousChainwork := 0
      blockDisconnected := []
      blockTried := [] }
  nFile b := if b ≤ first then 0 else if b ≤ 800 then 1 else (b - 601) / 100
  vinfoBlockFile := [⟨134000000, 0, UInt32.ofNat first⟩, ⟨134000000, 0, 800⟩, ⟨134000000, 0, 900⟩,
    ⟨134000000, 0, 1000⟩, ⟨134000000, 0, 1001⟩]
  nLastBlockFile := 4

theorem crowdedNode_stored (first : Nat) (b : H256) : (crowdedNode first).Stored b := ⟨rfl, rfl⟩

theorem crowdedNode_covered {first : Nat} (layout : ∀ b : Nat, b < 1002 →
      b ≤ ((crowdedNode first).info ((crowdedNode first).nFile b)).nHeightLast.toNat) :
    (crowdedNode first).Covered := by
  intro b known _
  have le : (b : Nat) ≤ 1001 := by
    by_contra more
    simp [crowdedNode, chainTree, chainIndex, more] at known
  have height : (crowdedNode first).chain.tree.nHeight b = b := nHeight_chainTree le
  rw [height]
  exact layout b (Nat.lt_succ_of_le le)

/-- The checkpoint is block 501. -/
theorem nHeight_checkpoint_crowdedNode (first : Nat) : (crowdedNode first).chain.tree.nHeight
    (crowdedNode first).chain.autoSelectSyncCheckpoint = 501 := by
  have known : ((crowdedNode first).chain.tree.index (crowdedNode first).chain.tip).isSome := rfl
  obtain ⟨anc, below, greatest⟩ := autoSelectSyncCheckpoint_spec known
  have tip : (crowdedNode first).chain.tree.nHeight (crowdedNode first).chain.tip = 1001 :=
    nHeight_chainTree le_rfl
  have height : (crowdedNode first).chain.tree.nHeight 501 = 501 := nHeight_chainTree (by decide)
  have least := nHeight_le_of_anc (greatest 501 (anc_chainTree (b := 1001) (by decide) le_rfl) (.inr (by
    rw [tip, height]
    decide)))
  rw [height] at least
  refine le_antisymm ?_ least
  rcases below with root | low
  · rw [eq_genesis_of_pprev (isSome_of_anc anc known) root, nHeight_genesis]
    exact Nat.zero_le _
  · rw [tip] at low
    exact Nat.le_sub_of_add_le low

/-- At the least prune target of 550 MiB the first file, which ends at block 400, is pruned, and the
blocks above the checkpoint stay. -/
theorem kept_throughout_of_spares_crowdedNode :
    ((crowdedNode 400).findFilesToPrune (550 * 1024 * 1024) 1000 false).2 = [0] ∧
      KeptThroughout (crowdedNode 400) [.prune (550 * 1024 * 1024) 1000 false] := by
  have sparing : (crowdedNode 400).Sparing := by
    have ends : ∀ fileNumber < (crowdedNode 400).nLastBlockFile,
        ((crowdedNode 400).info fileNumber).nHeightLast ≤ (crowdedNode 400).nLastBlockWeCanPrune →
          ((crowdedNode 400).info fileNumber).nHeightLast.toNat ≤ 501 := by decide +kernel
    intro fileNumber below _ low
    rw [nHeight_checkpoint_crowdedNode]
    exact ends fileNumber below low
  exact ⟨by decide +kernel, kept_throughout_of_spares rfl (crowdedNode_covered (by decide +kernel))
    (fun b _ => crowdedNode_stored 400 b) ⟨trivial, trivial⟩ ⟨sparing, trivial⟩⟩

/-- Where the first file ends at block 700 it is pruned too, and with it block 600, although the
checkpoint is block 501. -/
theorem prunes_above_checkpoint : (crowdedNode 700).Covered ∧
    (∀ b, (crowdedNode 700).chain.tree.Anc b (crowdedNode 700).chain.tip →
      (crowdedNode 700).Stored b) ∧
    ¬ ((crowdedNode 700).findFilesToPrune (550 * 1024 * 1024) 1000 false).1.Kept := by
  refine ⟨crowdedNode_covered (by decide +kernel), fun b _ => crowdedNode_stored 700 b,
    fun kept => ?_⟩
  have prunes := (crowdedNode 700).prunes_findFilesToPrune (550 * 1024 * 1024) 1000 false
  have above : (crowdedNode 700).Reorganisable 600 := by
    have height : (crowdedNode 700).chain.tree.nHeight 600 = 600 := nHeight_chainTree (by decide)
    refine ⟨anc_chainTree (by decide) le_rfl, ?_⟩
    rw [nHeight_checkpoint_crowdedNode, height]
    decide
  have stored := (prunes.stored_iff (by decide)).1 (kept 600 (prunes.reorganisable_iff.2 above))
  have pruned : ((crowdedNode 700).findFilesToPrune (550 * 1024 * 1024) 1000 false).2 = [0] := by
    decide +kernel
  rw [pruned] at stored
  exact stored.2 (by decide)

end PruningNode
end Artax
