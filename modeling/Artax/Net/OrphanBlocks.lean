import Artax.Util.OrderedMap
import Artax.Primitives.Block

/-!
# Blocks without their parents

`ProcessNetBlock` passes a block with an indexed parent on and holds others as orphans. Of the two
tests that limit how often a proof of stake may be used, the one on indexed blocks never refuses, and
the one on orphans lets a repeated proof in when a child of the block is held.
-/

namespace Artax

open Util (OrderedMap)
open Util.OrderedMap Option Finset

/-- A staked coin and the time at which it is staked. -/
abbrev StakeProof := COutPoint × UInt32

def CBlockHeader.getProofOfStake (block : CBlockHeader) : StakeProof :=
  if block.isProofOfStake then (block.prevoutStake, block.nTime) else (⟨0, 0xffffffff⟩, 0)

theorem CBlockHeader.getProofOfStake_ne {left right : CBlockHeader}
    (staked : left.isProofOfStake) (worked : right.isProofOfStake = false) :
    left.getProofOfStake ≠ right.getProofOfStake := by
  rw [getProofOfStake, if_pos staked, getProofOfStake, worked, if_neg Bool.false_ne_true]
  intro same
  have null : left.prevoutStake = ⟨0, 0xffffffff⟩ := congrArg Prod.fst same
  rw [isProofOfStake, null] at staked
  cases staked

structure COrphanBlock where
  hashBlock : H256
  hashPrev : H256
  stake : StakeProof
  block : CBlock
  size : Nat
  deriving DecidableEq, Repr

/-- The hashes and the limit that blocks from the network are processed under. -/
structure NetEnv where
  getHash : CBlockHeader → H256
  computeHash : CTransaction → H256
  pairHash : H256 → H256 → H256
  serializeSize : CBlockHeader → List CTransaction → Nat
  checkCanonicalBlockSignature : CBlock → Bool
  nMaxOrphanBlocksSize : Nat

def COrphanBlock.ofBlock (env : NetEnv) (pblock : CBlock) : COrphanBlock where
  hashBlock := env.getHash pblock.toCBlockHeader
  hashPrev := pblock.hashPrevBlock
  stake := pblock.getProofOfStake
  block := { pblock with fChecked := false }
  size := env.serializeSize pblock.toCBlockHeader pblock.vtx

structure NetState where
  mapBlockIndex : H256 → Option CBlockHeader
  setStakeSeen : Finset StakeProof
  mapOrphanBlocks : OrderedMap H256 COrphanBlock
  mapOrphanBlocksByPrev : List COrphanBlock
  nOrphanBlocksSize : Nat
  setStakeSeenOrphan : Finset StakeProof

/-- A call of `ProcessNetBlock`, with what it takes from the rest of the node. -/
structure BlockArrival where
  pblock : CBlock
  pfrom : Bool
  fReindex : Bool
  fImporting : Bool
  tip : Option (H256 × UInt32)
  getRandHash : Nat → H256
  processNewBlock : NetState → CBlock → Bool × Bool

/-- What the checks of `ProcessNetBlock` decide on a block. -/
inductive Admission
  | refused
  | passedOver
  | orphan
  | process
  deriving DecidableEq, Repr

namespace NetState

variable (env : NetEnv) (s : NetState)

def addToBlockIndex (header : CBlockHeader) : NetState :=
  let hash := env.getHash header
  if (s.mapBlockIndex hash).isSome then s
  else
    { s with
      mapBlockIndex := Function.update s.mapBlockIndex hash (some header)
      setStakeSeen := if header.isProofOfStake then
        insert (header.prevoutStake, header.nTime) s.setStakeSeen else s.setStakeSeen }

def countStakeSeen (proof : StakeProof) : Nat := if proof ∈ s.setStakeSeen then 1 else 0

def countOrphansByPrev (hash : H256) : Nat :=
  s.mapOrphanBlocksByPrev.countP fun orphan => decide (orphan.hashPrev = hash)

def admission (a : BlockArrival) : Admission :=
  let pblock := a.pblock
  let hash := env.getHash pblock.toCBlockHeader
  if pblock.isProofOfStake && !(pblock.vtx[1]?.any CTransaction.isCoinStake) then .refused
  else if s.mapOrphanBlocks.contains hash then .refused
  else if !a.fReindex && !a.fImporting && pblock.isProofOfStake &&
      decide (1 < s.countStakeSeen pblock.getProofOfStake) && s.countOrphansByPrev hash == 0 then
    .refused
  else if a.tip.any fun tip => pblock.hashPrevBlock != tip.1 && decide (pblock.nTime < tip.2) then
    .refused
  else if !env.checkCanonicalBlockSignature pblock then .refused
  else if (s.mapBlockIndex pblock.hashPrevBlock).isNone then
    if a.pfrom then
      if pblock.isProofOfStake && decide (pblock.getProofOfStake ∈ s.setStakeSeenOrphan) &&
          s.countOrphansByPrev hash == 0 then .refused
      else .orphan
    else .passedOver
  else .process

/-! ## Pruning -/

def eraseOrphan (orphan : COrphanBlock) : NetState :=
  { s with
    setStakeSeenOrphan := s.setStakeSeenOrphan.erase orphan.stake
    nOrphanBlocksSize := s.nOrphanBlocksSize - orphan.size
    mapOrphanBlocksByPrev := s.mapOrphanBlocksByPrev.erase orphan
    mapOrphanBlocks := s.mapOrphanBlocks.erase orphan.hashBlock }

def lastSuccessor (held : List COrphanBlock) : Nat → COrphanBlock → Option COrphanBlock
  | 0, _ => none
  | steps + 1, it =>
    match held.find? fun orphan => decide (orphan.hashPrev = it.hashBlock) with
    | none => some it
    | some it2 => lastSuccessor held steps it2

def drawOrphan (randomhash : H256) : Option COrphanBlock :=
  (s.mapOrphanBlocksByPrev.find? fun orphan => decide (randomhash ≤ orphan.hashPrev)).or
    s.mapOrphanBlocksByPrev.head?

def prunable (randomhash : H256) : Option COrphanBlock :=
  (s.drawOrphan randomhash).bind
    (lastSuccessor s.mapOrphanBlocksByPrev s.mapOrphanBlocksByPrev.length)

/-- `PruneOrphanBlocks`, for at most as many rounds as given, with `none` where a round would read
past the end of the orphans or not return. -/
def pruneOrphanBlocks (getRandHash : Nat → H256) : Nat → NetState → Option NetState
  | 0, s => if env.nMaxOrphanBlocksSize < s.nOrphanBlocksSize then none else some s
  | rounds + 1, s =>
    if env.nMaxOrphanBlocksSize < s.nOrphanBlocksSize then
      (s.prunable (getRandHash rounds)).bind fun orphan =>
        pruneOrphanBlocks getRandHash rounds (s.eraseOrphan orphan)
    else some s

/-! ## Holding and releasing -/

def insertOrphan (pblock : CBlock) : NetState :=
  let orphan := COrphanBlock.ofBlock env pblock
  { s with
    nOrphanBlocksSize := s.nOrphanBlocksSize + orphan.size
    mapOrphanBlocks := s.mapOrphanBlocks.insert orphan.hashBlock orphan
    mapOrphanBlocksByPrev :=
      (s.mapOrphanBlocksByPrev.takeWhile fun other => decide (other.hashPrev ≤ orphan.hashPrev)) ++
        orphan :: s.mapOrphanBlocksByPrev.dropWhile fun other =>
          decide (other.hashPrev ≤ orphan.hashPrev)
    setStakeSeenOrphan := if pblock.isProofOfStake then
      insert pblock.getProofOfStake s.setStakeSeenOrphan else s.setStakeSeenOrphan }

def processNewBlock (a : BlockArrival) (block : CBlock) : NetState × Bool :=
  let verdict := a.processNewBlock s block
  (if verdict.1 then s.addToBlockIndex env block.toCBlockHeader else s, verdict.2)

def rereadBlock (orphan : COrphanBlock) : CBlock :=
  { orphan.block with
    hashMerkleRoot := (blockMerkleRoot env.computeHash env.pairHash orphan.block.vtx).1 }

def releaseOrphan (a : BlockArrival) (work : NetState × List H256) (orphan : COrphanBlock) :
    NetState × List H256 :=
  let block := rereadBlock env orphan
  let (s, accepted) := work.1.processNewBlock env a block
  ({ s with
      mapOrphanBlocks := s.mapOrphanBlocks.erase orphan.hashBlock
      setStakeSeenOrphan := s.setStakeSeenOrphan.erase block.getProofOfStake
      nOrphanBlocksSize := s.nOrphanBlocksSize - orphan.size },
    if accepted then work.2 ++ [orphan.hashBlock] else work.2)

def orphansOf (hashPrev : H256) : List COrphanBlock :=
  s.mapOrphanBlocksByPrev.filter fun orphan => decide (orphan.hashPrev = hashPrev)

def releaseChildren (a : BlockArrival) (hashPrev : H256) (queue : List H256) :
    NetState × List H256 :=
  let work := (s.orphansOf hashPrev).foldl (releaseOrphan env a) (s, queue)
  ({ work.1 with
      mapOrphanBlocksByPrev := work.1.mapOrphanBlocksByPrev.filter fun orphan =>
        decide (orphan.hashPrev ≠ hashPrev) }, work.2)

def releaseAll (a : BlockArrival) : Nat → NetState → List H256 → Option NetState
  | _, s, [] => some s
  | 0, _, _ :: _ => none
  | rounds + 1, s, hashPrev :: queue =>
    let work := s.releaseChildren env a hashPrev queue
    releaseAll a rounds work.1 work.2

/-- `ProcessNetBlock`. -/
def processNetBlock (a : BlockArrival) : Option (NetState × Bool) :=
  match s.admission env a with
  | .refused => some (s, false)
  | .passedOver => some (s, true)
  | .orphan =>
    (pruneOrphanBlocks env a.getRandHash s.mapOrphanBlocksByPrev.length s).map fun s =>
      (s.insertOrphan env a.pblock, true)
  | .process =>
    let (s, accepted) := s.processNewBlock env a a.pblock
    if accepted then
      (releaseAll env a (s.mapOrphanBlocksByPrev.length + 1) s
        [env.getHash a.pblock.toCBlockHeader]).map fun s => (s, true)
    else some (s, false)

end NetState

inductive NetEvent
  | header (received : CBlockHeader)
  | block (arrival : BlockArrival)

def NetEvent.perform (env : NetEnv) (s : NetState) : NetEvent → Option NetState
  | header received => some (s.addToBlockIndex env received)
  | block arrival => (s.processNetBlock env arrival).map Prod.fst

def NetState.run (env : NetEnv) (s : NetState) (events : List NetEvent) : Option NetState :=
  events.foldlM (NetEvent.perform env) s

/-! ## What one removal does -/

namespace NetState

variable {env : NetEnv} {s s' : NetState} {held : Finset COrphanBlock} {orphan : COrphanBlock}

/-- These orphans are the ones in the hash map and in the size, and the set of proofs has none
but theirs. -/
structure KeptFor (env : NetEnv) (held : Finset COrphanBlock) (s : NetState) : Prop where
  find : ∀ hash orphan, s.mapOrphanBlocks.find? hash = some orphan ↔
    orphan ∈ held ∧ orphan.hashBlock = hash
  size : s.nOrphanBlocksSize = ∑ orphan ∈ held, orphan.size
  stakes : ∀ proof ∈ s.setStakeSeenOrphan,
    ∃ orphan ∈ held, orphan.block.isProofOfStake = true ∧ orphan.stake = proof
  made : ∀ orphan ∈ held, orphan = .ofBlock env orphan.block

/-- The set of proofs has those of all staked orphans, and no two of them share one. -/
structure ExactFor (held : Finset COrphanBlock) (s : NetState) : Prop where
  seen : ∀ orphan ∈ held, orphan.block.isProofOfStake = true →
    orphan.stake ∈ s.setStakeSeenOrphan
  unshared : ∀ left ∈ held, ∀ right ∈ held, left.block.isProofOfStake = true →
    right.block.isProofOfStake = true → left.stake = right.stake → left = right

def forget (s : NetState) (orphan : COrphanBlock) : NetState :=
  { s with
    setStakeSeenOrphan := s.setStakeSeenOrphan.erase orphan.stake
    nOrphanBlocksSize := s.nOrphanBlocksSize - orphan.size
    mapOrphanBlocks := s.mapOrphanBlocks.erase orphan.hashBlock }

theorem KeptFor.forget (kept : KeptFor env held s) (member : orphan ∈ held) :
    KeptFor env (held.erase orphan) (s.forget orphan) where
  find hash other := by
    change (s.mapOrphanBlocks.erase orphan.hashBlock).find? hash = some other ↔ _
    rw [find?_erase]
    have alone : orphan = other ↔ other ∈ held ∧ other.hashBlock = orphan.hashBlock := by
      rw [← kept.find, (kept.find _ orphan).2 ⟨member, rfl⟩, some.injEq]
    by_cases same : hash = orphan.hashBlock
    · rw [if_pos same, mem_erase, same]
      constructor
      · intro found
        cases found
      · rintro ⟨⟨different, inside⟩, hashes⟩
        exact absurd (alone.2 ⟨inside, hashes⟩).symm different
    · rw [if_neg same, kept.find, mem_erase]
      constructor
      · rintro ⟨inside, rfl⟩
        exact ⟨⟨fun equal => same (congrArg COrphanBlock.hashBlock equal), inside⟩, rfl⟩
      · exact fun found => ⟨found.1.2, found.2⟩
  size := by
    change s.nOrphanBlocksSize - orphan.size = _
    rw [kept.size, ← add_sum_erase held COrphanBlock.size member, Nat.add_sub_cancel_left]
  stakes proof inside := by
    obtain ⟨different, before⟩ := mem_erase.1 inside
    obtain ⟨other, otherHeld, staked, proves⟩ := kept.stakes proof before
    refine ⟨other, mem_erase.2 ⟨?_, otherHeld⟩, staked, proves⟩
    rintro rfl
    exact different proves.symm
  made other inside := kept.made other (mem_of_mem_erase inside)

theorem ExactFor.forget (exact : ExactFor held s) (kept : KeptFor env held s)
    (member : orphan ∈ held) : ExactFor (held.erase orphan) (s.forget orphan) where
  seen other inside staked := by
    obtain ⟨different, otherHeld⟩ := mem_erase.1 inside
    refine mem_erase.2 ⟨fun shared => ?_, exact.seen other otherHeld staked⟩
    -- an orphan with work has the null proof, which no staked one has
    cases worked : orphan.block.isProofOfStake with
    | true => exact different (exact.unshared other otherHeld orphan member staked worked shared)
    | false =>
      rw [kept.made other otherHeld, kept.made orphan member] at shared
      exact CBlockHeader.getProofOfStake_ne staked worked shared
  unshared left leftHeld right rightHeld :=
    exact.unshared left (mem_of_mem_erase leftHeld) right (mem_of_mem_erase rightHeld)

/-! ## What the loops keep -/

/-- A property of a node and the orphans it holds that indexing a header and removing an orphan
keep, and that does not look at the multimap. -/
structure Stable (env : NetEnv) (Q : Finset COrphanBlock → NetState → Prop) : Prop where
  byPrev : ∀ {held s} orphans, Q held s → Q held { s with mapOrphanBlocksByPrev := orphans }
  indexed : ∀ {held s} header, Q held s → Q held (s.addToBlockIndex env header)
  forget : ∀ {held s orphan}, KeptFor env held s → Q held s → orphan ∈ held →
    Q (held.erase orphan) (s.forget orphan)

theorem stable_kept : Stable env (KeptFor env) where
  byPrev _ kept := ⟨kept.find, kept.size, kept.stakes, kept.made⟩
  indexed header kept := by
    unfold addToBlockIndex
    dsimp only
    split
    · exact kept
    · exact ⟨kept.find, kept.size, kept.stakes, kept.made⟩
  forget kept _ member := kept.forget member

/-- Both maps hold the same orphans, with their sizes, and a further property holds of them. -/
structure Holds (env : NetEnv) (Q : Finset COrphanBlock → NetState → Prop) (s : NetState) :
    Prop where
  nodup : s.mapOrphanBlocksByPrev.Nodup
  kept : KeptFor env s.mapOrphanBlocksByPrev.toFinset s
  further : Q s.mapOrphanBlocksByPrev.toFinset s

variable {Q : Finset COrphanBlock → NetState → Prop}

theorem Stable.processNewBlock (stable : Stable env Q) (a : BlockArrival) (block : CBlock)
    (further : Q held s) : Q held (s.processNewBlock env a block).1 := by
  unfold NetState.processNewBlock
  dsimp only
  split
  · exact stable.indexed _ further
  · exact further

theorem byPrev_addToBlockIndex (header : CBlockHeader) :
    (s.addToBlockIndex env header).mapOrphanBlocksByPrev = s.mapOrphanBlocksByPrev := by
  unfold addToBlockIndex
  dsimp only
  split <;> rfl

theorem byPrev_processNewBlock (a : BlockArrival) (block : CBlock) :
    (s.processNewBlock env a block).1.mapOrphanBlocksByPrev = s.mapOrphanBlocksByPrev := by
  unfold processNewBlock
  dsimp only
  split
  · exact byPrev_addToBlockIndex _
  · rfl

theorem Holds.addToBlockIndex (stable : Stable env Q) (header : CBlockHeader)
    (holds : s.Holds env Q) : (s.addToBlockIndex env header).Holds env Q := by
  refine ⟨?_, ?_, ?_⟩ <;> rw [byPrev_addToBlockIndex]
  · exact holds.nodup
  · exact stable_kept.indexed header holds.kept
  · exact stable.indexed header holds.further

theorem Holds.processNewBlock (stable : Stable env Q) (a : BlockArrival) (block : CBlock)
    (holds : s.Holds env Q) : (s.processNewBlock env a block).1.Holds env Q := by
  refine ⟨?_, ?_, ?_⟩ <;> rw [byPrev_processNewBlock]
  · exact holds.nodup
  · exact stable_kept.processNewBlock a block holds.kept
  · exact stable.processNewBlock a block holds.further

theorem Holds.eraseOrphan (stable : Stable env Q) (holds : s.Holds env Q)
    (member : orphan ∈ s.mapOrphanBlocksByPrev) : (s.eraseOrphan orphan).Holds env Q := by
  have inside : orphan ∈ s.mapOrphanBlocksByPrev.toFinset := List.mem_toFinset.2 member
  have rest : (s.eraseOrphan orphan).mapOrphanBlocksByPrev.toFinset =
      s.mapOrphanBlocksByPrev.toFinset.erase orphan := by
    ext other
    rw [List.mem_toFinset, mem_erase, List.mem_toFinset]
    exact holds.nodup.mem_erase_iff
  refine ⟨holds.nodup.erase _, ?_, ?_⟩ <;> rw [rest]
  · exact stable_kept.byPrev _ (holds.kept.forget inside)
  · exact stable.byPrev _ (stable.forget holds.kept holds.further inside)

variable {orphans : List COrphanBlock} {steps rounds : Nat} {randomhash : H256} {a : BlockArrival}
  {queue : List H256} {pblock : CBlock}

theorem mem_of_lastSuccessor {it last : COrphanBlock} (member : it ∈ orphans)
    (found : lastSuccessor orphans steps it = some last) :
    last ∈ orphans := by
  induction steps generalizing it with
  | zero => cases found
  | succ steps ih =>
    rw [lastSuccessor] at found
    split at found
    · cases found
      exact member
    · rename_i it2 next
      exact ih (List.mem_of_find?_eq_some next) found

theorem mem_of_drawOrphan (drawn : s.drawOrphan randomhash = some orphan) :
    orphan ∈ s.mapOrphanBlocksByPrev := by
  rcases or_eq_some_iff.1 drawn with found | ⟨_, first⟩
  · exact List.mem_of_find?_eq_some found
  · exact List.mem_of_mem_head? first

theorem mem_of_prunable (found : s.prunable randomhash = some orphan) :
    orphan ∈ s.mapOrphanBlocksByPrev := by
  obtain ⟨it, drawn, walked⟩ := bind_eq_some_iff.1 found
  exact mem_of_lastSuccessor (mem_of_drawOrphan drawn) walked

theorem Holds.prune (stable : Stable env Q) {getRandHash : Nat → H256} (holds : s.Holds env Q)
    (pruned : pruneOrphanBlocks env getRandHash rounds s = some s') :
    s'.Holds env Q := by
  induction rounds generalizing s with
  | zero =>
    rw [pruneOrphanBlocks] at pruned
    split at pruned
    · cases pruned
    · cases pruned
      exact holds
  | succ rounds ih =>
    rw [pruneOrphanBlocks] at pruned
    split at pruned
    · obtain ⟨orphan, found, later⟩ := bind_eq_some_iff.1 pruned
      exact ih (holds.eraseOrphan stable (mem_of_prunable found)) later
    · cases pruned
      exact holds

theorem releaseOrphan_fst (a : BlockArrival) (work : NetState × List H256)
    (made : orphan = .ofBlock env orphan.block) :
    (releaseOrphan env a work orphan).1 =
      (work.1.processNewBlock env a (rereadBlock env orphan)).1.forget orphan := by
  have proof : orphan.stake = orphan.block.getProofOfStake := congrArg COrphanBlock.stake made
  rw [forget, proof]
  rfl

theorem byPrev_releaseOrphan (a : BlockArrival) (work : NetState × List H256) :
    (releaseOrphan env a work orphan).1.mapOrphanBlocksByPrev = work.1.mapOrphanBlocksByPrev :=
  byPrev_processNewBlock a _

theorem byPrev_release (a : BlockArrival) (orphans : List COrphanBlock)
    (work : NetState × List H256) :
    (orphans.foldl (releaseOrphan env a) work).1.mapOrphanBlocksByPrev =
      work.1.mapOrphanBlocksByPrev :=
  List.foldlRecOn (motive := fun after : NetState × List H256 =>
      after.1.mapOrphanBlocksByPrev = work.1.mapOrphanBlocksByPrev)
    orphans _ rfl fun _ same _ _ => (byPrev_releaseOrphan a _).trans same

theorem kept_release (stable : Stable env Q) (a : BlockArrival) (nodup : orphans.Nodup)
    (queue : List H256) (inside : ∀ orphan ∈ orphans, orphan ∈ held) (kept : KeptFor env held s)
    (further : Q held s) :
    KeptFor env (held \ orphans.toFinset) (orphans.foldl (releaseOrphan env a) (s, queue)).1 ∧
      Q (held \ orphans.toFinset) (orphans.foldl (releaseOrphan env a) (s, queue)).1 := by
  induction orphans generalizing held s queue with
  | nil => simpa using ⟨kept, further⟩
  | cons orphan rest ih =>
    obtain ⟨fresh, restNodup⟩ := List.nodup_cons.1 nodup
    have member : orphan ∈ held := inside orphan List.mem_cons_self
    have next := releaseOrphan_fst a (s, queue) (kept.made orphan member)
    have kept' := stable_kept.processNewBlock a (rereadBlock env orphan) kept
    have further' := stable.processNewBlock a (rereadBlock env orphan) further
    have split : held \ (orphan :: rest).toFinset = held.erase orphan \ rest.toFinset := by
      rw [List.toFinset_cons, erase_eq, insert_eq, sdiff_sdiff_left]
      rfl
    rw [split, List.foldl_cons]
    generalize releaseOrphan env a (s, queue) orphan = work at next ⊢
    obtain ⟨s₁, queue₁⟩ := work
    cases next
    refine ih restNodup queue₁ (fun other later => ?_) (kept'.forget member)
      (stable.forget kept' further' member)
    refine mem_erase.2 ⟨?_, inside other (List.mem_cons_of_mem _ later)⟩
    rintro rfl
    exact fresh later

theorem byPrev_releaseChildren (a : BlockArrival) (hashPrev : H256) (queue : List H256) :
    (s.releaseChildren env a hashPrev queue).1.mapOrphanBlocksByPrev =
      s.mapOrphanBlocksByPrev.filter fun orphan => decide (orphan.hashPrev ≠ hashPrev) := by
  unfold releaseChildren
  dsimp only
  rw [byPrev_release]

theorem Holds.releaseChildren (stable : Stable env Q) (holds : s.Holds env Q) (a : BlockArrival)
    (hashPrev : H256) (queue : List H256) :
    (s.releaseChildren env a hashPrev queue).1.Holds env Q := by
  have nodup : (s.orphansOf hashPrev).Nodup := holds.nodup.filter _
  have inside : ∀ orphan ∈ s.orphansOf hashPrev, orphan ∈ s.mapOrphanBlocksByPrev.toFinset :=
    fun orphan member => List.mem_toFinset.2 (List.mem_of_mem_filter member)
  obtain ⟨kept, further⟩ := kept_release stable a nodup queue inside holds.kept
    holds.further
  have rest : (s.releaseChildren env a hashPrev queue).1.mapOrphanBlocksByPrev.toFinset =
      s.mapOrphanBlocksByPrev.toFinset \ (s.orphansOf hashPrev).toFinset := by
    ext orphan
    simp only [byPrev_releaseChildren, orphansOf, List.mem_toFinset, List.mem_filter,
      mem_sdiff, decide_eq_true_eq]
    tauto
  refine ⟨?_, ?_, ?_⟩
  · rw [byPrev_releaseChildren]
    exact holds.nodup.filter _
  · rw [rest]
    exact stable_kept.byPrev _ kept
  · rw [rest]
    exact stable.byPrev _ further

theorem Holds.releaseAll (stable : Stable env Q) (holds : s.Holds env Q)
    (released : NetState.releaseAll env a rounds s queue = some s') : s'.Holds env Q := by
  induction rounds generalizing s queue with
  | zero =>
    cases queue with
    | nil =>
      cases released
      exact holds
    | cons hashPrev queue => cases released
  | succ rounds ih =>
    cases queue with
    | nil =>
      cases released
      exact holds
    | cons hashPrev queue => exact ih (holds.releaseChildren stable a hashPrev queue) released

/-! ## What is held after a call -/

theorem byPrev_insertOrphan (pblock : CBlock) :
    (s.insertOrphan env pblock).mapOrphanBlocksByPrev.Perm
      (.ofBlock env pblock :: s.mapOrphanBlocksByPrev) := by
  refine List.perm_middle.trans ?_
  rw [List.takeWhile_append_dropWhile]

theorem KeptFor.insert (kept : KeptFor env held s)
    (fresh : s.mapOrphanBlocks.find? (env.getHash pblock.toCBlockHeader) = none) :
    KeptFor env (insert (.ofBlock env pblock) held) (s.insertOrphan env pblock) where
  find hash other := by
    change (s.mapOrphanBlocks.insert _ _).find? hash = some other ↔ _
    rw [find?_insert, mem_insert]
    split
    · rename_i same
      constructor
      · rintro ⟨⟩
        exact ⟨Or.inl rfl, same.symm⟩
      · rintro ⟨rfl | inside, hashes⟩
        · rfl
        · have found := (kept.find hash other).2 ⟨inside, hashes⟩
          rw [same] at found
          cases fresh.symm.trans found
    · rename_i different
      rw [kept.find]
      constructor
      · exact fun found => ⟨Or.inr found.1, found.2⟩
      · rintro ⟨rfl | inside, hashes⟩
        · exact absurd hashes.symm different
        · exact ⟨inside, hashes⟩
  size := by
    have new : COrphanBlock.ofBlock env pblock ∉ held := by
      intro inside
      cases fresh.symm.trans ((kept.find _ _).2 ⟨inside, rfl⟩)
    rw [sum_insert new, ← kept.size]
    exact Nat.add_comm _ _
  stakes proof inside := by
    have known : proof ∈ s.setStakeSeenOrphan ∨
        pblock.isProofOfStake ∧ pblock.getProofOfStake = proof := by
      change proof ∈ (if pblock.isProofOfStake then _ else _) at inside
      split at inside
      · rename_i staked
        rcases mem_insert.1 inside with rfl | before
        · exact Or.inr ⟨staked, rfl⟩
        · exact Or.inl before
      · exact Or.inl inside
    rcases known with before | ⟨staked, proves⟩
    · obtain ⟨other, otherHeld, found⟩ := kept.stakes proof before
      exact ⟨other, mem_insert_of_mem otherHeld, found⟩
    · exact ⟨.ofBlock env pblock, mem_insert_self _ _, staked, proves⟩
  made other inside := by
    rcases mem_insert.1 inside with rfl | before
    · rfl
    · exact kept.made other before

theorem ExactFor.insert (exact : ExactFor held s)
    (unseen : pblock.isProofOfStake → pblock.getProofOfStake ∉ s.setStakeSeenOrphan) :
    ExactFor (insert (.ofBlock env pblock) held) (s.insertOrphan env pblock) where
  seen other inside staked := by
    change other.stake ∈ (if pblock.isProofOfStake then _ else _)
    rcases mem_insert.1 inside with rfl | before
    · rw [if_pos (show pblock.isProofOfStake = true from staked)]
      exact mem_insert_self _ _
    · have known := exact.seen other before staked
      split
      · exact mem_insert_of_mem known
      · exact known
  unshared left leftHeld right rightHeld leftStaked rightStaked same := by
    rcases mem_insert.1 leftHeld with rfl | leftBefore <;>
      rcases mem_insert.1 rightHeld with rfl | rightBefore
    · rfl
    · have known := exact.seen right rightBefore rightStaked
      rw [← same] at known
      exact absurd known (unseen leftStaked)
    · have known := exact.seen left leftBefore leftStaked
      rw [same] at known
      exact absurd known (unseen rightStaked)
    · exact exact.unshared left leftBefore right rightBefore leftStaked rightStaked same

theorem Holds.insertOrphan (holds : s.Holds env Q)
    (fresh : s.mapOrphanBlocks.find? (env.getHash pblock.toCBlockHeader) = none)
    (further : Q (insert (.ofBlock env pblock) s.mapOrphanBlocksByPrev.toFinset)
      (s.insertOrphan env pblock)) : (s.insertOrphan env pblock).Holds env Q := by
  have perm : (s.insertOrphan env pblock).mapOrphanBlocksByPrev.Perm
      (.ofBlock env pblock :: s.mapOrphanBlocksByPrev) := byPrev_insertOrphan pblock
  have all : (s.insertOrphan env pblock).mapOrphanBlocksByPrev.toFinset =
      insert (.ofBlock env pblock) s.mapOrphanBlocksByPrev.toFinset := by
    rw [List.toFinset_eq_of_perm _ _ perm, List.toFinset_cons]
  refine ⟨perm.nodup_iff.2 (List.nodup_cons.2 ⟨fun inside => ?_, holds.nodup⟩), ?_, ?_⟩
  · cases fresh.symm.trans ((holds.kept.find _ _).2 ⟨List.mem_toFinset.2 inside, rfl⟩)
  · rw [all]
    exact holds.kept.insert fresh
  · rw [all]
    exact further

theorem Stable.absent (stable : Stable env Q) (hash : H256) (proofs : Set StakeProof) :
    Stable env fun held s => Q held s ∧ s.mapOrphanBlocks.find? hash = none ∧
      ∀ proof ∈ proofs, proof ∉ s.setStakeSeenOrphan where
  byPrev orphans given := ⟨stable.byPrev orphans given.1, given.2⟩
  indexed header given := by
    refine ⟨stable.indexed header given.1, ?_⟩
    unfold addToBlockIndex
    dsimp only
    split <;> exact given.2
  forget kept := by
    rintro ⟨further, absent, unseen⟩ member
    refine ⟨stable.forget kept further member, ?_, fun proof one inside => ?_⟩
    · unfold NetState.forget
      rw [find?_erase, absent, ite_self]
    · exact unseen proof one (mem_of_mem_erase inside)

/-- The checks of `ProcessNetBlock` on a block with a known parent that are not about a repeated
proof of stake. -/
structure PassesOtherChecks (env : NetEnv) (s : NetState) (a : BlockArrival) : Prop where
  coinstake : a.pblock.isProofOfStake = true →
    a.pblock.vtx[1]?.any CTransaction.isCoinStake = true
  absent : s.mapOrphanBlocks.find? (env.getHash a.pblock.toCBlockHeader) = none
  recent : ∀ tip ∈ a.tip, a.pblock.hashPrevBlock ≠ tip.1 → tip.2 ≤ a.pblock.nTime
  signature : env.checkCanonicalBlockSignature a.pblock = true
  parent : (s.mapBlockIndex a.pblock.hashPrevBlock).isSome = true

theorem countStakeSeen_le_one (proof : StakeProof) : s.countStakeSeen proof ≤ 1 := by
  unfold countStakeSeen
  split <;> omega

theorem admission_eq_process_iff (a : BlockArrival) :
    s.admission env a = .process ↔ s.PassesOtherChecks env a := by
  have never : decide (1 < s.countStakeSeen a.pblock.getProofOfStake) = false :=
    decide_eq_false (Nat.not_lt.2 (countStakeSeen_le_one _))
  have late (tip : H256 × UInt32) : (a.pblock.hashPrevBlock != tip.1 &&
      decide (a.pblock.nTime < tip.2)) = false ↔
        (a.pblock.hashPrevBlock ≠ tip.1 → tip.2 ≤ a.pblock.nTime) := by
    simp
  constructor
  · intro passed
    unfold admission contains at passed
    dsimp only at passed
    split_ifs at passed with unstaked orphaned repeated early unsigned unknown
    refine ⟨fun staked => ?_, by simpa using orphaned, fun tip chosen => ?_, by simpa using unsigned,
      by simpa [isSome_iff_ne_none] using unknown⟩
    · simpa [staked] using unstaked
    · rw [mem_def.1 chosen, any_some, Bool.not_eq_true] at early
      exact (late tip).1 early
  · rintro ⟨coinstake, absent, recent, signature, parent⟩
    have timely : (a.tip.any fun tip => a.pblock.hashPrevBlock != tip.1 &&
        decide (a.pblock.nTime < tip.2)) = false := by
      cases chosen : a.tip with
      | none => rfl
      | some tip => exact (late tip).2 (recent tip chosen)
    have known : (s.mapBlockIndex a.pblock.hashPrevBlock).isNone = false := by
      rw [isNone_eq_false_iff]
      exact parent
    simpa [admission, contains, absent, never, timely, signature, known] using coinstake

theorem absent_of_orphan (held : s.admission env a = .orphan) :
    s.mapOrphanBlocks.find? (env.getHash a.pblock.toCBlockHeader) = none := by
  unfold admission contains at held
  by_contra present
  rw [← ne_eq, ne_none_iff_isSome] at present
  simp [present] at held

theorem Holds.processNetBlock (stable : Stable env Q) {ok : Bool} (holds : s.Holds env Q)
    (inserted : s.admission env a = .orphan → ∀ s₁ : NetState,
      (s₁.Holds env fun held s₁ => Q held s₁ ∧
        s₁.mapOrphanBlocks.find? (env.getHash a.pblock.toCBlockHeader) = none ∧
        ∀ proof ∉ s.setStakeSeenOrphan, proof ∉ s₁.setStakeSeenOrphan) →
      Q (insert (.ofBlock env a.pblock) s₁.mapOrphanBlocksByPrev.toFinset)
        (s₁.insertOrphan env a.pblock)) (done : s.processNetBlock env a = some (s', ok)) :
    s'.Holds env Q := by
  unfold NetState.processNetBlock at done
  cases decided : s.admission env a with
  | refused | passedOver =>
    rw [decided] at done
    cases done
    exact holds
  | orphan =>
    rw [decided] at done
    obtain ⟨s₁, pruned, same⟩ := map_eq_some_iff.1 done
    cases same
    have start : s.Holds env fun held s₁ => Q held s₁ ∧
        s₁.mapOrphanBlocks.find? (env.getHash a.pblock.toCBlockHeader) = none ∧
        ∀ proof ∈ {proof | proof ∉ s.setStakeSeenOrphan}, proof ∉ s₁.setStakeSeenOrphan :=
      ⟨holds.nodup, holds.kept, holds.further, absent_of_orphan decided, fun _ unseen => unseen⟩
    have after := start.prune (stable.absent _ _) pruned
    exact Holds.insertOrphan ⟨after.nodup, after.kept, after.further.1⟩ after.further.2.1
      (inserted decided s₁ after)
  | process =>
    rw [decided] at done
    have next := holds.processNewBlock stable a a.pblock
    dsimp only at done
    split at done
    · obtain ⟨s₁, released, same⟩ := map_eq_some_iff.1 done
      cases same
      exact next.releaseAll stable released
    · cases done
      exact next

/-! ## Whole runs -/

/-- The proofs that were seen are those of the indexed staked headers, each under its hash. -/
structure StakesIndexed (env : NetEnv) (s : NetState) : Prop where
  hashed : ∀ hash header, s.mapBlockIndex hash = some header → env.getHash header = hash
  seen : ∀ proof, proof ∈ s.setStakeSeen ↔ ∃ hash header, s.mapBlockIndex hash = some header ∧
    header.isProofOfStake = true ∧ header.getProofOfStake = proof

theorem StakesIndexed.congr (indexed : s.StakesIndexed env)
    (index : s'.mapBlockIndex = s.mapBlockIndex) (stakes : s'.setStakeSeen = s.setStakeSeen) :
    s'.StakesIndexed env where
  hashed := by
    rw [index]
    exact indexed.hashed
  seen := by
    rw [index, stakes]
    exact indexed.seen

theorem addToBlockIndex_of_absent {header : CBlockHeader}
    (absent : s.mapBlockIndex (env.getHash header) = none) :
    (∀ hash other, (s.addToBlockIndex env header).mapBlockIndex hash = some other ↔
      hash = env.getHash header ∧ header = other ∨ s.mapBlockIndex hash = some other) ∧
    ∀ proof, proof ∈ (s.addToBlockIndex env header).setStakeSeen ↔
      header.isProofOfStake ∧ header.getProofOfStake = proof ∨
        proof ∈ s.setStakeSeen := by
  unfold addToBlockIndex CBlockHeader.getProofOfStake
  simp only [absent, isSome_none, Bool.false_eq_true, if_false, Function.update_apply]
  refine ⟨fun hash other => ?_, fun proof => ?_⟩
  · by_cases same : hash = env.getHash header <;> simp [same, absent]
  · cases header.isProofOfStake <;> simp [eq_comm]

theorem StakesIndexed.addToBlockIndex (indexed : s.StakesIndexed env) (header : CBlockHeader) :
    (s.addToBlockIndex env header).StakesIndexed env := by
  cases known : s.mapBlockIndex (env.getHash header) with
  | some other =>
    unfold NetState.addToBlockIndex
    dsimp only
    rw [known]
    exact indexed
  | none =>
    obtain ⟨index, stakes⟩ := addToBlockIndex_of_absent known
    refine ⟨fun hash other found => ?_, fun proof => ?_⟩
    · rcases (index hash other).1 found with ⟨rfl, rfl⟩ | before
      · rfl
      · exact indexed.hashed hash other before
    · rw [stakes, indexed.seen]
      simp only [index]
      constructor
      · rintro (⟨staked, proves⟩ | ⟨hash, other, before, found⟩)
        · exact ⟨_, header, Or.inl ⟨rfl, rfl⟩, staked, proves⟩
        · exact ⟨hash, other, Or.inr before, found⟩
      · rintro ⟨hash, other, ⟨-, rfl⟩ | before, found⟩
        · exact Or.inl found
        · exact Or.inr ⟨hash, other, before, found⟩

/-- What holds over every history: the proofs of indexed headers have been seen, and on a condition
the proofs of orphans are exact. -/
def Recorded (env : NetEnv) (once : Prop) (held : Finset COrphanBlock) (s : NetState) : Prop :=
  s.StakesIndexed env ∧ (once → ExactFor held s)

theorem stable_recorded (once : Prop) : Stable env (Recorded env once) where
  byPrev _ given := ⟨given.1.congr rfl rfl, fun one => ⟨(given.2 one).seen, (given.2 one).unshared⟩⟩
  indexed header given := by
    refine ⟨given.1.addToBlockIndex header, fun one => ⟨?_, (given.2 one).unshared⟩⟩
    unfold addToBlockIndex
    dsimp only
    split <;> exact (given.2 one).seen
  forget kept given member := ⟨given.1.congr rfl rfl, fun one => (given.2 one).forget kept member⟩

/-- A staked block is held although its proof is that of an orphan. -/
def RepeatsProof (env : NetEnv) (s : NetState) : NetEvent → Prop
  | .header _ => False
  | .block a => s.admission env a = .orphan ∧ a.pblock.isProofOfStake = true ∧
      a.pblock.getProofOfStake ∈ s.setStakeSeenOrphan

theorem Holds.perform {once : Prop} {event : NetEvent} (holds : s.Holds env (Recorded env once))
    (fresh : once → ¬ s.RepeatsProof env event) (done : event.perform env s = some s') :
    s'.Holds env (Recorded env once) := by
  cases event with
  | header received =>
    cases done
    exact holds.addToBlockIndex (stable_recorded once) received
  | block a =>
    obtain ⟨⟨s₂, ok⟩, processed, same⟩ := map_eq_some_iff.1 done
    cases same
    refine holds.processNetBlock (stable_recorded once) (fun decided s₁ after => ?_) processed
    obtain ⟨⟨indexed, exact⟩, -, unseen⟩ := after.further
    refine ⟨indexed.congr rfl rfl, fun one => ?_⟩
    exact (exact one).insert fun staked => unseen _ fun seen => fresh one ⟨decided, staked, seen⟩

/-- No event of the run holds a staked block whose proof is that of an orphan. -/
def ProofsOnce (env : NetEnv) : NetState → List NetEvent → Prop
  | _, [] => True
  | s, event :: rest => ¬ s.RepeatsProof env event ∧
      ∀ s', event.perform env s = some s' → ProofsOnce env s' rest

theorem Holds.run {once : Prop} {events : List NetEvent}
    (holds : s.Holds env (Recorded env once)) (fresh : once → ProofsOnce env s events)
    (reached : s.run env events = some s') : s'.Holds env (Recorded env once) := by
  induction events generalizing s with
  | nil =>
    cases reached
    exact holds
  | cons event rest ih =>
    obtain ⟨middle, done, later⟩ := bind_eq_some_iff.1 reached
    exact ih (holds.perform (fun given => (fresh given).1) done)
      (fun given => (fresh given).2 middle done) later

/-- A node that has loaded its index: no orphans are held. -/
structure Started (env : NetEnv) (s : NetState) : Prop where
  byHash : s.mapOrphanBlocks = .empty
  byPrev : s.mapOrphanBlocksByPrev = []
  size : s.nOrphanBlocksSize = 0
  stakes : s.setStakeSeenOrphan = ∅
  indexed : s.StakesIndexed env

theorem Started.holds (start : s.Started env) (once : Prop) : s.Holds env (Recorded env once) := by
  obtain ⟨byHash, byPrev, size, stakes, indexed⟩ := start
  refine ⟨?_, ⟨fun hash orphan => ?_, ?_, ?_, ?_⟩, indexed, fun _ => ⟨?_, ?_⟩⟩ <;>
    simp [byHash, byPrev, size, stakes]

/-! ## The loops return -/

def Acyclic (env : NetEnv) : Prop :=
  ∃ rank : H256 → Nat, ∀ header : CBlockHeader,
    rank header.hashPrevBlock < rank (env.getHash header)

theorem isSome_lastSuccessor {rank : H256 → Nat}
    (acyclic : ∀ header : CBlockHeader, rank header.hashPrevBlock < rank (env.getHash header))
    (made : ∀ orphan ∈ orphans, orphan = .ofBlock env orphan.block) {it : COrphanBlock}
    (member : it ∈ orphans) (enough : (orphans.toFinset.filter fun orphan =>
      rank it.hashBlock ≤ rank orphan.hashBlock).card ≤ steps) :
    (lastSuccessor orphans steps it).isSome := by
  have counted : it ∈ orphans.toFinset.filter fun orphan =>
      rank it.hashBlock ≤ rank orphan.hashBlock :=
    mem_filter.2 ⟨List.mem_toFinset.2 member, le_rfl⟩
  induction steps generalizing it with
  | zero =>
    rw [Nat.le_zero, card_eq_zero] at enough
    rw [enough] at counted
    cases counted
  | succ steps ih =>
    rw [lastSuccessor]
    split
    · rfl
    · rename_i it2 next
      have follows : it2.hashPrev = it.hashBlock := by simpa using List.find?_some next
      have inside := List.mem_of_find?_eq_some next
      have higher : rank it.hashBlock < rank it2.hashBlock := by
        rw [← follows, made it2 inside]
        exact acyclic _
      refine ih inside (Nat.le_of_lt_succ (lt_of_lt_of_le (card_lt_card ?_) enough))
        (mem_filter.2 ⟨List.mem_toFinset.2 inside, le_rfl⟩)
      refine ssubset_iff_of_subset (fun orphan above => ?_) |>.2 ⟨it, counted, fun above => ?_⟩
      · rw [mem_filter] at above ⊢
        exact ⟨above.1, le_trans (le_of_lt higher) above.2⟩
      · exact absurd (mem_filter.1 above).2 (Nat.not_le.2 higher)

theorem isSome_prunable (acyclic : Acyclic env) (holds : s.Holds env Q)
    (someHeld : s.mapOrphanBlocksByPrev ≠ []) (randomhash : H256) :
    (s.prunable randomhash).isSome := by
  obtain ⟨rank, increases⟩ := acyclic
  obtain ⟨it, drawn⟩ : ∃ it, s.drawOrphan randomhash = some it := by
    rw [← isSome_iff_exists, drawOrphan, isSome_or, Bool.or_eq_true,
      List.isSome_head?]
    exact Or.inr someHeld
  have member := mem_of_drawOrphan drawn
  rw [prunable, drawn, bind_some]
  refine isSome_lastSuccessor increases
    (fun orphan inside => holds.kept.made orphan (List.mem_toFinset.2 inside)) member ?_
  exact le_trans (card_filter_le _ _) (List.toFinset_card_le _)

theorem isSome_pruneOrphanBlocks (acyclic : Acyclic env) (stable : Stable env Q)
    (holds : s.Holds env Q) (getRandHash : Nat → H256)
    (enough : s.mapOrphanBlocksByPrev.length ≤ rounds) :
    (pruneOrphanBlocks env getRandHash rounds s).isSome := by
  induction rounds generalizing s with
  | zero =>
    have empty : s.mapOrphanBlocksByPrev = [] := List.length_eq_zero_iff.1 (Nat.le_zero.1 enough)
    have size := holds.kept.size
    rw [empty, List.toFinset_nil, sum_empty] at size
    simp [pruneOrphanBlocks, size]
  | succ rounds ih =>
    rw [pruneOrphanBlocks]
    split
    · rename_i tooLarge
      have someHeld : s.mapOrphanBlocksByPrev ≠ [] := by
        intro empty
        rw [holds.kept.size, empty, List.toFinset_nil, sum_empty] at tooLarge
        exact Nat.not_lt_zero _ tooLarge
      obtain ⟨orphan, found⟩ := isSome_iff_exists.1
        (isSome_prunable acyclic holds someHeld (getRandHash rounds))
      have member := mem_of_prunable found
      rw [found, bind_some]
      refine ih (holds.eraseOrphan stable member) ?_
      have shorter := List.length_erase_of_mem member
      change (s.mapOrphanBlocksByPrev.erase orphan).length ≤ rounds
      omega
    · rfl

theorem length_queue_release (a : BlockArrival) (orphans : List COrphanBlock)
    (work : NetState × List H256) :
    (orphans.foldl (releaseOrphan env a) work).2.length ≤ work.2.length + orphans.length := by
  induction orphans generalizing work with
  | nil => exact Nat.le_refl _
  | cons orphan rest ih =>
    have one : (releaseOrphan env a work orphan).2.length ≤ work.2.length + 1 := by
      unfold releaseOrphan
      dsimp only
      split <;> simp
    have more := ih (releaseOrphan env a work orphan)
    rw [List.foldl_cons, List.length_cons]
    omega

theorem isSome_releaseAll (a : BlockArrival)
    (enough : queue.length + s.mapOrphanBlocksByPrev.length ≤ rounds) :
    (NetState.releaseAll env a rounds s queue).isSome := by
  induction rounds generalizing s queue with
  | zero =>
    have empty : queue = [] := List.length_eq_zero_iff.1 (by omega)
    rw [empty]
    rfl
  | succ rounds ih =>
    cases queue with
    | nil => rfl
    | cons hashPrev queue =>
      refine ih ?_
      have grown : (s.releaseChildren env a hashPrev queue).2.length ≤
          queue.length + (s.orphansOf hashPrev).length :=
        length_queue_release a (s.orphansOf hashPrev) (s, queue)
      have parts := List.length_eq_length_filter_add (l := s.mapOrphanBlocksByPrev)
        fun orphan => decide (orphan.hashPrev = hashPrev)
      have others : (s.mapOrphanBlocksByPrev.filter fun orphan => !decide (orphan.hashPrev = hashPrev)) =
          s.mapOrphanBlocksByPrev.filter fun orphan => decide (orphan.hashPrev ≠ hashPrev) := by
        simp
      rw [others] at parts
      rw [byPrev_releaseChildren]
      rw [List.length_cons] at enough
      unfold orphansOf at grown
      omega

theorem isSome_processNetBlock (acyclic : Acyclic env) (stable : Stable env Q)
    (holds : s.Holds env Q) (a : BlockArrival) : (s.processNetBlock env a).isSome := by
  unfold NetState.processNetBlock
  split
  · rfl
  · rfl
  · rw [isSome_map]
    exact isSome_pruneOrphanBlocks acyclic stable holds _ le_rfl
  · dsimp only
    split
    · rw [isSome_map]
      exact isSome_releaseAll a (by rw [List.length_singleton, Nat.add_comm])
    · rfl

/-! ## The books of the orphans -/

/-- Both maps hold the same orphans, and the size is that of their blocks. -/
structure Booked (env : NetEnv) (s : NetState) : Prop where
  nodup : s.mapOrphanBlocksByPrev.Nodup
  same : ∀ hash orphan, s.mapOrphanBlocks.find? hash = some orphan ↔
    orphan ∈ s.mapOrphanBlocksByPrev ∧ orphan.hashBlock = hash
  size : s.nOrphanBlocksSize = (s.mapOrphanBlocksByPrev.map fun orphan =>
    env.serializeSize orphan.block.toCBlockHeader orphan.block.vtx).sum

/-- The set of proofs has exactly those of the staked blocks that are held. -/
def ExactStakes (s : NetState) : Prop :=
  ∀ proof, proof ∈ s.setStakeSeenOrphan ↔ ∃ orphan ∈ s.mapOrphanBlocksByPrev,
    orphan.block.isProofOfStake = true ∧ orphan.block.getProofOfStake = proof

theorem Holds.booked (holds : s.Holds env Q) : s.Booked env where
  nodup := holds.nodup
  same hash orphan := by rw [holds.kept.find, List.mem_toFinset]
  size := by
    rw [holds.kept.size, List.sum_toFinset _ holds.nodup]
    refine congrArg List.sum (List.map_congr_left fun orphan member => ?_)
    exact congrArg COrphanBlock.size (holds.kept.made orphan (List.mem_toFinset.2 member))

theorem Holds.proof_of_seen (holds : s.Holds env Q) {proof : StakeProof}
    (seen : proof ∈ s.setStakeSeenOrphan) : ∃ orphan ∈ s.mapOrphanBlocksByPrev,
      orphan.block.isProofOfStake ∧ orphan.block.getProofOfStake = proof := by
  obtain ⟨orphan, inside, staked, proves⟩ := holds.kept.stakes proof seen
  rw [holds.kept.made orphan inside] at proves
  exact ⟨orphan, List.mem_toFinset.1 inside, staked, proves⟩

theorem Holds.exactStakes (holds : s.Holds env ExactFor) : s.ExactStakes := by
  intro proof
  constructor
  · exact holds.proof_of_seen
  · rintro ⟨orphan, member, staked, rfl⟩
    have inside := List.mem_toFinset.2 member
    have seen := holds.further.seen orphan inside staked
    rw [holds.kept.made orphan inside] at seen
    exact seen

/-- Over every history the maps and the size agree, and the set of proofs has only those held, and
all as long as no orphan is taken in whose proof is already there. -/
theorem orphan_books_agree {env : NetEnv} {s₀ s : NetState} (start : s₀.Started env)
    (events : List NetEvent) (reached : s₀.run env events = some s) :
    s.Booked env ∧
      (∀ proof ∈ s.setStakeSeenOrphan, ∃ orphan ∈ s.mapOrphanBlocksByPrev,
        orphan.block.isProofOfStake = true ∧ orphan.block.getProofOfStake = proof) ∧
      (s₀.ProofsOnce env events → s.ExactStakes) ∧
      (Acyclic env → ∀ a : BlockArrival, (s.processNetBlock env a).isSome = true) := by
  have holds := (start.holds (s₀.ProofsOnce env events)).run (fun once => once) reached
  refine ⟨holds.booked, fun proof seen => holds.proof_of_seen seen, fun once => ?_,
    fun acyclic a => isSome_processNetBlock acyclic (stable_recorded _) holds a⟩
  exact Holds.exactStakes ⟨holds.nodup, holds.kept, holds.further.2 once⟩

end NetState

def nonceNet : NetEnv where
  getHash header := header.nNonce.toNat
  computeHash _ := 0
  pairHash _ _ := 0
  serializeSize _ vtx := vtx.length
  checkCanonicalBlockSignature _ := true
  nMaxOrphanBlocksSize := 1000

def nonceBlock (nNonce : UInt32) (hashPrevBlock : H256) (prevoutStake : COutPoint) : CBlock where
  nVersion := 1
  hashPrevBlock := hashPrevBlock
  hashMerkleRoot := 0
  nTime := 16
  nBits := 0
  nNonce := nNonce
  hashStateRoot := 0
  hashUTXORoot := 0
  prevoutStake := prevoutStake
  vchBlockSig := []
  vtx := [{}, { vin := [⟨⟨7, 0⟩, [], 0⟩], vout := [⟨0, []⟩, ⟨5, []⟩] }]

def nonceArrival (pblock : CBlock) : BlockArrival where
  pblock := pblock
  pfrom := true
  fReindex := false
  fImporting := false
  tip := none
  getRandHash _ := 0
  processNewBlock _ _ := (true, true)

def nonceStart : NetState where
  mapBlockIndex hash := if hash = 0 then some (nonceBlock 0 0 ⟨0, 0xffffffff⟩).toCBlockHeader else none
  setStakeSeen := ∅
  mapOrphanBlocks := .empty
  mapOrphanBlocksByPrev := []
  nOrphanBlocksSize := 0
  setStakeSeenOrphan := ∅

theorem stakesIndexed_nonceStart : nonceStart.StakesIndexed nonceNet := by
  constructor
  · intro hash header found
    change (if hash = 0 then _ else _) = _ at found
    split at found
    · rename_i genesis
      cases found
      exact genesis.symm
    · cases found
  · intro proof
    refine ⟨fun seen => absurd seen (notMem_empty _), ?_⟩
    rintro ⟨hash, header, found, staked, -⟩
    change (if hash = 0 then _ else _) = _ at found
    split at found
    · cases found
      cases staked
    · cases found

theorem started_nonceStart : nonceStart.Started nonceNet :=
  ⟨rfl, rfl, rfl, rfl, stakesIndexed_nonceStart⟩

/-- Of two orphans one is left once the parent of the other has arrived. -/
theorem orphan_books_agree_released : nonceStart.Started nonceNet ∧ ∃ s : NetState,
    nonceStart.run nonceNet [.block (nonceArrival (nonceBlock 1 100 ⟨7, 0⟩)),
      .block (nonceArrival (nonceBlock 3 2 ⟨8, 0⟩)),
      .block (nonceArrival (nonceBlock 100 0 ⟨9, 0⟩))] = some s ∧
      s.mapOrphanBlocksByPrev.length = 1 ∧ s.Booked nonceNet ∧ s.ExactStakes := by
  have run : (nonceStart.run nonceNet [.block (nonceArrival (nonceBlock 1 100 ⟨7, 0⟩)),
      .block (nonceArrival (nonceBlock 3 2 ⟨8, 0⟩)),
      .block (nonceArrival (nonceBlock 100 0 ⟨9, 0⟩))]).any (fun s =>
        s.mapOrphanBlocksByPrev.length == 1) := by decide +kernel
  have fresh : ((NetEvent.block (nonceArrival (nonceBlock 1 100 ⟨7, 0⟩))).perform nonceNet
      nonceStart).all (fun s => decide ((nonceBlock 3 2 ⟨8, 0⟩).getProofOfStake ∉ s.setStakeSeenOrphan) &&
        ((NetEvent.block (nonceArrival (nonceBlock 3 2 ⟨8, 0⟩))).perform nonceNet s).all fun s =>
          decide ((nonceBlock 100 0 ⟨9, 0⟩).getProofOfStake ∉ s.setStakeSeenOrphan)) := by decide +kernel
  simp only [Option.all_eq_true, Bool.and_eq_true, decide_eq_true_eq] at fresh
  have once : nonceStart.ProofsOnce nonceNet [.block (nonceArrival (nonceBlock 1 100 ⟨7, 0⟩)),
      .block (nonceArrival (nonceBlock 3 2 ⟨8, 0⟩)), .block (nonceArrival (nonceBlock 100 0 ⟨9, 0⟩))] :=
    ⟨fun repeated => absurd repeated.2.2 (by decide), fun s first =>
      ⟨fun repeated => (fresh s first).1 repeated.2.2, fun s' second =>
        ⟨fun repeated => (fresh s first).2 s' second repeated.2.2, fun _ _ => trivial⟩⟩⟩
  obtain ⟨s, reached, left⟩ := (any_eq_true _ _).1 run
  obtain ⟨booked, -, exact, -⟩ := NetState.orphan_books_agree started_nonceStart _ reached
  exact ⟨started_nonceStart, s, reached, beq_iff_eq.1 left, booked, exact once⟩

/-- Two blocks with one proof are held. Once the parent of the first arrives, the proof is forgotten
while the second is still held. -/
theorem released_orphan_takes_shared_proof : nonceStart.Started nonceNet ∧ ∃ s : NetState,
    nonceStart.run nonceNet [.block (nonceArrival (nonceBlock 1 100 ⟨7, 0⟩)),
      .block (nonceArrival (nonceBlock 3 2 ⟨8, 0⟩)),
      .block (nonceArrival (nonceBlock 2 200 ⟨7, 0⟩)),
      .block (nonceArrival (nonceBlock 100 0 ⟨9, 0⟩))] = some s ∧ ¬ s.ExactStakes := by
  refine ⟨started_nonceStart, ?_⟩
  have forgotten : (nonceStart.run nonceNet [.block (nonceArrival (nonceBlock 1 100 ⟨7, 0⟩)),
      .block (nonceArrival (nonceBlock 3 2 ⟨8, 0⟩)),
      .block (nonceArrival (nonceBlock 2 200 ⟨7, 0⟩)),
      .block (nonceArrival (nonceBlock 100 0 ⟨9, 0⟩))]).any (fun s =>
        s.mapOrphanBlocksByPrev.any fun orphan => orphan.block.isProofOfStake &&
          decide (orphan.block.getProofOfStake ∉ s.setStakeSeenOrphan)) := by
    decide +kernel
  obtain ⟨s, reached, held⟩ := (any_eq_true _ _).1 forgotten
  obtain ⟨orphan, member, found⟩ := List.any_eq_true.1 held
  rw [Bool.and_eq_true, decide_eq_true_eq] at found
  exact ⟨s, reached, fun exact =>
    found.2 ((exact _).2 ⟨orphan, member, found.1, rfl⟩)⟩

/-! ## Repeated proofs of indexed blocks -/

namespace NetState

variable {env : NetEnv} {s s' : NetState}

def UnusedProof (env : NetEnv) (s : NetState) (pblock : CBlock) : Prop :=
  ∀ hash header, s.mapBlockIndex hash = some header → header.isProofOfStake = true →
    header.getProofOfStake = pblock.getProofOfStake → hash = env.getHash pblock.toCBlockHeader

def ChildHeld (env : NetEnv) (s : NetState) (pblock : CBlock) : Prop :=
  ∃ orphan ∈ s.mapOrphanBlocksByPrev, orphan.hashPrev = env.getHash pblock.toCBlockHeader

/-- Outside reindex and import a staked block is passed on only with an unused proof or a child
that is held. -/
def LimitedDuplicity (env : NetEnv) (s : NetState) (a : BlockArrival) : Prop :=
  a.fReindex = false → a.fImporting = false → a.pblock.isProofOfStake = true →
    s.admission env a = .process → s.UnusedProof env a.pblock ∨ s.ChildHeld env a.pblock

/-- A staked block comes outside reindex and import only with a proof that was not seen, or with a
child that is held. `ProcessNetBlock` asks for it, but compares the count of a set with one. -/
def OffersFresh (env : NetEnv) (s : NetState) (a : BlockArrival) : Prop :=
  a.fReindex = false → a.fImporting = false → a.pblock.isProofOfStake = true →
    a.pblock.getProofOfStake ∉ s.setStakeSeen ∨ s.ChildHeld env a.pblock

/-- A property of every block that a history gives to `ProcessNetBlock`, in the state before. -/
def AtEachBlock (env : NetEnv) (P : NetState → BlockArrival → Prop) :
    NetState → List NetEvent → Prop
  | _, [] => True
  | s, .header received :: rest => AtEachBlock env P (s.addToBlockIndex env received) rest
  | s, .block a :: rest => P s a ∧
      ∀ s', NetEvent.perform env s (.block a) = some s' → AtEachBlock env P s' rest

theorem StakesIndexed.limitedDuplicity (indexed : s.StakesIndexed env) {a : BlockArrival}
    (fresh : s.OffersFresh env a) : s.LimitedDuplicity env a := by
  intro reindex importing staked _
  refine (fresh reindex importing staked).imp_left fun unseen hash header found stakes same => ?_
  exact absurd ((indexed.seen _).2 ⟨hash, header, found, stakes, same⟩) unseen

end NetState

end Artax
