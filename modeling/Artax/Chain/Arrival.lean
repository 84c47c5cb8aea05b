import Mathlib.Algebra.Order.BigOperators.Group.List
import Artax.Chain.Upkeep

/-!
# What the arrival of headers and blocks keeps

The invariants through `AcceptBlockHeader` and `AcceptBlock`. With the data of a block come the
blocks that waited for it: the queue of `ReceivedBlockTransactions` has blocks with data whose
predecessor is linked, and the others wait.
-/

namespace Artax
open BlockTree List Option BlockMarks

namespace CChainState

variable {env : ChainEnv} {s s' : CChainState} {a b p floor : H256}

/-- What the arrival of a block leaves alone. Only blocks over the new one become candidates. -/
structure Arrival (new : H256) (s s' : CChainState) : Prop where
  tree : s.tree.Extends s'.tree
  tip : s'.tip = s.tip
  blockDisconnected : s'.blockDisconnected = s.blockDisconnected
  candidates : ∀ c ∈ s'.setBlockIndexCandidates, c ∈ s.setBlockIndexCandidates ∨ s'.tree.Anc new c

theorem Arrival.refl (new : H256) (s : CChainState) : Arrival new s s :=
  ⟨.refl _, rfl, rfl, fun _ mem => .inl mem⟩

theorem Arrival.trans {new : H256} {s'' : CChainState} (first : Arrival new s s')
    (second : Arrival new s' s'') : Arrival new s s'' where
  tree := first.tree.trans second.tree
  tip := second.tip.trans first.tip
  blockDisconnected := second.blockDisconnected.trans first.blockDisconnected
  candidates c mem := (second.candidates c mem).elim
    (fun mem => (first.candidates c mem).imp_right second.tree.anc_mono) .inr

/-! ## Headers -/

section Header

variable {header : CBlockHeader} {prev : CBlockIndex}

theorem marks_addToBlockIndex (env : ChainEnv) (s : CChainState) (header : CBlockHeader) (b : H256) :
    (s.addToBlockIndex env header).marks b =
    if b = env.hashHeader header then { validity := .tree } else s.marks b := by
  by_cases same : b = env.hashHeader header
  · simp only [addToBlockIndex, same, Function.update_self, if_true]
    rfl
  · simp [addToBlockIndex, same]

section

variable (fresh : s.tree.index (env.hashHeader header) = none)
include fresh

theorem marks_addToBlockIndex_of_known (known : (s.tree.index b).isSome) :
    (s.addToBlockIndex env header).marks b = s.marks b := by
  rw [marks_addToBlockIndex, if_neg]
  rintro rfl
  rw [fresh] at known
  cases known

variable (found : s.tree.index header.hashPrevBlock = some prev)
include found

theorem addToBlockIndex_extends : s.tree.Extends (s.addToBlockIndex env header).tree :=
  extends_addToBlockIndex (env.getBlockProof_pos header) fresh found

/-- A block of the grown index is the new one, of which nothing is known yet, or was there before. -/
theorem known_addToBlockIndex (known : ((s.addToBlockIndex env header).tree.index b).isSome) :
    (s.addToBlockIndex env header).marks b = { validity := .tree } ∨ (s.tree.index b).isSome := by
  refine ((isSome_addToBlockIndex (env.getBlockProof_pos header) fresh found).1 known).imp_left ?_
  rintro rfl
  rw [marks_addToBlockIndex, if_pos rfl]

theorem rank_addToBlockIndex (known : (s.tree.index b).isSome) :
    (s.addToBlockIndex env header).rank env b = s.rank env b := by
  rw [rank, rank, (addToBlockIndex_extends fresh found).nChainWork known,
    marks_addToBlockIndex_of_known fresh known]

theorem chainTx_addToBlockIndex (known : (s.tree.index b).isSome) :
    (s.addToBlockIndex env header).chainTx b = s.chainTx b := by
  rw [chainTx, chainTx, (addToBlockIndex_extends fresh found).line known]
  refine congrArg List.sum (map_congr_left fun a mem => ?_)
  rw [marks_addToBlockIndex_of_known fresh
    (isSome_of_anc (Util.ParentTree.mem_line.1 mem) known)]

theorem Indexed.addToBlockIndex (indexed : s.Indexed) : (s.addToBlockIndex env header).Indexed := by
  have ext := addToBlockIndex_extends fresh found
  have marks := fun b => marks_addToBlockIndex_of_known (b := b) fresh
  have cases := fun b => known_addToBlockIndex (b := b) fresh found
  constructor
  case consistent =>
    intro b known
    rcases cases b known with new | known
    · rw [new]
      exact ⟨by decide, by decide, by decide, by decide, by decide, by decide⟩
    · rw [marks b known]
      exact indexed.consistent b known
  case genesis =>
    rw [ext.genesis, marks _ s.tree.root]
    exact indexed.genesis
  case linked =>
    intro b p prev linked
    rcases cases b (isSome_of_pprev prev).1 with new | known
    · rw [new] at linked
      exact (linked rfl).elim
    · rw [ext.pprev known] at prev
      rw [marks b known] at linked
      rw [marks p (isSome_of_pprev prev).2]
      exact indexed.linked b p prev linked
  case validity =>
    intro b p prev notRoot high
    rcases cases b (isSome_of_pprev prev).1 with new | known
    · rw [new] at high
      exact absurd high (by decide)
    · rw [ext.pprev known] at prev
      rw [marks b known] at high ⊢
      rw [marks p (isSome_of_pprev prev).2]
      exact indexed.validity b p prev (ext.genesis ▸ notRoot) high
  case waiting =>
    intro entry mem
    obtain ⟨prev, data, unlinked⟩ := indexed.waiting entry mem
    obtain ⟨known, knownPrev⟩ := isSome_of_pprev prev
    rw [ext.pprev known, marks _ known, marks _ knownPrev]
    exact ⟨prev, data, unlinked⟩
  case once => exact indexed.once
  case sequence => exact indexed.sequence
  case reverse => exact indexed.reverse
  case counted =>
    intro b known
    rcases cases b known with new | known
    · rw [new]
      exact Nat.zero_le _
    · rw [marks b known, chainTx_addToBlockIndex fresh found known]
      exact indexed.counted b known

theorem Flagged.addToBlockIndex (flagged : s.Flagged) : (s.addToBlockIndex env header).Flagged := by
  have ext := addToBlockIndex_extends fresh found
  have marks := fun b => marks_addToBlockIndex_of_known (b := b) fresh
  constructor
  case caused =>
    intro b known failed
    rcases known_addToBlockIndex fresh found known with new | known
    · rw [new] at failed
      cases failed
    · rw [marks b known] at failed
      obtain ⟨a, anc, valid⟩ := flagged.caused b known failed
      exact ⟨a, (ext.anc known).2 anc, by rw [marks a (isSome_of_anc anc known)]; exact valid⟩
  case found =>
    intro b mem
    obtain ⟨known, valid⟩ := flagged.found b mem
    exact ⟨ext.isSome known, by rw [marks b known]; exact valid⟩

theorem Usable.addToBlockIndex (usable : s.Usable env b) :
    (s.addToBlockIndex env header).Usable env b := by
  have ext := addToBlockIndex_extends fresh found
  have marks := fun b => marks_addToBlockIndex_of_known (b := b) fresh
  constructor
  case known => exact ext.isSome usable.known
  case linked =>
    rw [marks b usable.known]
    exact usable.linked
  case clean =>
    intro a anc
    rw [ext.anc usable.known] at anc
    rw [marks a (isSome_of_anc anc usable.known)]
    exact usable.clean a anc
  case connects =>
    intro a anc other
    rw [ext.anc usable.known] at anc
    exact usable.connects a anc (ext.genesis ▸ other)

theorem Active.addToBlockIndex (active : s.Active env) :
    (s.addToBlockIndex env header).Active env := by
  have ext := addToBlockIndex_extends fresh found
  refine ⟨active.usable.addToBlockIndex fresh found, fun a anc other => ?_⟩
  have anc := (ext.anc active.usable.known).1 anc
  rw [marks_addToBlockIndex_of_known fresh (isSome_of_anc anc active.usable.known)]
  exact active.scripts a anc (ext.genesis ▸ other)

theorem Ranked.addToBlockIndex (ranked : s.Ranked env floor) :
    (s.addToBlockIndex env header).Ranked env floor := by
  have marks := fun b => marks_addToBlockIndex_of_known (b := b) fresh
  have ranks := fun b => rank_addToBlockIndex (b := b) fresh found
  constructor
  case usable => exact ranked.usable.addToBlockIndex fresh found
  case known => exact fun c mem => (addToBlockIndex_extends fresh found).isSome (ranked.known c mem)
  case linked =>
    intro c mem
    rw [marks c (ranked.known c mem)]
    exact ranked.linked c mem
  case above =>
    intro c mem
    rw [ranks floor ranked.usable.known, ranks c (ranked.known c mem)]
    exact ranked.above c mem
  case complete =>
    intro b known fine linked above
    rcases known_addToBlockIndex fresh found known with new | known
    · rw [new] at linked
      exact (linked rfl).elim
    · rw [marks b known] at fine linked
      rw [ranks floor ranked.usable.known, ranks b known] at above
      exact ranked.complete b known fine linked above

theorem Sound.addToBlockIndex (sound : s.Sound env floor) :
    (s.addToBlockIndex env header).Sound env floor where
  indexed := sound.indexed.addToBlockIndex fresh found
  flagged := sound.flagged.addToBlockIndex fresh found
  active := sound.active.addToBlockIndex fresh found
  ranked := sound.ranked.addToBlockIndex fresh found

theorem Filed.addToBlockIndex (filed : s.Filed) : (s.addToBlockIndex env header).Filed := by
  intro b known data unlinked
  rw [marks_addToBlockIndex] at data unlinked
  split at data
  · exact (data rfl).elim
  · rename_i other
    rw [if_neg other] at unlinked
    have positive := env.getBlockProof_pos header
    have known := ((isSome_addToBlockIndex positive fresh found).1 known).resolve_left other
    obtain ⟨p, prev, waits⟩ := filed b known data unlinked
    have same : (s.addToBlockIndex env header).tree.pprev b = s.tree.pprev b :=
      (extends_addToBlockIndex positive fresh found).pprev known
    exact ⟨p, same.trans prev, waits⟩

end

/-- How `AcceptBlockHeader` ends: nothing changes, the blocks over an invalid one are marked, or a
new header is put over its predecessor. -/
theorem acceptBlockHeader_cases (env : ChainEnv) (s : CChainState) (header : CBlockHeader)
    (checks : HeaderChecks) :
    (∃ accepted, s.acceptBlockHeader env header checks = (s, accepted) ∧ (accepted →
      env.hashHeader header = s.tree.genesis ∨ (s.tree.index (env.hashHeader header)).isSome ∧
        (s.marks (env.hashHeader header)).failed = false)) ∨
    (∃ failed ∈ s.failedBlocks, s.tree.Anc failed header.hashPrevBlock ∧
      s.acceptBlockHeader env header checks = (s.markWhere (fun b => decide (b ∈
        (s.tree.links.line header.hashPrevBlock).takeWhile (· ≠ failed))) .failChild, false)) ∨
    ∃ prev, s.tree.index (env.hashHeader header) = none ∧
      s.tree.index header.hashPrevBlock = some prev ∧ (s.marks header.hashPrevBlock).failed = false ∧
      s.failedAncestor env header.hashPrevBlock = none ∧
      s.acceptBlockHeader env header checks = (s.addToBlockIndex env header, true) := by
  have refused : ∃ accepted, ((s, false) : CChainState × Bool) = (s, accepted) ∧ (accepted →
      env.hashHeader header = s.tree.genesis ∨ (s.tree.index (env.hashHeader header)).isSome ∧
        (s.marks (env.hashHeader header)).failed = false) := ⟨false, rfl, nofun⟩
  unfold acceptBlockHeader
  dsimp only
  split
  · rename_i root
    exact .inl ⟨true, rfl, fun _ => .inl root⟩
  split
  · rename_i known
    exact .inl ⟨_, rfl, fun fine => .inr ⟨known, by simpa using fine⟩⟩
  rename_i fresh
  rw [Bool.not_eq_true, isSome_eq_false_iff, isNone_iff_eq_none] at fresh
  split
  · exact .inl refused
  split
  · exact .inl refused
  rename_i prev found
  split
  · exact .inl refused
  rename_i fine
  simp only [Bool.or_eq_true, not_or, Bool.not_eq_true] at fine
  split
  · rename_i failed search
    unfold failedAncestor at search
    split at search
    · cases search
    · have mem := argmin_mem search
      rw [mem_filter, decide_eq_true_eq] at mem
      exact .inr (.inl ⟨failed, mem.1, mem.2, rfl⟩)
  rename_i search
  split
  · exact .inr (.inr ⟨prev, fresh, found, fine.1.1, search, rfl⟩)
  · exact .inl refused

theorem acceptBlockHeader_spec (sound : s.Sound env s.tip) (header : CBlockHeader)
    (checks : HeaderChecks) :
    (s.acceptBlockHeader env header checks).1.Sound env s.tip ∧
      (s.Filed → (s.acceptBlockHeader env header checks).1.Filed) ∧
      Arrival (env.hashHeader header) s (s.acceptBlockHeader env header checks).1 := by
  rcases acceptBlockHeader_cases env s header checks with ⟨_, same, _⟩ | ⟨failed, mem, anc, marked⟩ |
    ⟨prev, fresh, found, _, _, added⟩
  · rw [same]
    exact ⟨sound, id, .refl _ s⟩
  · rw [marked]
    obtain ⟨known, valid⟩ := sound.flagged.found failed mem
    have isFailed : (s.marks failed).failed := by rw [BlockMarks.failed, valid, Bool.true_or]
    have above := fun b => Util.ParentTree.Anc.of_mem_takeWhile_ne (a := b) anc
    have unused := fun b mem => sound.active.usable.not_anc_of_failed isFailed (above b mem)
    suffices flags : Flags s.tip s (s.markWhere _ .failChild) from
      ⟨sound.failChildren flags known isFailed above (fun b => by simp [markWhere]) rfl,
        flags.frame.filed, .refl _, rfl, rfl, fun _ mem => .inl mem⟩
    exact .of_marks (fun b => by simp [markWhere]) rfl rfl rfl rfl rfl alike_failChild
      failed_failChild (fun b mem => ⟨unused b mem, unused b mem⟩) (fun _ mem => mem)
      fun _ mem => .inl mem
  · rw [added]
    exact ⟨sound.addToBlockIndex fresh found, fun filed => filed.addToBlockIndex fresh found,
      addToBlockIndex_extends fresh found, rfl, rfl, fun _ mem => .inl mem⟩

end Header

/-! ## Blocks -/

def received (s : CChainState) (pindexNew : H256) (count : Nat) : CChainState :=
  s.markWhere (· = pindexNew) fun m =>
    ({ m with nTx := count, nChainTx := 0, haveData := true } : BlockMarks).raiseValidity .transactions

variable {count rounds : Nat} {queue : List H256}

/-- One round of the loop of `ReceivedBlockTransactions`, in which the blocks that wait for the one that
is linked are taken from the map. -/
def linkStep (env : ChainEnv) (s : CChainState) (pindex : H256) : CChainState :=
  { s.linkBlock env pindex with
    mapBlocksUnlinked := s.mapBlocksUnlinked.filter fun entry => entry.1 ≠ pindex }

structure LinkStep (env : ChainEnv) (pindex : H256) (s s' : CChainState) : Prop where
  tree : s'.tree = s.tree
  tip : s'.tip = s.tip
  blockDisconnected : s'.blockDisconnected = s.blockDisconnected
  marks : ∀ b, s'.marks b = if b = pindex then { s.marks b with
    nChainTx := ((s.tree.pprev pindex).map fun p => (s.marks p).nChainTx).getD 0 + (s.marks b).nTx
    nSequenceId := s.nBlockSequenceId } else s.marks b
  unlinked : ∀ entry, entry ∈ s'.mapBlocksUnlinked ↔ entry ∈ s.mapBlocksUnlinked ∧ entry.1 ≠ pindex
  once : s.mapBlocksUnlinked.Nodup → s'.mapBlocksUnlinked.Nodup
  failedBlocks : s'.failedBlocks = s.failedBlocks
  sequence : s'.nBlockSequenceId = s.nBlockSequenceId + 1
  reverse : s'.nBlockReverseSequenceId = s.nBlockReverseSequenceId
  candidates : ∀ c, c ∈ s'.setBlockIndexCandidates ↔
    c ∈ s.setBlockIndexCandidates ∨ c = pindex ∧ s'.rank env s'.tip ≤ s'.rank env pindex

theorem linkStep_spec (env : ChainEnv) (s : CChainState) (b : H256) :
    LinkStep env b s (s.linkStep env b) := by
  have unlinked : ∀ entry, entry ∈ (s.linkStep env b).mapBlocksUnlinked ↔
      entry ∈ s.mapBlocksUnlinked ∧ entry.1 ≠ b := by simp [linkStep]
  have once : s.mapBlocksUnlinked.Nodup → (s.linkStep env b).mapBlocksUnlinked.Nodup :=
    fun nodup => nodup.filter _
  unfold linkStep linkBlock at unlinked once ⊢
  dsimp only at unlinked once ⊢
  split
  · rename_i worse
    rw [worse_iff] at worse
    refine ⟨rfl, rfl, rfl, fun x => by simp [markWhere], unlinked, once, rfl, rfl, rfl, fun c => ?_⟩
    exact ⟨.inl, fun mem => mem.elim id fun better => (worse.not_ge better.2).elim⟩
  · rename_i better
    rw [Bool.not_eq_true, worse_eq_false] at better
    refine ⟨rfl, rfl, rfl, fun x => by simp [markWhere], unlinked, once, rfl, rfl, rfl, fun c => ?_⟩
    rw [mem_insert_iff]
    exact ⟨fun mem => mem.symm.imp_right fun same => ⟨same, better⟩,
      fun mem => mem.symm.imp_left And.left⟩

/-- A block whose data was there and whose predecessor is linked can be linked. -/
structure Ready (s : CChainState) (b : H256) : Prop where
  prev : ∃ p, s.tree.pprev b = some p ∧ (s.marks p).nChainTx ≠ 0
  data : (s.marks b).nTx ≠ 0
  unlinked : (s.marks b).nChainTx = 0

section Link

variable (step : LinkStep env b s s')
include step

/-- Linking changes two fields of the marks. -/
theorem LinkStep.kept {α : Type} (f : BlockMarks → α) (agrees : ∀ (m : BlockMarks) (chain : Nat)
    (id : Int), f { m with nChainTx := chain, nSequenceId := id } = f m) (x : H256) :
    f (s'.marks x) = f (s.marks x) := by
  rw [step.marks]
  split
  · exact agrees _ _ _
  · rfl

theorem LinkStep.others (other : a ≠ b) : s'.marks a = s.marks a := by rw [step.marks, if_neg other]

theorem LinkStep.rank (other : a ≠ b) : s'.rank env a = s.rank env a := by
  rw [CChainState.rank, CChainState.rank, step.tree, step.others other]

theorem LinkStep.failed (x : H256) : (s'.marks x).failed = (s.marks x).failed :=
  step.kept BlockMarks.failed (fun _ _ _ => rfl) x

variable (ready : s.Ready b)
include ready

theorem LinkStep.nowLinked : (s'.marks b).nChainTx ≠ 0 := by
  obtain ⟨p, prev, linkedPrev⟩ := ready.prev
  rw [step.marks, if_pos rfl, prev]
  exact (Nat.add_pos_left (Nat.pos_of_ne_zero linkedPrev) _).ne'

omit step in
theorem Ready.ne_of_linked (linked : (s.marks a).nChainTx ≠ 0) : a ≠ b := by
  rintro rfl
  exact linked ready.unlinked

theorem LinkStep.linked (linked : (s.marks a).nChainTx ≠ 0) : (s'.marks a).nChainTx ≠ 0 := by
  rw [step.others (ready.ne_of_linked linked)]
  exact linked

theorem LinkStep.consistent (consistent : (s.marks b).Consistent) : (s'.marks b).Consistent := by
  have nTx := step.kept BlockMarks.nTx (fun _ _ _ => rfl) b
  have haveData := step.kept BlockMarks.haveData (fun _ _ _ => rfl) b
  have validity := step.kept BlockMarks.validity (fun _ _ _ => rfl) b
  constructor
  case data =>
    rw [haveData, nTx]
    exact consistent.data
  case undo =>
    rw [haveData, step.kept BlockMarks.haveUndo fun _ _ _ => rfl]
    exact consistent.undo
  case tree =>
    rw [validity]
    exact consistent.tree
  case transactions =>
    rw [validity, nTx]
    exact consistent.transactions
  case linked => exact fun _ => nTx ▸ ready.data
  case unlinked => exact fun zero => (step.nowLinked ready zero).elim

theorem Indexed.link (indexed : s.Indexed) : s'.Indexed := by
  have nTx := step.kept BlockMarks.nTx fun _ _ _ => rfl
  have validity := step.kept BlockMarks.validity fun _ _ _ => rfl
  obtain ⟨p, prev, linkedPrev⟩ := ready.prev
  constructor
  case consistent =>
    intro x known
    have consistent := indexed.consistent x (step.tree ▸ known)
    by_cases same : x = b
    · subst same
      exact step.consistent ready consistent
    · rw [step.others same]
      exact consistent
  case genesis =>
    rw [step.tree]
    exact step.linked ready indexed.genesis
  case linked =>
    intro x q prevX linkedX
    rw [step.tree] at prevX
    by_cases same : x = b
    · subst same
      obtain rfl := some.inj (prevX.symm.trans prev)
      exact step.linked ready linkedPrev
    · rw [step.others same] at linkedX
      exact step.linked ready (indexed.linked x q prevX linkedX)
  case validity =>
    intro x q
    rw [step.tree, validity, validity]
    exact indexed.validity x q
  case waiting =>
    intro entry mem
    obtain ⟨mem, other⟩ := (step.unlinked entry).1 mem
    rw [step.tree, nTx, step.others other]
    exact indexed.waiting entry mem
  case once => exact step.once indexed.once
  case sequence =>
    rw [step.sequence]
    have := indexed.sequence
    omega
  case reverse =>
    rw [step.reverse]
    exact indexed.reverse
  case counted =>
    intro x known
    rw [chainTx_congr step.tree nTx]
    by_cases same : x = b
    · subst same
      have countedPrev := indexed.counted p (isSome_of_pprev prev).2
      rw [step.marks, if_pos rfl, prev, chainTx_of_pprev prev, Nat.add_comm]
      exact Nat.add_le_add_left countedPrev _
    · rw [step.others same]
      exact indexed.counted x (step.tree ▸ known)

theorem Active.link (active : s.Active env) : s'.Active env where
  usable := step.tip ▸ active.usable.congr step.tree
    (by rw [step.others (ready.ne_of_linked active.usable.linked)]) fun a _ => step.failed a
  scripts a := by
    rw [step.tip, step.tree, step.kept validity fun _ _ _ => rfl]
    exact active.scripts a

theorem Ranked.link (ranked : s.Ranked env s.tip) : s'.Ranked env s'.tip := by
  have tipOther := ready.ne_of_linked ranked.usable.linked
  obtain ⟨p, prev, _⟩ := ready.prev
  constructor
  case usable =>
    exact step.tip ▸ ranked.usable.congr step.tree (by rw [step.others tipOther]) fun a _ => step.failed a
  case known =>
    intro c mem
    rw [step.tree]
    rcases (step.candidates c).1 mem with mem | ⟨rfl, _⟩
    · exact ranked.known c mem
    · exact (isSome_of_pprev prev).1
  case linked =>
    intro c mem
    rcases (step.candidates c).1 mem with mem | ⟨rfl, _⟩
    · exact step.linked ready (ranked.linked c mem)
    · exact step.nowLinked ready
  case above =>
    intro c mem
    rcases (step.candidates c).1 mem with mem | ⟨rfl, above⟩
    · rw [step.tip, step.rank tipOther, step.rank (ready.ne_of_linked (ranked.linked c mem))]
      exact ranked.above c mem
    · exact above
  case complete =>
    intro x known fine isLinked above
    rw [step.candidates]
    by_cases same : x = b
    · exact .inr ⟨same, same ▸ above⟩
    · rw [step.tip, step.rank tipOther, step.rank same] at above
      rw [step.tree] at known
      rw [step.failed] at fine
      rw [step.others same] at isLinked
      exact .inl (ranked.complete x known fine isLinked above)

theorem Sound.link (sound : s.Sound env s.tip) : s'.Sound env s'.tip where
  indexed := sound.indexed.link step ready
  flagged := sound.flagged.congr step.tree step.failed
    (step.kept failedValid fun _ _ _ => rfl) step.failedBlocks
  active := sound.active.link step ready
  ranked := sound.ranked.link step ready

end Link

/-- Blocks with data that are not linked wait for their predecessor or are in a queue. -/
def FiledBut (s : CChainState) (queue : List H256) : Prop :=
  ∀ b, (s.tree.index b).isSome = true → (s.marks b).nTx ≠ 0 → (s.marks b).nChainTx = 0 →
    b ∈ queue ∨ ∃ p, s.tree.pprev b = some p ∧ (p, b) ∈ s.mapBlocksUnlinked

structure Queued (env : ChainEnv) (new : H256) (queue : List H256) (s : CChainState) : Prop where
  sound : s.Sound env s.tip
  once : queue.Nodup
  ready : ∀ b ∈ queue, s.Ready b
  descends : ∀ b ∈ queue, s.tree.Anc new b

def waitingFor (s : CChainState) (b : H256) : List H256 :=
  (s.mapBlocksUnlinked.filter fun entry => entry.1 = b).map Prod.snd

theorem mem_waitingFor : a ∈ s.waitingFor b ↔ (b, a) ∈ s.mapBlocksUnlinked := by
  simp [waitingFor]

theorem Queued.step {new : H256} {queue : List H256} (queued : s.Queued env new (b :: queue)) :
    (s.linkStep env b).Queued env new (queue ++ s.waitingFor b) ∧
      Arrival new s (s.linkStep env b) ∧
      (s.FiledBut (b :: queue) → (s.linkStep env b).FiledBut (queue ++ s.waitingFor b)) := by
  have step := linkStep_spec env s b
  have ready := queued.ready b (mem_cons_self ..)
  have sound := queued.sound.link step ready
  have nowLinked := step.nowLinked ready
  obtain ⟨notIn, once⟩ := nodup_cons.1 queued.once
  have marks : ∀ x ≠ b, (s.linkStep env b).marks x = s.marks x := fun _ other => step.others other
  have waits : ∀ x ∈ s.waitingFor b, s.tree.pprev x = some b ∧ (s.marks x).nTx ≠ 0 ∧ x ≠ b := by
    intro x mem
    obtain ⟨prev, data, _⟩ := queued.sound.indexed.waiting _ (mem_waitingFor.1 mem)
    refine ⟨prev, data, ?_⟩
    rintro rfl
    exact absurd (nHeight_of_pprev prev) (Nat.succ_ne_self _).symm
  refine ⟨⟨sound, ?_, ?_, ?_⟩, ⟨step.tree ▸ .refl _, step.tip, step.blockDisconnected, ?_⟩, ?_⟩
  · -- those in the queue have predecessors that are linked
    refine nodup_append.2 ⟨once, ?_, ?_⟩
    · refine List.Nodup.map_on (fun x memX y memY same => ?_) (queued.sound.indexed.once.filter _)
      simp only [mem_filter, decide_eq_true_eq] at memX memY
      exact Prod.ext (memX.2.trans memY.2.symm) same
    · rintro x inQueue y waiting rfl
      obtain ⟨p, prev, linked⟩ := (queued.ready x (mem_cons_of_mem _ inQueue)).prev
      obtain rfl := some.inj (prev.symm.trans (waits x waiting).1)
      exact linked ready.unlinked
  · intro x mem
    rcases mem_append.1 mem with mem | mem
    · have readyX := queued.ready x (mem_cons_of_mem _ mem)
      obtain ⟨p, prev, linked⟩ := readyX.prev
      have other : x ≠ b := fun same => notIn (same ▸ mem)
      have otherPrev : p ≠ b := fun same => linked (same ▸ ready.unlinked)
      exact ⟨⟨p, step.tree ▸ prev, marks p otherPrev ▸ linked⟩, marks x other ▸ readyX.data,
        marks x other ▸ readyX.unlinked⟩
    · obtain ⟨prev, data, other⟩ := waits x mem
      refine ⟨⟨b, step.tree ▸ prev, nowLinked⟩, marks x other ▸ data, ?_⟩
      rw [marks x other]
      by_contra linked
      exact queued.sound.indexed.linked x b prev linked ready.unlinked
  · intro x mem
    rw [step.tree]
    rcases mem_append.1 mem with mem | mem
    · exact queued.descends x (mem_cons_of_mem _ mem)
    · exact (queued.descends b (mem_cons_self ..)).trans (.parent (waits x mem).1)
  · intro c mem
    rcases (step.candidates c).1 mem with mem | ⟨rfl, _⟩
    · exact .inl mem
    · exact .inr (step.tree ▸ queued.descends c (mem_cons_self ..))
  · intro filed x known data unlinked
    have other : x ≠ b := by
      rintro rfl
      exact nowLinked unlinked
    rw [marks x other] at data unlinked
    rw [step.tree] at known ⊢
    rcases filed x known data unlinked with mem | ⟨p, prev, waiting⟩
    · exact .inl (mem_append_left _ ((mem_cons.1 mem).resolve_left other))
    · by_cases here : p = b
      · subst here
        exact .inl (mem_append_right _ (mem_waitingFor.2 waiting))
      · exact .inr ⟨p, prev, (step.unlinked _).2 ⟨waiting, here⟩⟩

theorem length_waitingFor (env : ChainEnv) (s : CChainState) (b : H256) :
    (s.waitingFor b).length + (s.linkStep env b).mapBlocksUnlinked.length =
      s.mapBlocksUnlinked.length := by
  simp only [waitingFor, linkStep, length_map]
  have := length_eq_length_filter_add (l := s.mapBlocksUnlinked) fun entry => decide (entry.1 = b)
  simpa using this.symm

theorem linkQueue_cons :
    linkQueue env (rounds + 1) (b :: queue) s =
      linkQueue env rounds (queue ++ s.waitingFor b) (s.linkStep env b) := by
  have same : (s.linkBlock env b).mapBlocksUnlinked = s.mapBlocksUnlinked := by
    unfold linkBlock
    dsimp only
    split <;> rfl
  rw [linkQueue, same]
  rfl

theorem linkQueue_spec {new : H256} (queued : s.Queued env new queue)
    (enough : queue.length + s.mapBlocksUnlinked.length ≤ rounds) :
    (linkQueue env rounds queue s).Sound env s.tip ∧ Arrival new s (linkQueue env rounds queue s) ∧
      (s.FiledBut queue → (linkQueue env rounds queue s).Filed) := by
  induction rounds generalizing s queue with
  | zero =>
    obtain rfl : queue = [] := eq_nil_of_length_eq_zero (by omega)
    exact ⟨queued.sound, .refl _ s, fun filed b known data unlinked =>
      (filed b known data unlinked).resolve_left (by simp)⟩
  | succ rounds ih =>
    cases queue with
    | nil =>
      exact ⟨queued.sound, .refl _ s, fun filed b known data unlinked =>
        (filed b known data unlinked).resolve_left (by simp)⟩
    | cons b queue =>
      obtain ⟨after, arrival, filed⟩ := queued.step
      have shorter := length_waitingFor env s b
      rw [linkQueue_cons]
      obtain ⟨sound, arrivalRest, filedRest⟩ := ih after (by
        simp only [length_append, length_cons] at enough ⊢
        omega)
      rw [arrival.tip] at sound
      exact ⟨sound, arrival.trans arrivalRest, fun filedBut => filedRest (filed filedBut)⟩

theorem Sound.wait (sound : s.Sound env floor) (prev : s.tree.pprev b = some p)
    (data : (s.marks b).nTx ≠ 0) (unlinked : (s.marks p).nChainTx = 0)
    (new : (p, b) ∉ s.mapBlocksUnlinked) :
    ({ s with mapBlocksUnlinked := (p, b) :: s.mapBlocksUnlinked } : CChainState).Sound env floor where
  indexed :=
    { consistent := sound.indexed.consistent
      genesis := sound.indexed.genesis
      linked := sound.indexed.linked
      validity := sound.indexed.validity
      waiting := forall_mem_cons.2 ⟨⟨prev, data, unlinked⟩, sound.indexed.waiting⟩
      once := nodup_cons.2 ⟨new, sound.indexed.once⟩
      sequence := sound.indexed.sequence
      reverse := sound.indexed.reverse
      counted := sound.indexed.counted }
  flagged := ⟨sound.flagged.caused, sound.flagged.found⟩
  active := ⟨sound.active.usable.congr rfl rfl fun _ _ => rfl, sound.active.scripts⟩
  ranked := ⟨sound.ranked.usable.congr rfl rfl fun _ _ => rfl, sound.ranked.known, sound.ranked.linked,
    sound.ranked.above, sound.ranked.complete⟩

theorem receivedBlockTransactions_eq (prev : s.tree.pprev b = some p) :
    s.receivedBlockTransactions env b count =
      if ((s.received b count).marks p).nChainTx ≠ 0 then
        linkQueue env (s.mapBlocksUnlinked.length + 1) [b] (s.received b count)
      else if ((s.received b count).marks p).isValid .tree then
        { s.received b count with mapBlocksUnlinked := (p, b) :: s.mapBlocksUnlinked }
      else s.received b count := by
  simp only [receivedBlockTransactions, markWhere, prev]
  rfl

section

variable (known : (s.tree.index b).isSome) (missing : (s.marks b).haveData = false)
include known missing

/-- A block without data has nothing that comes with it. -/
theorem Indexed.of_missing (indexed : s.Indexed) : (s.marks b).nTx = 0 ∧ (s.marks b).nChainTx = 0 ∧
    (s.marks b).validity.level < BlockValidity.transactions.level := by
  have consistent := indexed.consistent b known
  have noTx : (s.marks b).nTx = 0 := by
    by_contra data
    rw [consistent.data.2 data] at missing
    cases missing
  refine ⟨noTx, ?_, ?_⟩
  · by_contra linked
    exact consistent.linked linked noTx
  · by_contra high
    exact consistent.transactions.1 (not_lt.1 high) noTx

variable (count) (fine : (s.marks b).failed = false)
include fine

theorem Indexed.marks_received (indexed : s.Indexed) (x : H256) : (s.received b count).marks x =
    if x = b then { s.marks x with nTx := count, haveData := true, validity := .transactions }
    else s.marks x := by
  obtain ⟨_, noChainTx, low⟩ := indexed.of_missing known missing
  simp only [received, markWhere, decide_eq_true_eq]
  split
  · rename_i same
    subst same
    have raised := raiseValidity_of_lt
      (m := { s.marks x with nTx := count, nChainTx := 0, haveData := true }) fine low
    exact raised.trans (by simp [noChainTx])
  · rfl

/-- The data of a block changes three fields of its marks. -/
theorem Indexed.kept_received (indexed : s.Indexed) {α : Type} (f : BlockMarks → α)
    (agrees : ∀ m : BlockMarks,
      f { m with nTx := count, haveData := true, validity := .transactions } = f m) (x : H256) :
    f ((s.received b count).marks x) = f (s.marks x) := by
  rw [indexed.marks_received count known missing fine]
  split
  · exact agrees _
  · rfl

theorem Indexed.nTx_le_received (indexed : s.Indexed) (x : H256) :
    (s.marks x).nTx ≤ ((s.received b count).marks x).nTx := by
  rw [indexed.marks_received count known missing fine]
  split
  · rename_i same
    rw [same, (indexed.of_missing known missing).1]
    exact Nat.zero_le _
  · exact le_rfl

theorem Active.received (indexed : s.Indexed) (active : s.Active env) :
    (s.received b count).Active env := by
  have kept {α : Type} := indexed.kept_received (α := α) count known missing fine
  refine ⟨active.usable.congr rfl (kept nChainTx (fun _ => rfl) _)
    fun a _ => kept failed (fun _ => rfl) a, fun a anc other => ?_⟩
  -- all blocks of the active chain have data
  rw [indexed.marks_received count known missing fine, if_neg]
  · exact active.scripts a anc other
  · rintro rfl
    exact indexed.nTx_of_anc active.usable.known anc active.usable.linked
      (indexed.of_missing known missing).1

theorem Ranked.received (indexed : s.Indexed) (ranked : s.Ranked env floor) :
    (s.received b count).Ranked env floor := by
  have kept {α : Type} := indexed.kept_received (α := α) count known missing fine
  have nChainTx := kept nChainTx fun _ => rfl
  have failed := kept failed fun _ => rfl
  have ranks : (s.received b count).rank env = s.rank env :=
    rank_congr rfl (kept nSequenceId fun _ => rfl)
  constructor
  case usable => exact ranked.usable.congr rfl (nChainTx _) fun a _ => failed a
  case known => exact ranked.known
  case linked =>
    intro c
    rw [nChainTx]
    exact ranked.linked c
  case above =>
    rw [ranks]
    exact ranked.above
  case complete =>
    intro x
    rw [failed, nChainTx, ranks]
    exact ranked.complete x

variable {count} (nonempty : count ≠ 0)
include nonempty

theorem Indexed.received (indexed : s.Indexed) : (s.received b count).Indexed := by
  obtain ⟨_, _, low⟩ := indexed.of_missing known missing
  have marks := indexed.marks_received count known missing fine
  have nChainTx := indexed.kept_received count known missing fine nChainTx fun _ => rfl
  have more := indexed.nTx_le_received count known missing fine
  constructor
  case consistent =>
    intro x knownX
    have consistent := indexed.consistent x knownX
    rw [marks]
    split
    · exact ⟨by simp [nonempty], fun _ => rfl, Nat.le_succ _, by simp [nonempty], fun _ => nonempty,
        consistent.unlinked⟩
    · exact consistent
  case genesis =>
    rw [nChainTx]
    exact indexed.genesis
  case linked =>
    intro x p
    rw [nChainTx, nChainTx]
    exact indexed.linked x p
  case validity =>
    intro x p prev notRoot high
    by_cases same : x = b
    · rw [marks, if_pos same] at high
      exact absurd (show BlockValidity.chain.level ≤ BlockValidity.transactions.level from high) (by decide)
    · rw [marks x, if_neg same] at high ⊢
      have below := indexed.validity x p prev notRoot high
      by_cases samePrev : p = b
      · rw [samePrev] at below
        exact absurd (high.trans (below.trans low.le)) (by decide)
      · rw [marks p, if_neg samePrev]
        exact below
  case waiting =>
    intro entry mem
    obtain ⟨prev, data, waits⟩ := indexed.waiting entry mem
    rw [nChainTx]
    exact ⟨prev, (Nat.lt_of_lt_of_le (Nat.pos_of_ne_zero data) (more _)).ne', waits⟩
  case once => exact indexed.once
  case sequence => exact indexed.sequence
  case reverse => exact indexed.reverse
  case counted =>
    intro x knownX
    rw [nChainTx]
    exact (indexed.counted x knownX).trans (sum_le_sum fun a _ => more a)

theorem Sound.received (sound : s.Sound env floor) : (s.received b count).Sound env floor where
  indexed := sound.indexed.received known missing fine nonempty
  flagged := sound.flagged.congr rfl
    (sound.indexed.kept_received count known missing fine failed fun _ => rfl)
    (sound.indexed.kept_received count known missing fine failedValid fun _ => rfl) rfl
  active := sound.active.received count known missing fine sound.indexed
  ranked := sound.ranked.received count known missing fine sound.indexed

theorem receivedBlockTransactions_spec (sound : s.Sound env s.tip) :
    (s.receivedBlockTransactions env b count).Sound env s.tip ∧
      Arrival b s (s.receivedBlockTransactions env b count) ∧
      (s.Filed → (∀ p ∈ s.tree.pprev b, (s.marks p).nChainTx ≠ 0 ∨ (s.marks p).failed = false) →
        (s.receivedBlockTransactions env b count).Filed) := by
  obtain ⟨noTx, noChainTx, _⟩ := sound.indexed.of_missing known missing
  obtain ⟨p, prev⟩ : ∃ p, s.tree.pprev b = some p := by
    rw [← ne_none_iff_exists']
    intro root
    rw [eq_genesis_of_pprev known root] at noTx
    exact (sound.indexed.consistent _ s.tree.root).linked sound.indexed.genesis noTx
  have other : p ≠ b := by
    rintro rfl
    exact absurd (nHeight_of_pprev prev) (Nat.succ_ne_self _).symm
  have after := sound.received known missing fine nonempty
  have nChainTx := sound.indexed.kept_received count known missing fine nChainTx fun _ => rfl
  have marks : ∀ x ≠ b, (s.received b count).marks x = s.marks x := by
    intro x other
    rw [sound.indexed.marks_received count known missing fine, if_neg other]
  have data : ((s.received b count).marks b).nTx ≠ 0 := by
    rw [sound.indexed.marks_received count known missing fine, if_pos rfl]
    exact nonempty
  have unlinked : ((s.received b count).marks b).nChainTx = 0 := (nChainTx b).trans noChainTx
  have filed : s.Filed → (s.received b count).FiledBut [b] := by
    intro filed x knownX dataX unlinkedX
    by_cases same : x = b
    · exact .inl (mem_singleton.2 same)
    · rw [marks x same] at dataX unlinkedX
      exact .inr (filed x knownX dataX unlinkedX)
  rw [receivedBlockTransactions_eq prev, marks p other]
  split
  · rename_i linked
    have ready : (s.received b count).Ready b :=
      ⟨⟨p, prev, by rw [marks p other]; exact linked⟩, data, unlinked⟩
    have queued : (s.received b count).Queued env b [b] :=
      ⟨after, nodup_singleton b, forall_mem_singleton.2 ready,
        forall_mem_singleton.2 (.refl b)⟩
    obtain ⟨sound, arrival, filedAfter⟩ := linkQueue_spec queued
      (show 1 + s.mapBlocksUnlinked.length ≤ s.mapBlocksUnlinked.length + 1 by omega)
    exact ⟨sound, ⟨arrival.tree, arrival.tip, arrival.blockDisconnected, arrival.candidates⟩,
      fun isFiled _ => filedAfter (filed isFiled)⟩
  · rename_i notLinked
    rw [not_not] at notLinked
    split
    · refine ⟨after.wait prev data ((nChainTx p).trans notLinked) fun mem =>
        (sound.indexed.waiting _ mem).2.1 noTx, ⟨.refl _, rfl, rfl, fun _ mem => .inl mem⟩,
        fun isFiled _ x knownX dataX unlinkedX => ?_⟩
      rcases filed isFiled x knownX dataX unlinkedX with mem | ⟨q, prevX, waits⟩
      · rw [mem_singleton.1 mem]
        exact ⟨p, prev, mem_cons_self ..⟩
      · exact ⟨q, prevX, mem_cons_of_mem _ waits⟩
    · rename_i invalid
      refine ⟨after, ⟨.refl _, rfl, rfl, fun _ mem => .inl mem⟩, fun _ useful => ?_⟩
      have tree := (sound.indexed.consistent p (isSome_of_pprev prev).2).tree
      have flagless := (useful p prev).resolve_left fun linked => linked notLinked
      exact (invalid (isValid_eq_true.2 ⟨flagless, tree⟩)).elim

end

theorem Sound.not_anc_tip (sound : s.Sound env floor) (missing : (s.marks b).haveData = false) :
    ¬ s.tree.Anc b s.tip := by
  intro anc
  have known := sound.active.usable.known
  have data := sound.indexed.nTx_of_anc known anc sound.active.usable.linked
  rw [(sound.indexed.consistent b (isSome_of_anc anc known)).data.2 data] at missing
  cases missing

/-- How `AcceptBlock` ends once the header is accepted: nothing changes, the block is found invalid, or
its data is stored. -/
theorem acceptBlockData_cases (env : ChainEnv) (s : CChainState) (b : H256) (count : Nat)
    (checks : BlockChecks) (fRequested : Bool) :
    (∃ accepted, s.acceptBlockData env b count checks fRequested = (s, accepted)) ∨
    (s.marks b).haveData = false ∧ ((checks.checkBlock = .invalid ∨ count = 0) ∧
      s.acceptBlockData env b count checks fRequested = (s.markWhere (· = b) .failValid, false) ∨
    count ≠ 0 ∧ s.acceptBlockData env b count checks fRequested =
      (s.receivedBlockTransactions env b count, true)) := by
  unfold acceptBlockData
  split
  · exact .inl ⟨_, rfl⟩
  split
  · exact .inl ⟨_, rfl⟩
  rename_i new
  rw [Bool.or_eq_true, not_or, Bool.not_eq_true] at new
  split
  · exact .inl ⟨_, rfl⟩
  · rename_i invalid
    exact .inr ⟨new.1, .inl ⟨.inl invalid, rfl⟩⟩
  · split
    · rename_i empty
      exact .inr ⟨new.1, .inl ⟨.inr empty, rfl⟩⟩
    · rename_i nonempty
      exact .inr ⟨new.1, .inr ⟨nonempty, rfl⟩⟩

theorem acceptBlockData_spec (sound : s.Sound env s.tip) (known : (s.tree.index b).isSome)
    (fine : b = s.tree.genesis ∨ (s.marks b).failed = false) (count : Nat) (checks : BlockChecks)
    (fRequested : Bool) :
    (s.acceptBlockData env b count checks fRequested).1.Sound env s.tip ∧
      Arrival b s (s.acceptBlockData env b count checks fRequested).1 ∧
      (s.Filed → (∀ p ∈ s.tree.pprev b, (s.marks p).nChainTx ≠ 0 ∨ (s.marks p).failed = false) →
        (s.acceptBlockData env b count checks fRequested).1.Filed) := by
  rcases acceptBlockData_cases env s b count checks fRequested with
    ⟨_, same⟩ | ⟨missing, ⟨_, invalid⟩ | ⟨nonempty, stored⟩⟩
  · rw [same]
    exact ⟨sound, .refl b s, fun filed _ => filed⟩
  · rw [invalid]
    have unused := sound.not_anc_tip missing
    have flags : Flags s.tip s (s.markWhere (· = b) .failValid) := .of_marks (P := (· = b))
      (fun x => by simp [markWhere]) rfl rfl rfl rfl rfl alike_failValid (fun _ => rfl)
      (fun x same => same ▸ ⟨unused, unused⟩) (fun _ mem => mem) fun _ mem => .inl mem
    exact ⟨sound.failValid flags known (fun x => by simp [markWhere]) fun _ mem => .inr mem,
      ⟨.refl _, rfl, rfl, fun _ mem => .inl mem⟩, fun filed _ => flags.frame.filed filed⟩
  · rw [stored]
    refine receivedBlockTransactions_spec known missing (fine.resolve_left ?_) nonempty sound
    rintro rfl
    exact sound.not_anc_tip missing (genesis_anc sound.active.usable.known)

theorem acceptBlock_spec (sound : s.Sound env s.tip) (block : CBlock) (checks : BlockChecks)
    (fRequested : Bool) :
    (s.acceptBlock env block checks fRequested).1.Sound env s.tip ∧
      Arrival (env.hashHeader block.toCBlockHeader) s (s.acceptBlock env block checks fRequested).1 ∧
      (s.Filed → (∀ p ∈ s.tree.pprev (env.hashHeader block.toCBlockHeader),
          (s.marks p).nChainTx ≠ 0 ∨ (s.marks p).failed = false) →
        (s.acceptBlock env block checks fRequested).1.Filed) := by
  obtain ⟨after, filed, arrival⟩ := acceptBlockHeader_spec sound block.toCBlockHeader checks.toHeaderChecks
  unfold acceptBlock
  rcases acceptBlockHeader_cases env s block.toCBlockHeader checks.toHeaderChecks with
    ⟨accepted, same, known⟩ | ⟨failed, _, _, marked⟩ | ⟨prev, fresh, found, fine, _, added⟩
  · rw [same]
    cases accepted with
    | false => exact ⟨sound, .refl _ s, fun filed _ => filed⟩
    | true =>
      rcases known rfl with root | ⟨known, fine⟩
      · exact acceptBlockData_spec sound (root ▸ s.tree.root) (.inl root) _ _ _
      · exact acceptBlockData_spec sound known (.inr fine) _ _ _
  · rw [marked] at after filed arrival ⊢
    exact ⟨after, arrival, fun isFiled _ => filed isFiled⟩
  · rw [added] at after filed arrival ⊢
    have positive := env.getBlockProof_pos block.toCBlockHeader
    have marksNew := marks_addToBlockIndex env s block.toCBlockHeader
    obtain ⟨soundData, arrivalData, filedData⟩ := acceptBlockData_spec after
      ((isSome_addToBlockIndex positive fresh found).2 (.inl rfl))
      (.inr (by rw [marksNew, if_pos rfl]; rfl)) block.vtx.length checks fRequested
    refine ⟨soundData, arrival.trans arrivalData, fun isFiled _ => filedData (filed isFiled) ?_⟩
    intro p isPrev
    obtain rfl : block.hashPrevBlock = p :=
      some.inj ((pprev_addToBlockIndex positive fresh found).symm.trans isPrev)
    refine .inr ?_
    rw [marksNew, if_neg]
    · exact fine
    · intro same
      rw [same, fresh] at found
      cases found

end CChainState
end Artax
