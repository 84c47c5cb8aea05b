import Artax.Chain.CheckBlockIndex

/-!
# What holds of the chain state

The invariants behind `CheckBlockIndex`: what is known of each block agrees with itself and its
predecessor, a failure has a cause, the active chain can be used, and the candidates are all blocks
not worse than a floor that were not found invalid.
-/

namespace Artax

open BlockValidity BlockTree

theorem BlockValidity.level_le_scripts (validity : BlockValidity) :
    validity.level ≤ scripts.level := by
  cases validity <;> decide

namespace BlockMarks

/-- What the flags and counters of one block say agrees. -/
structure Consistent (m : BlockMarks) : Prop where
  data : m.haveData = true ↔ m.nTx ≠ 0
  undo : m.haveUndo = true → m.haveData = true
  tree : tree.level ≤ m.validity.level
  transactions : transactions.level ≤ m.validity.level ↔ m.nTx ≠ 0
  linked : m.nChainTx ≠ 0 → m.nTx ≠ 0
  unlinked : m.nChainTx = 0 → m.nSequenceId ≤ 0

/-- They differ in failure flags at most. -/
def Alike (m m' : BlockMarks) : Prop := m.unfail = m'.unfail

namespace Alike

variable {m m' : BlockMarks}

section

variable (alike : Alike m m')
include alike

theorem nTx : m.nTx = m'.nTx := by
  simpa [unfail] using congrArg BlockMarks.nTx alike

theorem nChainTx : m.nChainTx = m'.nChainTx := by
  simpa [unfail] using congrArg BlockMarks.nChainTx alike

theorem nSequenceId : m.nSequenceId = m'.nSequenceId := by
  simpa [unfail] using congrArg BlockMarks.nSequenceId alike

theorem validity : m.validity = m'.validity := by
  simpa [unfail] using congrArg BlockMarks.validity alike

theorem haveData : m.haveData = m'.haveData := by
  simpa [unfail] using congrArg BlockMarks.haveData alike

theorem consistent (c : m'.Consistent) : m.Consistent := by
  have same : m.unfail.Consistent := by
    rw [alike]
    exact ⟨c.data, c.undo, c.tree, c.transactions, c.linked, c.unlinked⟩
  exact ⟨same.data, same.undo, same.tree, same.transactions, same.linked, same.unlinked⟩

end

end Alike

theorem alike_failValid (m : BlockMarks) : m.failValid.Alike m := rfl

theorem alike_failChild (m : BlockMarks) : m.failChild.Alike m := rfl

theorem failed_failChild (m : BlockMarks) : m.failChild.failed := Bool.or_true _

variable {m : BlockMarks} {nUpTo : BlockValidity}

theorem raiseValidity_of_lt (fine : m.failed = false) (lower : m.validity.level < nUpTo.level) :
    m.raiseValidity nUpTo = { m with validity := nUpTo } := by
  rw [raiseValidity, fine, if_neg Bool.false_ne_true, if_pos lower]

theorem raiseValidity_scripts (fine : m.failed = false) :
    m.raiseValidity .scripts = { m with validity := .scripts } := by
  rw [raiseValidity, fine, if_neg Bool.false_ne_true]
  split
  · rfl
  · rename_i highest
    obtain ⟨_, _, _, validity, _, _, _, _⟩ := m
    cases validity <;> simp [level] at highest ⊢

theorem isValid_eq_true :
    m.isValid nUpTo ↔ m.failed = false ∧ nUpTo.level ≤ m.validity.level := by
  simp [isValid]

end BlockMarks

namespace CChainState

variable {env : ChainEnv} {s s' : CChainState} {a b c p floor : H256}

/-! ## The order of the comparator -/

theorem rank_lt_iff : s.rank env a < s.rank env b ↔ s.tree.nChainWork a < s.tree.nChainWork b ∨
    s.tree.nChainWork a = s.tree.nChainWork b ∧ ((s.marks b).nSequenceId < (s.marks a).nSequenceId ∨
      (s.marks b).nSequenceId = (s.marks a).nSequenceId ∧ env.addr b < env.addr a) := by
  refine Prod.Lex.toLex_lt_toLex.trans (or_congr Iff.rfl (and_congr Iff.rfl ?_))
  refine Prod.Lex.toLex_lt_toLex.trans ?_
  omega

theorem worse_iff : s.worse env a b ↔ s.rank env a < s.rank env b := by
  rw [rank_lt_iff]
  unfold worse
  split_ifs <;> simp <;> omega

theorem worse_eq_false : s.worse env a b = false ↔ s.rank env b ≤ s.rank env a := by
  rw [← not_lt, ← worse_iff, Bool.not_eq_true]

theorem rank_injective (env : ChainEnv) (s : CChainState) : Function.Injective (s.rank env) := by
  intro a b same
  have addresses := congrArg (fun r => (ofLex (ofLex r).2).2) same
  exact env.addr_injective (by simpa [rank] using addresses)

theorem rank_lt_of_nChainWork (work : s.tree.nChainWork a < s.tree.nChainWork b) :
    s.rank env a < s.rank env b := rank_lt_iff.2 (.inl work)

theorem nChainWork_le_of_rank (le : s.rank env a ≤ s.rank env b) :
    s.tree.nChainWork a ≤ s.tree.nChainWork b := by
  by_contra more
  exact (rank_lt_of_nChainWork (not_le.1 more)).not_ge le

theorem rank_le_of_anc (anc : s.tree.Anc a b) : s.rank env a ≤ s.rank env b := by
  by_cases same : a = b
  · rw [same]
  · exact (rank_lt_of_nChainWork (nChainWork_lt_of_anc anc same)).le

theorem rank_eq (tree : s'.tree = s.tree)
    (sequence : (s'.marks b).nSequenceId = (s.marks b).nSequenceId) : s'.rank env b = s.rank env b := by
  rw [rank, rank, tree, sequence]

theorem rank_congr (tree : s'.tree = s.tree)
    (sequence : ∀ b, (s'.marks b).nSequenceId = (s.marks b).nSequenceId) :
    s'.rank env = s.rank env :=
  funext fun b => rank_eq tree (sequence b)

/-! ## The invariants -/

/-- How many transactions a block and its ancestors have. -/
def chainTx (s : CChainState) (b : H256) : Nat :=
  ((s.tree.links.line b).map fun a => (s.marks a).nTx).sum

/-- The data of the blocks and what waits for it. -/
structure Indexed (s : CChainState) : Prop where
  consistent : ∀ b, (s.tree.index b).isSome = true → (s.marks b).Consistent
  genesis : (s.marks s.tree.genesis).nChainTx ≠ 0
  linked : ∀ b p, s.tree.pprev b = some p → (s.marks b).nChainTx ≠ 0 → (s.marks p).nChainTx ≠ 0
  validity : ∀ b p, s.tree.pprev b = some p → p ≠ s.tree.genesis →
    chain.level ≤ (s.marks b).validity.level →
    (s.marks b).validity.level ≤ (s.marks p).validity.level
  waiting : ∀ entry ∈ s.mapBlocksUnlinked, s.tree.pprev entry.2 = some entry.1 ∧
    (s.marks entry.2).nTx ≠ 0 ∧ (s.marks entry.1).nChainTx = 0
  once : s.mapBlocksUnlinked.Nodup
  sequence : 0 < s.nBlockSequenceId
  reverse : s.nBlockReverseSequenceId < 0
  counted : ∀ b, (s.tree.index b).isSome = true → (s.marks b).nChainTx ≤ s.chainTx b

/-- Every failure comes from a block that was found invalid. -/
structure Flagged (s : CChainState) : Prop where
  caused : ∀ b, (s.tree.index b).isSome = true → (s.marks b).failed = true →
    ∃ a, s.tree.Anc a b ∧ (s.marks a).failedValid = true
  found : ∀ b ∈ s.failedBlocks, (s.tree.index b).isSome = true ∧ (s.marks b).failedValid = true

/-- A block that can be the tip: nothing is wrong with its chain. -/
structure Usable (env : ChainEnv) (s : CChainState) (b : H256) : Prop where
  known : (s.tree.index b).isSome = true
  linked : (s.marks b).nChainTx ≠ 0
  clean : ∀ a, s.tree.Anc a b → (s.marks a).failed = false
  connects : ∀ a, s.tree.Anc a b → a ≠ s.tree.genesis → env.connectBlock a = true

structure Active (env : ChainEnv) (s : CChainState) : Prop where
  usable : s.Usable env s.tip
  scripts : ∀ a, s.tree.Anc a s.tip → a ≠ s.tree.genesis → (s.marks a).validity = .scripts

structure Ranked (env : ChainEnv) (s : CChainState) (floor : H256) : Prop where
  usable : s.Usable env floor
  known : ∀ c ∈ s.setBlockIndexCandidates, (s.tree.index c).isSome = true
  linked : ∀ c ∈ s.setBlockIndexCandidates, (s.marks c).nChainTx ≠ 0
  above : ∀ c ∈ s.setBlockIndexCandidates, s.rank env floor ≤ s.rank env c
  complete : ∀ b, (s.tree.index b).isSome = true → (s.marks b).failed = false →
    (s.marks b).nChainTx ≠ 0 → s.rank env floor ≤ s.rank env b → b ∈ s.setBlockIndexCandidates

structure Sound (env : ChainEnv) (s : CChainState) (floor : H256) : Prop where
  indexed : s.Indexed
  flagged : s.Flagged
  active : s.Active env
  ranked : s.Ranked env floor

/-- A block with data but not all that of its ancestors waits for its predecessor. -/
def Filed (s : CChainState) : Prop :=
  ∀ b, (s.tree.index b).isSome = true → (s.marks b).nTx ≠ 0 → (s.marks b).nChainTx = 0 →
    ∃ p, s.tree.pprev b = some p ∧ (p, b) ∈ s.mapBlocksUnlinked

/-! ## Their parts -/

theorem chainTx_congr (tree : s'.tree = s.tree) (nTx : ∀ b, (s'.marks b).nTx = (s.marks b).nTx) :
    s'.chainTx b = s.chainTx b := by
  simp only [chainTx, tree, nTx]

theorem chainTx_of_pprev_none (root : s.tree.pprev b = none) : s.chainTx b = (s.marks b).nTx := by
  rw [chainTx, Util.ParentTree.line_of_root root, List.map_singleton, List.sum_singleton]

theorem chainTx_of_pprev (prev : s.tree.pprev b = some p) :
    s.chainTx b = (s.marks b).nTx + s.chainTx p := by
  rw [chainTx, Util.ParentTree.line_of_parent prev, List.map_cons, List.sum_cons, chainTx]

theorem linked_of_anc (linkedPrev : ∀ b p, s.tree.pprev b = some p → (s.marks b).nChainTx ≠ 0 →
      (s.marks p).nChainTx ≠ 0) (anc : s.tree.Anc a b) (linked : (s.marks b).nChainTx ≠ 0) :
    (s.marks a).nChainTx ≠ 0 := by
  induction b using s.tree.links.induct with
  | _ b ih =>
    rcases Util.ParentTree.anc_iff.1 anc with rfl | ⟨p, prev, anc⟩
    · exact linked
    · exact ih p prev anc (linkedPrev b p prev linked)

theorem Indexed.linked_of_anc (indexed : s.Indexed) (anc : s.tree.Anc a b)
    (linked : (s.marks b).nChainTx ≠ 0) : (s.marks a).nChainTx ≠ 0 :=
  CChainState.linked_of_anc indexed.linked anc linked

theorem Indexed.nTx_of_anc (indexed : s.Indexed) (known : (s.tree.index b).isSome)
    (anc : s.tree.Anc a b) (linked : (s.marks b).nChainTx ≠ 0) : (s.marks a).nTx ≠ 0 :=
  (indexed.consistent a (isSome_of_anc anc known)).linked (indexed.linked_of_anc anc linked)

theorem Indexed.congr (indexed : s.Indexed) (tree : s'.tree = s.tree)
    (marks : ∀ b, (s'.marks b).Alike (s.marks b))
    (unlinked : s'.mapBlocksUnlinked = s.mapBlocksUnlinked)
    (sequence : s'.nBlockSequenceId = s.nBlockSequenceId)
    (reverse : s'.nBlockReverseSequenceId = s.nBlockReverseSequenceId) : s'.Indexed := by
  have nTx := fun b => (marks b).nTx
  have nChainTx := fun b => (marks b).nChainTx
  have validity := fun b => (marks b).validity
  constructor
  · intro b known
    exact (marks b).consistent (indexed.consistent b (tree ▸ known))
  · rw [tree, nChainTx]
    exact indexed.genesis
  · intro b p
    rw [tree, nChainTx, nChainTx]
    exact indexed.linked b p
  · intro b p
    rw [tree, validity, validity]
    exact indexed.validity b p
  · intro entry
    rw [unlinked, tree, nTx, nChainTx]
    exact indexed.waiting entry
  · rw [unlinked]
    exact indexed.once
  · rw [sequence]
    exact indexed.sequence
  · rw [reverse]
    exact indexed.reverse
  · intro b known
    rw [nChainTx, chainTx_congr tree nTx]
    exact indexed.counted b (tree ▸ known)

theorem Flagged.congr (flagged : s.Flagged) (tree : s'.tree = s.tree)
    (failed : ∀ b, (s'.marks b).failed = (s.marks b).failed)
    (failedValid : ∀ b, (s'.marks b).failedValid = (s.marks b).failedValid)
    (found : s'.failedBlocks = s.failedBlocks) : s'.Flagged := by
  constructor
  · intro b
    rw [tree, failed]
    simp only [failedValid]
    exact flagged.caused b
  · intro b
    rw [found, tree, failedValid]
    exact flagged.found b

section

variable (usable : s.Usable env b)
include usable

theorem Usable.of_anc (linkedPrev : ∀ b p, s.tree.pprev b = some p →
      (s.marks b).nChainTx ≠ 0 → (s.marks p).nChainTx ≠ 0) (anc : s.tree.Anc a b) :
    s.Usable env a where
  known := isSome_of_anc anc usable.known
  linked := linked_of_anc linkedPrev anc usable.linked
  clean x ancX := usable.clean x (ancX.trans anc)
  connects x ancX := usable.connects x (ancX.trans anc)

theorem Usable.congr (tree : s'.tree = s.tree)
    (linked : (s'.marks b).nChainTx = (s.marks b).nChainTx)
    (clean : ∀ a, s.tree.Anc a b → (s'.marks a).failed = (s.marks a).failed) : s'.Usable env b := by
  constructor
  · rw [tree]
    exact usable.known
  · rw [linked]
    exact usable.linked
  · intro a anc
    rw [tree] at anc
    rw [clean a anc]
    exact usable.clean a anc
  · rw [tree]
    exact usable.connects

theorem Usable.not_anc_of_failed (failed : (s.marks a).failed) (below : s.tree.Anc a c) :
    ¬ s.tree.Anc c b := by
  intro anc
  rw [usable.clean a (below.trans anc)] at failed
  cases failed

theorem Usable.not_anc_of_invalid (prev : s.tree.pprev a = some p)
    (invalid : env.connectBlock a = false) : ¬ s.tree.Anc a b := by
  have other : a ≠ s.tree.genesis := by
    rintro rfl
    rw [pprev_genesis] at prev
    cases prev
  intro anc
  rw [usable.connects a anc other] at invalid
  cases invalid

end

theorem Usable.connect (usable : s.Usable env p) (prev : s.tree.pprev b = some p)
    (valid : env.connectBlock b) (linked : (s.marks b).nChainTx ≠ 0)
    (fine : (s.marks b).failed = false) : s.Usable env b where
  known := (isSome_of_pprev prev).1
  linked := linked
  clean a anc := ((anc_of_pprev prev).1 anc).elim (fun same => same ▸ fine) (usable.clean a)
  connects a anc other := ((anc_of_pprev prev).1 anc).elim (fun same => same ▸ valid)
    fun anc => usable.connects a anc other

theorem sound_start (env : ChainEnv) (genesis : H256) (nChainWork : Nat) (nTime : UInt32) :
    (start genesis nChainWork nTime).Sound env genesis := by
  have only : ∀ b, ((start genesis nChainWork nTime).tree.index b).isSome → b = genesis := by
    intro b known
    by_contra other
    simp [start, other] at known
  have prev : ∀ b p, (start genesis nChainWork nTime).tree.pprev b = some p → False := by
    intro b p prev
    obtain rfl := only b (isSome_of_pprev prev).1
    have := pprev_genesis (t := (start b nChainWork nTime).tree)
    rw [show (start b nChainWork nTime).tree.genesis = b from rfl, prev] at this
    cases this
  have root : ∀ a, (start genesis nChainWork nTime).tree.Anc a genesis → a = genesis := by
    intro a anc
    exact (anc_of_pprev_none (pprev_genesis (t := (start genesis nChainWork nTime).tree))).1 anc
  have marks : (start genesis nChainWork nTime).marks genesis =
      { nTx := 1, nChainTx := 1, nSequenceId := 1, validity := .transactions, haveData := true } :=
    if_pos rfl
  have usable : (start genesis nChainWork nTime).Usable env genesis := by
    refine ⟨by simp [start], by simp [marks], fun a anc => ?_, fun a anc other => ?_⟩
    · rw [root a anc, marks]
      rfl
    · exact (other (root a anc)).elim
  refine ⟨⟨fun b known => ?_, ?_, fun b p parent => (prev b p parent).elim,
    fun b p parent => (prev b p parent).elim, by simp [start], by simp [start], by simp [start],
    by simp [start], fun b known => ?_⟩, ⟨fun b known failed => ?_, by simp [start]⟩, ⟨usable, fun a anc other => ?_⟩,
    ⟨usable, ?_, ?_, ?_, fun b known _ _ _ => ?_⟩⟩
  · rw [only b known, marks]
    exact ⟨by decide, by decide, by decide, by decide, by decide, by decide⟩
  · change ((start genesis nChainWork nTime).marks genesis).nChainTx ≠ 0
    simp [marks]
  · have alone := chainTx_of_pprev_none (pprev_genesis (t := (start genesis nChainWork nTime).tree))
    change (start genesis nChainWork nTime).chainTx genesis = _ at alone
    rw [only b known, alone, marks]
    exact le_of_eq (congrArg BlockMarks.nTx marks).symm
  · rw [only b known, marks] at failed
    cases failed
  · exact (other (root a anc)).elim
  · intro c mem
    rw [List.mem_singleton.1 mem]
    exact usable.known
  · intro c mem
    rw [List.mem_singleton.1 mem]
    exact usable.linked
  · intro c mem
    rw [List.mem_singleton.1 mem]
  · exact List.mem_singleton.2 (only b known)

end CChainState
end Artax
