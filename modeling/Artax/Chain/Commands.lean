import Artax.Chain.Upkeep

/-!
# What the commands that change validity keep

The invariants through `InvalidateBlock`, `ResetBlockFailureFlags` and `PreciousBlock`. The first
keeps all of them, the second if no ancestor of the block has a flag, the third if the block is not
the tip or its number does not grow.
-/

namespace Artax

open List BlockMarks

namespace CChainState

variable {env : ChainEnv} {s s' : CChainState} {a b floor : H256}

theorem Filed.congr (filed : s.Filed) (tree : s'.tree = s.tree)
    (nTx : ∀ b, (s'.marks b).nTx = (s.marks b).nTx)
    (nChainTx : ∀ b, (s'.marks b).nChainTx = (s.marks b).nChainTx)
    (unlinked : s'.mapBlocksUnlinked = s.mapBlocksUnlinked) : s'.Filed := by
  intro b
  rw [tree, nTx, nChainTx, unlinked]
  exact filed b

/-! ## Blocks declared invalid -/

theorem mem_restoreCandidates {c : H256} : c ∈ (s.restoreCandidates env).setBlockIndexCandidates ↔
    c ∈ s.setBlockIndexCandidates ∨ (s.tree.index c).isSome ∧
      (s.marks c).isValid .transactions ∧ (s.marks c).nChainTx ≠ 0 ∧
      s.rank env s.tip ≤ s.rank env c := by
  simp only [restoreCandidates, mem_union_iff, mem_filter, s.tree.mem_known,
    Bool.and_eq_true, bne_iff_ne, Bool.not_eq_true', worse_eq_false, and_assoc]

theorem Sound.restoreCandidates (sound : s.Sound env floor)
    (lower : s.rank env s.tip ≤ s.rank env floor) : (s.restoreCandidates env).Sound env s.tip := by
  refine sound.select sound.active.usable (fun c mem => ?_) (fun c mem => ?_) (fun c mem => ?_)
    fun b known fine linked above => ?_
  · exact (mem_restoreCandidates.1 mem).elim (sound.ranked.known c) And.left
  · exact (mem_restoreCandidates.1 mem).elim (sound.ranked.linked c) fun other => other.2.2.1
  · exact (mem_restoreCandidates.1 mem).elim (fun mem => lower.trans (sound.ranked.above c mem))
      fun other => other.2.2.2
  · have consistent := sound.indexed.consistent b known
    exact mem_restoreCandidates.2 (.inr ⟨known, isValid_eq_true.2
      ⟨fine, consistent.transactions.2 (consistent.linked linked)⟩, linked, above⟩)

theorem marks_markInvalid (s : CChainState) (b : H256) (walk : List H256) (x : H256) :
    (s.markInvalid b walk).marks x =
      if x ∈ walk then (if x = b then (s.marks x).failValid else s.marks x).failChild
      else if x = b then (s.marks x).failValid else s.marks x := by
  simp only [CChainState.markInvalid, markWhere, decide_eq_true_eq]
  split_ifs <;> rfl

theorem alike_markInvalid (s : CChainState) (b : H256) (walk : List H256) (x : H256) :
    ((s.markInvalid b walk).marks x).Alike (s.marks x) := by
  rw [marks_markInvalid]
  split_ifs <;> rfl

theorem Sound.markInvalid {walk : List H256} (sound : s.Sound env floor)
    (lower : s.rank env s.tip ≤ s.rank env floor) (known : (s.tree.index b).isSome)
    (apart : ¬ s.tree.Anc b s.tip) (above : ∀ x ∈ walk, s.tree.Anc b x) :
    ((s.markInvalid b walk).restoreCandidates env).Sound env s.tip := by
  have restored := sound.restoreCandidates lower
  -- the candidates without the marks are those with them and more
  let marked : CChainState := { s.restoreCandidates env with
    marks := fun x => if x = b then (s.marks x).failValid else s.marks x
    failedBlocks := s.failedBlocks.insert b }
  have soundMarked : marked.Sound env s.tip :=
    restored.failValid (.of_marks (fun _ => rfl) rfl rfl rfl rfl rfl alike_failValid (fun _ => rfl)
      (fun x same => same ▸ ⟨apart, apart⟩) (fun c mem => mem) fun c mem => .inl mem) known
      (fun _ => rfl) fun x mem => mem_insert_iff.1 mem
  have failedHere : (marked.marks b).failed := by
    change (if b = b then (s.marks b).failValid else s.marks b).failed = true
    rw [if_pos rfl]
    rfl
  have alike := alike_markInvalid s b walk
  have ranks : (s.markInvalid b walk).rank env = s.rank env :=
    rank_congr rfl fun x => (alike x).nSequenceId
  have flagged : ∀ x, (x ∈ walk ∨ x = b ∨ (s.marks x).failed) →
      ((s.markInvalid b walk).marks x).failed := by
    intro x why
    rw [marks_markInvalid]
    rcases why with mem | same | failed
    · rw [if_pos mem]
      exact failed_failChild _
    · rw [if_pos same]
      split_ifs <;> simp [BlockMarks.failed, BlockMarks.failValid, BlockMarks.failChild]
    · rw [BlockMarks.failed, Bool.or_eq_true] at failed
      split_ifs <;> simp [BlockMarks.failed, BlockMarks.failValid, BlockMarks.failChild, failed]
  have unused := fun x mem => soundMarked.active.usable.not_anc_of_failed failedHere (above x mem)
  refine soundMarked.failChildren (.of_marks (marks_markInvalid s b walk) rfl rfl rfl rfl rfl
    alike_failChild failed_failChild (fun x mem => ⟨unused x mem, unused x mem⟩) (fun c mem => ?_)
    fun c mem => ?_) known failedHere above (marks_markInvalid s b walk) rfl
  · refine mem_restoreCandidates.2 ((mem_restoreCandidates.1 mem).imp (fun kept => ?_) fun other => ?_)
    · exact (mem_filter.1 kept).1
    · obtain ⟨knownC, valid, linked, notWorse⟩ := other
      rw [BlockMarks.isValid_eq_true, (alike c).validity] at valid
      rw [(alike c).nChainTx] at linked
      rw [ranks] at notWorse
      have fine : (s.marks c).failed = false := by
        by_contra failed
        rw [flagged c (.inr (.inr (Bool.not_eq_false _ ▸ failed)))] at valid
        cases valid.1
      exact ⟨knownC, BlockMarks.isValid_eq_true.2 ⟨fine, valid.2⟩, linked, notWorse⟩
  · by_cases failed : ((s.markInvalid b walk).marks c).failed = true
    · exact .inr failed
    · refine .inl (mem_restoreCandidates.2 ((mem_restoreCandidates.1 mem).imp (fun kept => ?_)
        fun other => ?_))
      · refine mem_filter.2 ⟨kept, decide_eq_true ⟨fun inWalk => ?_, fun same => ?_⟩⟩
        · exact failed (flagged c (.inl inWalk))
        · exact failed (flagged c (.inr (.inl same)))
      · obtain ⟨knownC, valid, linked, notWorse⟩ := other
        rw [BlockMarks.isValid_eq_true] at valid ⊢
        rw [(alike c).validity, (alike c).nChainTx, ranks]
        exact ⟨knownC, ⟨Bool.eq_false_iff.2 failed, valid.2⟩, linked, notWorse⟩

/-- `InvalidateBlock` takes the tip back to a block that does not descend from the invalid one, and
marks the active blocks over that. -/
theorem invalidateBlock_cases (ran : s.invalidateBlock env b = some s') :
    (s.tree.index b).isSome ∧ ∃ tip log walk, s.tree.Anc tip s.tip ∧ ¬ s.tree.Anc b tip ∧
      (∀ x ∈ walk, s.tree.Anc b x) ∧
      (∀ x, s.tree.Anc b x → s.tree.Anc x s.tip → x = b ∨ x ∈ walk) ∧
      s' = (({ s with tip, blockDisconnected := log } : CChainState).markInvalid b walk).restoreCandidates
        env := by
  unfold invalidateBlock at ran
  dsimp only at ran
  split at ran
  · cases ran
  rename_i known
  rw [Option.isNone_iff_eq_none, ← ne_eq, ← Option.isSome_iff_ne_none] at known
  simp only [disconnectTips, Option.map_map, Option.map_eq_some_iff, Function.comp_apply] at ran
  obtain ⟨tip, found, rfl⟩ := ran
  obtain ⟨ancTip, apart, _⟩ := Util.ParentTree.find?_line_eq_some found
  rw [Bool.not_eq_true', decide_eq_false_iff_not] at apart
  refine ⟨known, tip, _, _, ancTip, apart, fun x mem => ?_, fun x above active => ?_, rfl⟩
  · split at mem
    · rename_i active
      rw [contains, decide_eq_true_eq] at active
      exact Util.ParentTree.Anc.of_mem_takeWhile_ne active mem
    · cases mem
  · have contained := above.trans active
    rw [if_pos (by rw [contains, decide_eq_true_eq]; exact contained)]
    by_cases same : x = b
    · exact .inl same
    · exact .inr ((Util.ParentTree.mem_takeWhile_ne contained).2
        ⟨active, fun below => same (below.antisymm above)⟩)

theorem invalidateBlock_spec (sound : s.Sound env s.tip) (ran : s.invalidateBlock env b = some s') :
    s'.Sound env s'.tip ∧ (s.Filed → s'.Filed) := by
  obtain ⟨known, tip, log, walk, ancTip, apart, above, _, rfl⟩ := invalidateBlock_cases ran
  have lowered := sound.disconnect ancTip log
  refine ⟨lowered.markInvalid (rank_le_of_anc (s := s) ancTip) known apart above, fun filed =>
    filed.congr rfl (fun x => ?_) (fun x => ?_) rfl⟩
  · exact (alike_markInvalid _ b walk x).nTx
  · exact (alike_markInvalid _ b walk x).nChainTx

/-! ## Flags taken back -/

def cleared (s : CChainState) (pindex b : H256) : Bool :=
  !(s.marks b).isValid .transactions && decide (s.tree.Anc pindex b)

theorem marks_clearDescendants (env : ChainEnv) (s : CChainState) (b x : H256) :
    (s.clearDescendants env b).marks x =
      if (s.tree.index x).isSome && s.cleared b x then (s.marks x).unfail else s.marks x := rfl

theorem alike_clearDescendants (env : ChainEnv) (s : CChainState) (b x : H256) :
    ((s.clearDescendants env b).marks x).Alike (s.marks x) := by
  rw [marks_clearDescendants]
  split <;> rfl

theorem mem_clearDescendants {c : H256} :
    c ∈ (s.clearDescendants env b).setBlockIndexCandidates ↔ c ∈ s.setBlockIndexCandidates ∨
      (s.tree.index c).isSome ∧ s.cleared b c ∧
        ((s.clearDescendants env b).marks c).isValid .transactions ∧
        (s.marks c).nChainTx ≠ 0 ∧ s.rank env s.tip < s.rank env c := by
  change c ∈ s.setBlockIndexCandidates ∪ s.tree.known.filter (fun x => s.cleared b x &&
    ((s.clearDescendants env b).marks x).isValid .transactions && (s.marks x).nChainTx != 0 &&
    s.worse env s.tip x) ↔ _
  simp only [mem_union_iff, mem_filter, s.tree.mem_known, Bool.and_eq_true, bne_iff_ne,
    worse_iff, and_assoc]

/-- What is not cleared keeps its flags. -/
theorem marks_of_not_cleared (not : s.cleared b a = false) :
    (s.clearDescendants env b).marks a = s.marks a := by
  rw [marks_clearDescendants, not, Bool.and_false, if_neg Bool.false_ne_true]

theorem failed_clearDescendants (fine : (s.marks a).failed = false) :
    ((s.clearDescendants env b).marks a).failed = false := by
  rw [marks_clearDescendants]
  split
  · rfl
  · exact fine

/-- A flag that is left was there, and not over the block. -/
theorem was_failed (failed : ((s.clearDescendants env b).marks a).failed)
    (known : (s.tree.index a).isSome) : (s.marks a).failed ∧ ¬ s.tree.Anc b a := by
  have was : (s.marks a).failed := by
    by_contra fine
    rw [failed_clearDescendants (Bool.eq_false_iff.2 fine)] at failed
    cases failed
  refine ⟨was, fun anc => ?_⟩
  have cleared : s.cleared b a := by
    simp [CChainState.cleared, isValid, was, anc]
  rw [marks_clearDescendants, known, cleared] at failed
  cases failed

theorem Flagged.clearDescendants (flagged : s.Flagged) : (s.clearDescendants env b).Flagged := by
  constructor
  case caused =>
    intro x known failed
    obtain ⟨was, apart⟩ := was_failed failed known
    obtain ⟨a, anc, valid⟩ := flagged.caused x known was
    have not : s.cleared b a = false := by
      have apart : ¬ s.tree.Anc b a := fun below => apart (below.trans anc)
      simp [CChainState.cleared, apart]
    exact ⟨a, anc, by rw [marks_of_not_cleared not]; exact valid⟩
  case found =>
    intro x mem
    obtain ⟨mem, not⟩ := mem_filter.1 mem
    rw [Bool.not_eq_true'] at not
    rw [marks_of_not_cleared not]
    exact flagged.found x mem

theorem Usable.clearDescendants (usable : s.Usable env a) :
    (s.clearDescendants env b).Usable env a where
  known := usable.known
  linked := by
    rw [(alike_clearDescendants env s b a).nChainTx]
    exact usable.linked
  clean x anc := failed_clearDescendants (usable.clean x anc)
  connects := usable.connects

theorem Ranked.clearDescendants (ranked : s.Ranked env s.tip) (indexed : s.Indexed) :
    (s.clearDescendants env b).Ranked env s.tip := by
  have alike := alike_clearDescendants env s b
  have ranks : (s.clearDescendants env b).rank env = s.rank env :=
    rank_congr rfl fun x => (alike x).nSequenceId
  constructor
  case usable => exact ranked.usable.clearDescendants
  case known => exact fun c mem => (mem_clearDescendants.1 mem).elim (ranked.known c) And.left
  case linked =>
    intro c mem
    rw [(alike c).nChainTx]
    exact (mem_clearDescendants.1 mem).elim (ranked.linked c) fun other => other.2.2.2.1
  case above =>
    intro c mem
    rw [ranks]
    exact (mem_clearDescendants.1 mem).elim (ranked.above c) fun other => other.2.2.2.2.le
  case complete =>
    intro x known fine linked above
    rw [(alike x).nChainTx] at linked
    rw [ranks] at above
    rw [mem_clearDescendants]
    by_cases was : (s.marks x).failed = true
    · -- a block that was cleared is not the tip
      have cleared : s.cleared b x := by
        by_contra not
        rw [marks_of_not_cleared (Bool.eq_false_iff.2 not), was] at fine
        cases fine
      have consistent := indexed.consistent x known
      refine .inr ⟨known, cleared, isValid_eq_true.2 ⟨fine, ?_⟩, linked,
        above.lt_of_ne fun same => ?_⟩
      · rw [(alike x).validity]
        exact consistent.transactions.2 (consistent.linked linked)
      · rw [← rank_injective env s same, ranked.usable.clean _ (.refl _)] at was
        cases was
    · exact .inl (ranked.complete x known (Bool.eq_false_iff.2 was) linked above)

theorem Sound.clearDescendants (sound : s.Sound env s.tip) (b : H256) :
    (s.clearDescendants env b).Sound env s.tip ∧ ∀ x, (s.tree.index x).isSome →
      s.tree.Anc b x → ((s.clearDescendants env b).marks x).failed = false := by
  have alike := alike_clearDescendants env s b
  refine ⟨⟨sound.indexed.congr rfl alike rfl rfl rfl, sound.flagged.clearDescendants,
    ⟨sound.active.usable.clearDescendants, fun a => ?_⟩,
    sound.ranked.clearDescendants sound.indexed⟩, fun x known anc => ?_⟩
  · rw [(alike a).validity]
    exact sound.active.scripts a
  · by_contra failed
    exact (was_failed (Bool.not_eq_false _ ▸ failed) known).2 anc

theorem clearAncestors_eq (clean : ∀ a, s.tree.Anc a b → (s.marks a).failed = false) :
    s.clearAncestors b = s := by
  have none : ∀ a, ((s.marks a).failed && decide (s.tree.Anc a b)) = false := by
    intro a
    by_cases anc : s.tree.Anc a b
    · rw [clean a anc, Bool.false_and]
    · rw [decide_eq_false anc, Bool.and_false]
  simp only [clearAncestors, markWhere, none, Bool.false_eq_true, if_false, Bool.not_false,
    filter_true]

theorem resetBlockFailureFlags_spec (sound : s.Sound env s.tip)
    (known : (s.tree.index b).isSome)
    (clean : ∀ a, s.tree.Anc a b → a ≠ b → (s.marks a).failed = false) :
    (s.resetBlockFailureFlags env b).Sound env (s.resetBlockFailureFlags env b).tip ∧
      (s.Filed → (s.resetBlockFailureFlags env b).Filed) := by
  obtain ⟨after, cleared⟩ := sound.clearDescendants b
  have eq : s.resetBlockFailureFlags env b = s.clearDescendants env b := by
    refine clearAncestors_eq fun a anc => ?_
    by_cases same : a = b
    · subst same
      exact cleared a known (.refl a)
    · rw [marks_clearDescendants]
      split
      · rfl
      · exact clean a anc same
  rw [eq]
  have alike := alike_clearDescendants env s b
  exact ⟨after, fun filed => filed.congr rfl (fun x => (alike x).nTx) (fun x => (alike x).nChainTx) rfl⟩

/-! ## Precious blocks -/

theorem preciousSequenceId_neg (sound : s.Sound env floor) : s.preciousSequenceId < 0 := by
  have := sound.indexed.reverse
  unfold preciousSequenceId
  split <;> omega

/-- A block gets another number; it may become a candidate, and those worse than the tip are none any
more. -/
structure Renumbered (env : ChainEnv) (b : H256) (id : Int) (s s' : CChainState) : Prop where
  tree : s'.tree = s.tree
  tip : s'.tip = s.tip
  marks : ∀ x, s'.marks x = if x = b then { s.marks x with nSequenceId := id } else s.marks x
  unlinked : s'.mapBlocksUnlinked = s.mapBlocksUnlinked
  sequence : s'.nBlockSequenceId = s.nBlockSequenceId
  reverse : s'.nBlockReverseSequenceId < 0
  failedBlocks : s'.failedBlocks = s.failedBlocks
  candidates : ∀ c, c ∈ s'.setBlockIndexCandidates ↔ (c ∈ s.setBlockIndexCandidates ∧ c ≠ b ∨
    c = b ∧ (s.marks b).isValid .transactions ∧ (s.marks b).nChainTx ≠ 0) ∧
    s'.rank env s.tip ≤ s'.rank env c

section

variable {id : Int} (step : Renumbered env b id s s')
include step

theorem Renumbered.kept {α : Type} (f : BlockMarks → α)
    (agrees : ∀ m : BlockMarks, f { m with nSequenceId := id } = f m) (x : H256) :
    f (s'.marks x) = f (s.marks x) := by
  rw [step.marks]
  split
  · exact agrees _
  · rfl

theorem Renumbered.failed (x : H256) : (s'.marks x).failed = (s.marks x).failed :=
  step.kept BlockMarks.failed (fun _ => rfl) x

theorem Renumbered.nChainTx (x : H256) : (s'.marks x).nChainTx = (s.marks x).nChainTx :=
  step.kept BlockMarks.nChainTx (fun _ => rfl) x

theorem Renumbered.rank (other : a ≠ b) : s'.rank env a = s.rank env a := by
  rw [CChainState.rank, CChainState.rank, step.tree, step.marks, if_neg other]

theorem Renumbered.rank_tip_le (better : b = s.tip → id ≤ (s.marks b).nSequenceId) :
    s.rank env s.tip ≤ s'.rank env s.tip := by
  by_cases same : b = s.tip
  · -- only the number of the tip has changed
    subst same
    refine (lt_or_eq_of_le (better rfl)).elim (fun lower => ?_) fun equal => ?_
    · exact (Prod.Lex.toLex_lt_toLex.2 (.inr ⟨by rw [step.tree], Prod.Lex.toLex_lt_toLex.2 (.inl (by
        rw [step.marks, if_pos rfl]
        exact neg_lt_neg lower))⟩)).le
    · exact (rank_eq step.tree (by rw [step.marks, if_pos rfl]; exact equal)).ge
  · rw [step.rank (Ne.symm same)]

theorem Indexed.renumber (indexed : s.Indexed) (negative : id < 0) : s'.Indexed := by
  have nTx := step.kept BlockMarks.nTx fun _ => rfl
  have validity := step.kept BlockMarks.validity fun _ => rfl
  constructor
  case consistent =>
    intro x known
    have consistent := indexed.consistent x (step.tree ▸ known)
    rw [step.marks]
    split
    · exact ⟨consistent.data, consistent.undo, consistent.tree, consistent.transactions,
        consistent.linked, fun _ => negative.le⟩
    · exact consistent
  case genesis =>
    rw [step.tree, step.nChainTx]
    exact indexed.genesis
  case linked =>
    intro x p
    rw [step.tree, step.nChainTx, step.nChainTx]
    exact indexed.linked x p
  case validity =>
    intro x p
    rw [step.tree, validity, validity]
    exact indexed.validity x p
  case waiting =>
    intro entry
    rw [step.unlinked, step.tree, nTx, step.nChainTx]
    exact indexed.waiting entry
  case once =>
    rw [step.unlinked]
    exact indexed.once
  case sequence =>
    rw [step.sequence]
    exact indexed.sequence
  case reverse => exact step.reverse
  case counted =>
    intro x known
    rw [step.nChainTx, chainTx_congr step.tree nTx]
    exact indexed.counted x (step.tree ▸ known)

theorem Active.renumber (active : s.Active env) : s'.Active env where
  usable := step.tip ▸ active.usable.congr step.tree (step.nChainTx _) fun a _ => step.failed a
  scripts a := by
    rw [step.tip, step.tree, step.kept BlockMarks.validity fun _ => rfl]
    exact active.scripts a

theorem Ranked.renumber (ranked : s.Ranked env s.tip) (indexed : s.Indexed)
    (better : b = s.tip → id ≤ (s.marks b).nSequenceId) (known : (s.tree.index b).isSome) :
    s'.Ranked env s'.tip := by
  constructor
  case usable =>
    exact step.tip ▸ ranked.usable.congr step.tree (step.nChainTx _) fun a _ => step.failed a
  case known =>
    intro c mem
    rw [step.tree]
    rcases ((step.candidates c).1 mem).1 with ⟨mem, _⟩ | ⟨rfl, _⟩
    · exact ranked.known c mem
    · exact known
  case linked =>
    intro c mem
    rw [step.nChainTx]
    rcases ((step.candidates c).1 mem).1 with ⟨mem, _⟩ | ⟨rfl, _, linked⟩
    · exact ranked.linked c mem
    · exact linked
  case above =>
    intro c mem
    rw [step.tip]
    exact ((step.candidates c).1 mem).2
  case complete =>
    intro x knownX fine linked above
    rw [step.tree] at knownX
    rw [step.failed] at fine
    rw [step.nChainTx] at linked
    rw [step.tip] at above
    refine (step.candidates x).2 ⟨?_, above⟩
    by_cases same : x = b
    · subst same
      have consistent := indexed.consistent x knownX
      exact .inr ⟨rfl, isValid_eq_true.2
        ⟨fine, consistent.transactions.2 (consistent.linked linked)⟩, linked⟩
    · exact .inl ⟨ranked.complete x knownX fine linked
        ((step.rank_tip_le better).trans (step.rank same ▸ above)), same⟩

end

/-- A negative number that does not make the tip worse keeps the invariants. -/
theorem Sound.renumber {id : Int} (sound : s.Sound env s.tip) (negative : id < 0)
    (better : b = s.tip → id ≤ (s.marks b).nSequenceId) (known : (s.tree.index b).isSome)
    (step : Renumbered env b id s s') : s'.Sound env s'.tip where
  indexed := sound.indexed.renumber step negative
  flagged := sound.flagged.congr step.tree step.failed
    (step.kept BlockMarks.failedValid fun _ => rfl) step.failedBlocks
  active := sound.active.renumber step
  ranked := sound.ranked.renumber step sound.indexed better known

theorem makePrecious_spec (sound : s.Sound env s.tip) (known : (s.tree.index b).isSome)
    (better : b = s.tip → s.preciousSequenceId ≤ (s.marks b).nSequenceId)
    (ran : s.makePrecious env b = some s') : s'.Sound env s'.tip ∧ (s.Filed → s'.Filed) := by
  have negative := preciousSequenceId_neg sound
  have reverse : (if -2 ^ 31 < s.preciousSequenceId then s.preciousSequenceId - 1
      else s.preciousSequenceId) < 0 := by
    split <;> omega
  have marks : ∀ x, (s.markWhere (· = b) fun m => { m with nSequenceId := s.preciousSequenceId }).marks x =
      if x = b then { s.marks x with nSequenceId := s.preciousSequenceId } else s.marks x := by
    intro x
    simp [markWhere]
  have filed : ∀ s' : CChainState, s'.tree = s.tree → s'.mapBlocksUnlinked = s.mapBlocksUnlinked →
      s'.marks = (s.markWhere (· = b) fun m => { m with nSequenceId := s.preciousSequenceId }).marks →
      s.Filed → s'.Filed := by
    intro s' tree unlinked same filed
    refine filed.congr tree (fun x => ?_) (fun x => ?_) unlinked <;>
    · rw [same, marks]
      split <;> rfl
  unfold makePrecious at ran
  dsimp only at ran
  rw [marks b, if_pos rfl] at ran
  split at ran
  · rename_i usable
    simp only [pruneBlockIndexCandidates, Option.ite_none_left_eq_some, Option.some.injEq] at ran
    obtain ⟨_, rfl⟩ := ran
    refine ⟨sound.renumber negative better known ⟨rfl, rfl, marks, rfl, rfl, reverse, rfl, fun c => ?_⟩,
      filed _ rfl rfl rfl⟩
    rw [mem_filter, mem_insert_iff, mem_filter, Bool.not_eq_true', worse_eq_false,
      decide_eq_true_eq]
    refine and_congr_left fun _ => ⟨fun mem => mem.symm.imp_right fun same => ⟨same, ?_⟩,
      fun mem => mem.symm.imp_left And.left⟩
    exact ⟨(Bool.and_eq_true_iff.1 usable).1, by simpa using (Bool.and_eq_true_iff.1 usable).2⟩
  · rename_i unusable
    obtain rfl := Option.some.inj ran
    refine ⟨sound.renumber negative better known ⟨rfl, rfl, marks, rfl, rfl, reverse, rfl, fun c => ?_⟩,
      filed _ rfl rfl rfl⟩
    rw [mem_filter, decide_eq_true_eq]
    constructor
    · -- the tip can be a candidate, so it is another block
      rintro ⟨mem, other⟩
      have notTip : s.tip ≠ b := by
        rintro rfl
        have linked := sound.active.usable.linked
        have consistent := sound.indexed.consistent _ sound.active.usable.known
        have valid : (s.marks s.tip).isValid .transactions := isValid_eq_true.2
          ⟨sound.active.usable.clean _ (.refl _), consistent.transactions.2 (consistent.linked linked)⟩
        exact unusable (Bool.and_eq_true_iff.2 ⟨valid, by simpa using linked⟩)
      refine ⟨.inl ⟨mem, other⟩, ?_⟩
      refine (rank_eq ?_ ?_).trans_le ((sound.ranked.above c mem).trans_eq (rank_eq ?_ ?_).symm)
      · rfl
      · exact congrArg nSequenceId ((marks s.tip).trans (if_neg notTip))
      · rfl
      · exact congrArg nSequenceId ((marks c).trans (if_neg other))
    · rintro ⟨⟨mem, other⟩ | ⟨_, valid, linked⟩, _⟩
      · exact ⟨mem, other⟩
      · exact (unusable (Bool.and_eq_true_iff.2 ⟨valid, by simpa using linked⟩)).elim

end CChainState
end Artax
