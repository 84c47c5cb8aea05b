import Artax.Chain.Maintained

/-!
# The best valid chain

From a state that passes `CheckBlockIndex`, with an active chain that is valid, `ActivateBestChain`
ends with the best of the blocks that can be connected.
-/

namespace Artax
open BlockTree Option BlockMarks

namespace CChainState

variable {env : ChainEnv} {s s' : CChainState} {a b m p floor : H256}

/-- All blocks of a chain have data, no flag and are valid. The genesis block always is. -/
def Connectable (env : ChainEnv) (s : CChainState) (b : H256) : Prop :=
  (s.tree.index b).isSome = true ∧ ∀ a, s.tree.Anc a b → (s.marks a).haveData = true ∧
    (s.marks a).failed = false ∧ (a = s.tree.genesis ∨ env.connectBlock a = true)

theorem Connectable.of_anc (connectable : s.Connectable env b) (anc : s.tree.Anc a b) :
    s.Connectable env a :=
  ⟨isSome_of_anc anc connectable.1, fun x ancX => connectable.2 x (ancX.trans anc)⟩

/-! ## What the checks say -/

namespace CheckBlockIndex

variable (checked : s.CheckBlockIndex env)
include checked

theorem nChainTx_eq_zero_iff (known : (s.tree.index b).isSome) :
    (s.marks b).nChainTx = 0 ↔ ∃ a, s.tree.Anc a b ∧ (s.marks a).nTx = 0 := by
  obtain ⟨_, data, _, _⟩ := checked b ((s.tree.mem_known b).2 known)
  rw [← data.2.2.2.2.2.1, firstNeverProcessed, isSome_oldest]
  simp only [beq_iff_eq]

theorem haveData_iff (known : (s.tree.index b).isSome) :
    (s.marks b).haveData ↔ (s.marks b).nTx ≠ 0 := by
  obtain ⟨_, data, _, _⟩ := checked b ((s.tree.mem_known b).2 known)
  rw [ne_eq, ← data.2.1, Bool.not_eq_false]

theorem linked (connectable : s.Connectable env b) : (s.marks b).nChainTx ≠ 0 := by
  rw [ne_eq, checked.nChainTx_eq_zero_iff connectable.1]
  rintro ⟨a, anc, missing⟩
  exact (checked.haveData_iff (isSome_of_anc anc connectable.1)).1 (connectable.2 a anc).1 missing

theorem core (inIndex : ∀ c ∈ s.setBlockIndexCandidates, (s.tree.index c).isSome)
    (tip : s.Connectable env s.tip) : s.Core env s.tip := by
  have usable : s.Usable env s.tip := ⟨tip.1, checked.linked tip, fun a anc => (tip.2 a anc).2.1,
    fun a anc other => (tip.2 a anc).2.2.resolve_left other⟩
  have candidate : ∀ c, (s.tree.index c).isSome → c ∈ s.setBlockIndexCandidates →
      s.rank env s.tip ≤ s.rank env c ∧ (s.marks c).nChainTx ≠ 0 := by
    intro c known mem
    obtain ⟨_, data, candidates, _⟩ := checked c ((s.tree.mem_known c).2 known)
    unfold CandidatesChecked at candidates
    split at candidates
    · rename_i why
      rw [Bool.and_eq_true, Bool.not_eq_true', worse_eq_false, isNone_iff_eq_none] at why
      refine ⟨why.1, fun unlinked => ?_⟩
      have never := data.2.2.2.2.2.1.2 unlinked
      rw [why.2] at never
      cases never
    · exact (candidates mem).elim
  constructor
  · intro b p prev linked unlinked
    obtain ⟨a, anc, missing⟩ :=
      (checked.nChainTx_eq_zero_iff (isSome_of_pprev prev).2).1 unlinked
    exact linked ((checked.nChainTx_eq_zero_iff (isSome_of_pprev prev).1).2
      ⟨a, anc.trans (.parent prev), missing⟩)
  · intro b known linked
    rw [checked.haveData_iff known]
    intro missing
    exact linked ((checked.nChainTx_eq_zero_iff known).2 ⟨b, .refl b, missing⟩)
  · exact usable
  · exact usable
  · exact inIndex
  · exact fun c mem => (candidate c (inIndex c mem) mem).2
  · exact fun c mem => (candidate c (inIndex c mem) mem).1
  · intro b known clean linked above
    obtain ⟨_, data, candidates, _⟩ := checked b ((s.tree.mem_known b).2 known)
    have processed : s.firstNeverProcessed b = none := by
      rw [← not_isSome_iff_eq_none, data.2.2.2.2.2.1]
      exact linked
    unfold CandidatesChecked at candidates
    rw [if_pos (by rw [worse_eq_false.2 above, processed]; rfl)] at candidates
    refine candidates ?_ (.inl (data.2.2.1.trans processed))
    rw [firstInvalid, oldest_eq_none]
    intro a anc
    have fine := clean a anc
    rw [failed, Bool.or_eq_false_iff] at fine
    exact fine.1

end CheckBlockIndex

/-! ## What the loops keep -/

/-- What has happened since a state: blocks that could be connected still have no flags, and of those
tried the invalid ones are marked. -/
structure Since (env : ChainEnv) (s₀ s : CChainState) : Prop where
  tree : s.tree = s₀.tree
  fine : ∀ b, s₀.Connectable env b → (s.marks b).failed = false
  tried : ∃ tried, s.blockTried = tried ++ s₀.blockTried ∧
    ∀ b ∈ tried, env.connectBlock b = false → (s.marks b).failedValid = true

theorem Since.refl (env : ChainEnv) (s : CChainState) : Since env s s :=
  ⟨rfl, fun b connectable => (connectable.2 b (.refl b)).2.1, [], rfl, by simp⟩

theorem Since.flag {s₀ : CChainState} (since : Since env s₀ s) (tree : s'.tree = s.tree)
    (failedValid : ∀ b, (s.marks b).failedValid → (s'.marks b).failedValid)
    (apart : ∀ b, (s'.marks b).failed = (s.marks b).failed ∨ ¬ s₀.Connectable env b)
    (blockTried : s'.blockTried = s.blockTried) : Since env s₀ s' := by
  obtain ⟨tried, log, marked⟩ := since.tried
  refine ⟨tree.trans since.tree, fun b connectable => ?_, tried, blockTried.trans log,
    fun b mem invalid => failedValid b (marked b mem invalid)⟩
  rw [(apart b).resolve_right fun cannot => cannot connectable]
  exact since.fine b connectable

theorem kept_since (env : ChainEnv) (s₀ : CChainState) : Kept env (Core env) (Since env s₀) where
  discard {s floor m test} _ since _ anc failed := by
    have marks := marks_discard (m := m) failed
    refine since.flag (frame_discard failed).tree (fun b isFailed => ?_) (fun b => ?_)
      (by rw [discard_eq failed]; rfl)
    · rw [marks]
      split <;> exact isFailed
    · by_cases inside : b ∈ (s.tree.links.line m).takeWhile (· ≠ test)
      · refine .inr fun connectable => ?_
        have below := Util.ParentTree.Anc.of_mem_takeWhile_ne anc inside
        rw [since.tree] at below
        rw [since.fine test (connectable.of_anc below)] at failed
        cases failed
      · rw [marks, if_neg inside]
        exact .inl rfl
  connect {s floor b} _ since _ valid fine := by
    have failedValid := connected_kept fine failedValid fun _ => rfl
    obtain ⟨tried, log, marked⟩ := since.tried
    refine ⟨since.tree, fun x connectable => ?_, b :: tried, congrArg (b :: ·) log, fun x mem invalid => ?_⟩
    · rw [connected_kept fine failed fun _ => rfl]
      exact since.fine x connectable
    · rw [failedValid]
      rcases List.mem_cons.1 mem with rfl | mem
      · rw [valid] at invalid
        cases invalid
      · exact marked x mem invalid
  invalid {s floor b} _ since prev invalid := by
    have marks := marks_invalidBlockFound (s := s) (b := b)
    obtain ⟨tried, log, marked⟩ := since.tried
    refine ⟨since.tree, fun x connectable => ?_, b :: tried, congrArg (b :: ·) log, fun x mem isInvalid => ?_⟩
    · rw [marks, if_neg]
      · exact since.fine x connectable
      · rintro rfl
        rcases (connectable.2 x (.refl x)).2.2 with root | valid
        · rw [since.tree, root, pprev_genesis] at prev
          cases prev
        · rw [valid] at invalid
          cases invalid
    · rw [marks]
      split
      · rfl
      · rename_i other
        exact marked x ((List.mem_cons.1 mem).resolve_left other) isInvalid
  disconnect since _ := since.flag rfl (fun _ isFailed => isFailed) (fun _ => .inl rfl) rfl
  prune since _ := since.flag rfl (fun _ isFailed => isFailed) (fun _ => .inl rfl) rfl

/-! ## The best chain -/

/-- `ActivateBestChain` ends. The tip is then the best block whose chain can be connected, and the invalid
blocks it tried are marked. -/
theorem activateBestChain_reaches_best (env : ChainEnv) (s : CChainState)
    (checked : s.CheckBlockIndex env)
    (inIndex : ∀ c ∈ s.setBlockIndexCandidates, (s.tree.index c).isSome = true)
    (tip : s.Connectable env s.tip) :
    ∃ n s', (∀ rounds ≥ n, s.activateBestChain env rounds = some s') ∧ s'.tree = s.tree ∧
      s'.Connectable env s'.tip ∧
      (∀ b, s.Connectable env b → b = s'.tip ∨ s'.worse env b s'.tip = true) ∧
      ∃ tried, s'.blockTried = tried ++ s.blockTried ∧
        ∀ b ∈ tried, env.connectBlock b = false → (s'.marks b).failedValid = true := by
  obtain ⟨n, s', runs, settled, frame, _⟩ := activateBestChain_ends
    ((stable_core env).and (kept_since env s)) ⟨checked.core inIndex tip, .refl env s⟩
  obtain ⟨core, since⟩ := settled.holds
  refine ⟨n, s', runs, frame.tree, ⟨core.active.known, fun a anc => ⟨?_, core.active.clean a anc, ?_⟩⟩,
    fun b connectable => ?_, since.tried⟩
  · exact core.data a (isSome_of_anc anc core.active.known)
      (linked_of_anc core.linkedPrev anc core.active.linked)
  · by_cases root : a = s'.tree.genesis
    · exact .inl root
    · exact .inr (core.active.connects a anc root)
  · rw [worse_iff, or_iff_not_imp_right, not_lt]
    intro better
    refine settled.only b (core.complete b ?_ (fun a anc => ?_) ?_ better)
    · rw [frame.tree]
      exact connectable.1
    · rw [frame.tree] at anc
      exact since.fine a (connectable.of_anc anc)
    · rw [frame.nChainTx]
      exact checked.linked connectable

section

/-- Blocks 2 and 3 over the genesis block and an invalid block 4 over block 3. -/
theorem activateBestChain_reaches_best_past_invalid : ∃ s : CChainState,
    s.CheckBlockIndex (rejecting 4) ∧ ∃ n s', (∀ rounds ≥ n, s.activateBestChain (rejecting 4) rounds = some s') ∧
      s'.Connectable (rejecting 4) s'.tip ∧
      ∀ b, s.Connectable (rejecting 4) b → b = s'.tip ∨ s'.worse (rejecting 4) b s'.tip = true := by
  have run : (performAll (rejecting 4) 0 [sampleBlock 1 2, sampleBlock 1 3, sampleBlock 3 4]
      (start 1 1 0)).any (fun s => decide (s.CheckBlockIndex (rejecting 4)) &&
        s.setBlockIndexCandidates.all (fun c => (s.tree.index c).isSome) && s.tip == 1 &&
        s.tree.genesis == 1 && (s.marks 1).haveData && !(s.marks 1).failed) = true := by decide +kernel
  obtain ⟨s, _, facts⟩ := (any_eq_true _ _).1 run
  simp only [Bool.and_eq_true, decide_eq_true_eq, List.all_eq_true, beq_iff_eq, Bool.not_eq_true'] at facts
  obtain ⟨⟨⟨⟨⟨checked, inIndex⟩, tip⟩, root⟩, data⟩, fine⟩ := facts
  have connectable : s.Connectable (rejecting 4) s.tip := by
    rw [tip, ← root]
    refine ⟨s.tree.root, fun a anc => ?_⟩
    rw [(anc_of_pprev_none pprev_genesis).1 anc, root]
    exact ⟨data, fine, .inl rfl⟩
  obtain ⟨n, s', runs, _, best, greatest, _⟩ :=
    activateBestChain_reaches_best (rejecting 4) s checked inIndex connectable
  exact ⟨s, checked, n, s', runs, best, greatest⟩

/-- Block 2 is active although it is invalid, and it stays the tip. -/
theorem activateBestChain_keeps_invalid_tip : ∃ (env : ChainEnv) (s s' : CChainState) (rounds : Nat),
    s.CheckBlockIndex env ∧
    (∀ c ∈ s.setBlockIndexCandidates, (s.tree.index c).isSome = true) ∧
    s.activateBestChain env rounds = some s' ∧ ¬ s'.Connectable env s'.tip := by
  have run : (performAll sampleEnv 9 [sampleBlock 1 2, .activateBestChain] (start 1 1 0)).any
      (fun s => decide (s.CheckBlockIndex (rejecting 2)) &&
        s.setBlockIndexCandidates.all (fun c => (s.tree.index c).isSome) &&
        (s.activateBestChain (rejecting 2) 9).any fun s' => s'.tip == 2 && s'.tree.genesis == 1) = true := by
    decide +kernel
  obtain ⟨s, _, facts⟩ := (any_eq_true _ _).1 run
  simp only [Bool.and_eq_true, decide_eq_true_eq, List.all_eq_true, any_eq_true,
    beq_iff_eq] at facts
  obtain ⟨⟨checked, inIndex⟩, s', ran, tip, root⟩ := facts
  refine ⟨rejecting 2, s, s', 9, checked, inIndex, ran, fun connectable => ?_⟩
  have valid := (connectable.2 s'.tip (.refl _)).2.2
  rw [tip, root] at valid
  exact absurd valid (by decide)

end

end CChainState
end Artax
