import Artax.Chain.Activation

/-!
# What activating the best chain keeps

The invariants behind `CheckBlockIndex` are kept by the parts of
`ActivateBestChain`, so by all of it.
-/

namespace Artax

open BlockMarks

namespace CChainState

variable {env : ChainEnv} {s s' : CChainState} {a b c m floor : H256}

/-! ## Flags -/

/-- Only flags and candidates change: blocks outside the chains of tip and floor are flagged, and a
candidate that is dropped has a flag. -/
structure Flags (floor : H256) (s s' : CChainState) : Prop where
  tree : s'.tree = s.tree
  tip : s'.tip = s.tip
  unlinked : s'.mapBlocksUnlinked = s.mapBlocksUnlinked
  sequence : s'.nBlockSequenceId = s.nBlockSequenceId
  reverse : s'.nBlockReverseSequenceId = s.nBlockReverseSequenceId
  alike : ∀ b, (s'.marks b).Alike (s.marks b)
  failed : ∀ b, (s.marks b).failed = true → (s'.marks b).failed = true
  apart : ∀ b, (s'.marks b).failed = (s.marks b).failed ∨
    ¬ s.tree.Anc b s.tip ∧ ¬ s.tree.Anc b floor
  candidates : ∀ c ∈ s'.setBlockIndexCandidates, c ∈ s.setBlockIndexCandidates
  dropped : ∀ c ∈ s.setBlockIndexCandidates,
    c ∈ s'.setBlockIndexCandidates ∨ (s'.marks c).failed = true

theorem Flags.frame (flags : Flags floor s s') : Frame s s' :=
  .of_alike flags.tree flags.alike flags.failed flags.unlinked flags.candidates

section

variable {P : H256 → Prop} [DecidablePred P] {mark : BlockMarks → BlockMarks}
  (marks : ∀ x, s'.marks x = if P x then mark (s.marks x) else s.marks x)
include marks

theorem Flags.of_marks (tree : s'.tree = s.tree) (tip : s'.tip = s.tip)
    (unlinked : s'.mapBlocksUnlinked = s.mapBlocksUnlinked)
    (sequence : s'.nBlockSequenceId = s.nBlockSequenceId)
    (reverse : s'.nBlockReverseSequenceId = s.nBlockReverseSequenceId)
    (alike : ∀ m, (mark m).Alike m) (fails : ∀ m, (mark m).failed)
    (apart : ∀ x, P x → ¬ s.tree.Anc x s.tip ∧ ¬ s.tree.Anc x floor)
    (candidates : ∀ c ∈ s'.setBlockIndexCandidates, c ∈ s.setBlockIndexCandidates)
    (dropped : ∀ c ∈ s.setBlockIndexCandidates, c ∈ s'.setBlockIndexCandidates ∨
      (s'.marks c).failed) : Flags floor s s' := by
  refine ⟨tree, tip, unlinked, sequence, reverse, fun x => ?_, fun x isFailed => ?_, fun x => ?_,
    candidates, dropped⟩
  · rw [marks]
    split
    · exact alike _
    · rfl
  · rw [marks]
    split
    · exact fails _
    · exact isFailed
  · by_cases marked : P x
    · exact .inr (apart x marked)
    · exact .inl (by rw [marks, if_neg marked])

theorem Flagged.of_marks (flagged : s.Flagged) (tree : s'.tree = s.tree)
    (valid : ∀ m, m.failedValid → (mark m).failedValid)
    (cause : ∀ x, P x → ∃ a, s.tree.Anc a x ∧ (s'.marks a).failedValid)
    (found : ∀ x ∈ s'.failedBlocks, x ∈ s.failedBlocks ∨
      (s.tree.index x).isSome ∧ (s'.marks x).failedValid) : s'.Flagged := by
  have kept : ∀ x, (s.marks x).failedValid → (s'.marks x).failedValid := by
    intro x isValid
    rw [marks]
    split
    · exact valid _ isValid
    · exact isValid
  constructor
  · intro x known failed
    rw [tree] at known ⊢
    by_cases marked : P x
    · exact cause x marked
    · rw [marks, if_neg marked] at failed
      obtain ⟨a, anc, isValid⟩ := flagged.caused x known failed
      exact ⟨a, anc, kept a isValid⟩
  · intro x mem
    rw [tree]
    rcases found x mem with old | new
    · exact (flagged.found x old).imp_right (kept x)
    · exact new

end

namespace Core

variable (core : s.Core env floor)
include core

theorem flag (flags : Flags floor s s') : s'.Core env floor := by
  have nChainTx := fun b => (flags.alike b).nChainTx
  have ranks : s'.rank env = s.rank env := flags.frame.rank
  refine ⟨?_, ?_, ?_, ?_, ?_, ?_, ?_, ?_⟩
  · intro b p
    rw [flags.tree, nChainTx, nChainTx]
    exact core.linkedPrev b p
  · intro b
    rw [flags.tree, nChainTx, (flags.alike b).haveData]
    exact core.data b
  · rw [flags.tip]
    exact core.active.congr flags.tree (nChainTx _) fun a anc =>
      (flags.apart a).resolve_right fun no => no.1 anc
  · exact core.usable.congr flags.tree (nChainTx _) fun a anc =>
      (flags.apart a).resolve_right fun no => no.2 anc
  · intro c mem
    rw [flags.tree]
    exact core.known c (flags.candidates c mem)
  · intro c mem
    rw [nChainTx]
    exact core.linked c (flags.candidates c mem)
  · intro c mem
    rw [ranks]
    exact core.above c (flags.candidates c mem)
  · intro b known clean linked above
    rw [flags.tree] at known clean
    rw [nChainTx] at linked
    rw [ranks] at above
    have wasClean : ∀ a, s.tree.Anc a b → (s.marks a).failed = false := by
      intro a anc
      by_contra isFailed
      have fine := clean a anc
      rw [flags.failed a (Bool.not_eq_false _ ▸ isFailed)] at fine
      cases fine
    refine (flags.dropped b (core.complete b known wasClean linked above)).resolve_right fun failed => ?_
    rw [clean b (.refl b)] at failed
    cases failed

theorem flags_discard {test : H256} (anc : s.tree.Anc test m)
    (failed : (s.marks test).failed) : Flags floor s (s.discard m test) := by
  have marks := marks_discard (m := m) failed
  rw [discard_eq failed] at marks ⊢
  refine .of_marks marks rfl rfl rfl rfl rfl alike_failChild failed_failChild (fun b mem => ?_)
    (fun c mem => (List.mem_filter.1 mem).1) fun c mem => ?_
  · have below := Util.ParentTree.Anc.of_mem_takeWhile_ne anc mem
    exact ⟨core.active.not_anc_of_failed failed below, core.usable.not_anc_of_failed failed below⟩
  · by_cases inside : c ∈ (s.tree.links.line m).takeWhile (· ≠ test)
    · rw [marks, if_pos inside]
      exact .inr (failed_failChild _)
    · by_cases same : c = test
      · subst same
        rw [marks, if_neg inside]
        exact .inr failed
      · exact .inl (List.mem_filter.2 ⟨mem, decide_eq_true ⟨inside, same⟩⟩)

theorem flags_invalidBlockFound {p : H256}
    (prev : s.tree.pprev b = some p) (invalid : env.connectBlock b = false) :
    Flags floor s ((s.trying b).invalidBlockFound b) := by
  refine .of_marks marks_invalidBlockFound rfl rfl rfl rfl rfl alike_failValid (fun _ => rfl)
    (fun x same => ?_) (fun c mem => (List.mem_filter.1 mem).1) fun c mem => ?_
  · subst same
    exact ⟨core.active.not_anc_of_invalid prev invalid, core.usable.not_anc_of_invalid prev invalid⟩
  · by_cases same : c = b
    · rw [marks_invalidBlockFound, if_pos same]
      exact .inr rfl
    · exact .inl (List.mem_filter.2 ⟨mem, decide_eq_true same⟩)

theorem connect (prev : s.tree.pprev b = some s.tip)
    (valid : env.connectBlock b) (linked : (s.marks b).nChainTx ≠ 0)
    (fine : (s.marks b).failed = false) : ((s.trying b).connected b).Core env floor := by
  have nChainTx := connected_kept fine nChainTx fun _ => rfl
  have failed := connected_kept fine failed fun _ => rfl
  have ranks : ((s.trying b).connected b).rank env = s.rank env := (frame_connected fine).rank
  refine ⟨?_, ?_, ?_, ?_, core.known, ?_, ?_, ?_⟩
  · intro x p
    rw [nChainTx, nChainTx]
    exact core.linkedPrev x p
  · intro x
    rw [nChainTx, connected_kept fine haveData fun _ => rfl]
    exact core.data x
  · exact (core.active.connect prev valid linked fine).congr rfl (nChainTx b) fun a _ => failed a
  · exact core.usable.congr rfl (nChainTx floor) fun a _ => failed a
  · intro c
    rw [nChainTx]
    exact core.linked c
  · rw [ranks]
    exact core.above
  · intro x known clean
    rw [nChainTx, ranks]
    exact core.complete x known fun a anc => (failed a).symm.trans (clean a anc)

theorem disconnect (anc : s.tree.Anc a s.tip) (log : List H256) :
    ({ s with tip := a, blockDisconnected := log } : CChainState).Core env floor where
  linkedPrev := core.linkedPrev
  data := core.data
  active := (core.active.of_anc core.linkedPrev anc).congr rfl rfl fun _ _ => rfl
  usable := core.usable.congr rfl rfl fun _ _ => rfl
  known := core.known
  linked := core.linked
  above := core.above
  complete := core.complete

theorem prune (ran : s.pruneBlockIndexCandidates env = some s') :
    (s.rank env s.tip < s.rank env floor → s'.Core env floor) ∧
      (s.rank env floor ≤ s.rank env s.tip → s'.Core env s.tip) := by
  have kept := fun c => mem_prune (c := c) ran
  simp only [pruneBlockIndexCandidates, Option.ite_none_left_eq_some, Option.some.injEq] at ran
  obtain ⟨_, rfl⟩ := ran
  have known := fun c mem => core.known c ((kept c).1 mem).1
  have linked := fun c mem => core.linked c ((kept c).1 mem).1
  refine ⟨fun lower => ⟨core.linkedPrev, core.data, core.active.congr rfl rfl fun _ _ => rfl,
      core.usable.congr rfl rfl fun _ _ => rfl, known, linked,
      fun c mem => core.above c ((kept c).1 mem).1, fun b isKnown clean isLinked above => ?_⟩,
    fun higher => ⟨core.linkedPrev, core.data, core.active.congr rfl rfl fun _ _ => rfl,
      core.active.congr rfl rfl fun _ _ => rfl, known, linked, fun c mem => ((kept c).1 mem).2,
      fun b isKnown clean isLinked above => ?_⟩⟩
  · exact (kept b).2 ⟨core.complete b isKnown clean isLinked above, lower.le.trans above⟩
  · exact (kept b).2 ⟨core.complete b isKnown clean isLinked (higher.trans above), above⟩

end Core

theorem stable_core (env : ChainEnv) : Stable env (Core env) where
  core := id
  discard core _ anc failed := core.flag (core.flags_discard anc failed)
  connect := Core.connect
  invalid core prev invalid := core.flag (core.flags_invalidBlockFound prev invalid)
  disconnect := Core.disconnect
  prune := Core.prune

theorem Sound.core (sound : s.Sound env floor) : s.Core env floor where
  linkedPrev := sound.indexed.linked
  data b known linked := (sound.indexed.consistent b known).data.2
    ((sound.indexed.consistent b known).linked linked)
  active := sound.active.usable
  usable := sound.ranked.usable
  known := sound.ranked.known
  linked := sound.ranked.linked
  above := sound.ranked.above
  complete b known clean := sound.ranked.complete b known (clean b (.refl b))

/-! ## Flags with their causes -/

namespace Sound

variable {test p : H256} (sound : s.Sound env floor)
include sound

theorem flag (flags : Flags floor s s') (flagged : s'.Flagged) : s'.Sound env floor := by
  have core := sound.core.flag flags
  have ranks : s'.rank env = s.rank env := flags.frame.rank
  refine ⟨sound.indexed.congr flags.tree flags.alike flags.unlinked flags.sequence flags.reverse,
    flagged, ⟨core.active, ?_⟩, ⟨core.usable, core.known, core.linked, core.above, ?_⟩⟩
  · intro a
    rw [flags.tip, flags.tree, (flags.alike a).validity]
    exact sound.active.scripts a
  · intro b known fine linked above
    rw [flags.tree] at known
    rw [(flags.alike b).nChainTx] at linked
    rw [ranks] at above
    have wasFine : (s.marks b).failed = false := by
      by_contra failed
      rw [flags.failed b (Bool.not_eq_false _ ▸ failed)] at fine
      cases fine
    refine (flags.dropped b (sound.ranked.complete b known wasFine linked above)).resolve_right
      fun failed => ?_
    rw [failed] at fine
    cases fine

theorem failValid (flags : Flags floor s s') (known : (s.tree.index b).isSome)
    (marks : ∀ x, s'.marks x = if x = b then (s.marks x).failValid else s.marks x)
    (found : ∀ x ∈ s'.failedBlocks, x = b ∨ x ∈ s.failedBlocks) : s'.Sound env floor := by
  have failedHere : (s'.marks b).failedValid := by
    rw [marks, if_pos rfl]
    rfl
  refine sound.flag flags (sound.flagged.of_marks marks flags.tree (fun _ _ => rfl) (fun x same => ?_)
    fun x mem => ?_)
  · subst same
    exact ⟨x, .refl x, failedHere⟩
  · rcases found x mem with rfl | old
    · exact .inr ⟨known, failedHere⟩
    · exact .inl old

theorem failChildren {chain : List H256} (flags : Flags floor s s')
    (known : (s.tree.index test).isSome) (failed : (s.marks test).failed)
    (above : ∀ b ∈ chain, s.tree.Anc test b)
    (marks : ∀ b, s'.marks b = if b ∈ chain then (s.marks b).failChild else s.marks b)
    (found : s'.failedBlocks = s.failedBlocks) : s'.Sound env floor := by
  refine sound.flag flags (sound.flagged.of_marks marks flags.tree (fun _ isValid => isValid)
    (fun x mem => ?_) fun x mem => .inl (found ▸ mem))
  -- a new flag has the cause of the block it comes from
  obtain ⟨a, anc, isValid⟩ := sound.flagged.caused test known failed
  refine ⟨a, anc.trans (above x mem), ?_⟩
  rw [marks]
  split <;> exact isValid

theorem discard (known : (s.tree.index m).isSome) (anc : s.tree.Anc test m)
    (failed : (s.marks test).failed) :
    (s.discard m test).Sound env floor :=
  sound.failChildren (sound.core.flags_discard anc failed) (BlockTree.isSome_of_anc anc known) failed
    (fun _ mem => Util.ParentTree.Anc.of_mem_takeWhile_ne anc mem) (marks_discard failed)
    (by rw [discard_eq failed]; rfl)

theorem invalidBlockFound (prev : s.tree.pprev b = some p)
    (invalid : env.connectBlock b = false) :
    ((s.trying b).invalidBlockFound b).Sound env floor :=
  sound.failValid (sound.core.flags_invalidBlockFound prev invalid) (BlockTree.isSome_of_pprev prev).1
    marks_invalidBlockFound fun _ mem => List.mem_insert_iff.1 mem

/-! ## Tips -/

theorem select {floor' : H256} {candidates : List H256}
    (usable : s.Usable env floor') (known : ∀ c ∈ candidates, (s.tree.index c).isSome)
    (linked : ∀ c ∈ candidates, (s.marks c).nChainTx ≠ 0)
    (above : ∀ c ∈ candidates, s.rank env floor' ≤ s.rank env c)
    (complete : ∀ b, (s.tree.index b).isSome → (s.marks b).failed = false →
      (s.marks b).nChainTx ≠ 0 → s.rank env floor' ≤ s.rank env b → b ∈ candidates) :
    ({ s with setBlockIndexCandidates := candidates } : CChainState).Sound env floor' where
  indexed := sound.indexed.congr rfl (fun _ => rfl) rfl rfl rfl
  flagged := ⟨sound.flagged.caused, sound.flagged.found⟩
  active := ⟨sound.active.usable.congr rfl rfl fun _ _ => rfl, sound.active.scripts⟩
  ranked := ⟨usable.congr rfl rfl fun _ _ => rfl, known, linked, above, complete⟩

theorem prune (ran : s.pruneBlockIndexCandidates env = some s') :
    (s.rank env s.tip < s.rank env floor → s'.Sound env floor) ∧
      (s.rank env floor ≤ s.rank env s.tip → s'.Sound env s.tip) := by
  have kept := fun c => mem_prune (c := c) ran
  obtain ⟨low, high⟩ := sound.core.prune ran
  simp only [pruneBlockIndexCandidates, Option.ite_none_left_eq_some, Option.some.injEq] at ran
  obtain ⟨_, rfl⟩ := ran
  refine ⟨fun lower => ?_, fun higher => ?_⟩
  · have core := low lower
    exact sound.select sound.ranked.usable core.known core.linked core.above
      fun b known fine linked above =>
        (kept b).2 ⟨sound.ranked.complete b known fine linked above, lower.le.trans above⟩
  · have core := high higher
    exact sound.select sound.active.usable core.known core.linked core.above
      fun b known fine linked above =>
        (kept b).2 ⟨sound.ranked.complete b known fine linked (higher.trans above), above⟩

theorem connect (prev : s.tree.pprev b = some s.tip)
    (valid : env.connectBlock b) (linked : (s.marks b).nChainTx ≠ 0)
    (fine : (s.marks b).failed = false) :
    ((s.trying b).connected b).Sound env floor := by
  have marks := marks_connected fine
  have nTx := connected_kept fine nTx fun _ => rfl
  have nChainTx := connected_kept fine nChainTx fun _ => rfl
  have failed := connected_kept fine failed fun _ => rfl
  have failedValid := connected_kept fine failedValid fun _ => rfl
  have higher : ∀ x, (s.marks x).validity.level ≤ (((s.trying b).connected b).marks x).validity.level := by
    intro x
    rw [marks]
    split
    · exact BlockValidity.level_le_scripts _
    · exact le_rfl
  have ranks : ((s.trying b).connected b).rank env = s.rank env := (frame_connected fine).rank
  have core := sound.core.connect prev valid linked fine
  refine ⟨⟨?_, ?_, core.linkedPrev, ?_, ?_, sound.indexed.once, sound.indexed.sequence,
    sound.indexed.reverse, ?_⟩, sound.flagged.congr rfl failed failedValid rfl, ⟨core.active, ?_⟩,
    ⟨core.usable, core.known, core.linked, core.above, ?_⟩⟩
  · intro x knownX
    have consistent := sound.indexed.consistent x knownX
    rw [marks]
    split
    · rename_i same
      have data := consistent.linked (same ▸ linked)
      exact ⟨consistent.data, fun _ => consistent.data.2 data, by simp [BlockValidity.level],
        ⟨fun _ => data, fun _ => by simp [BlockValidity.level]⟩, consistent.linked, consistent.unlinked⟩
    · exact consistent
  · rw [nChainTx]
    exact sound.indexed.genesis
  · intro x p prevX notRoot high
    by_cases same : x = b
    · -- the tip is valid to its scripts
      subst same
      obtain rfl : p = s.tip := Option.some.inj (prevX.symm.trans prev)
      have tipScripts := sound.active.scripts s.tip (.refl _) notRoot
      have bound := higher s.tip
      rw [tipScripts] at bound
      rw [marks, if_pos rfl]
      exact bound
    · rw [marks, if_neg same] at high ⊢
      exact (sound.indexed.validity x p prevX notRoot high).trans (higher p)
  · intro entry mem
    rw [nTx, nChainTx]
    exact sound.indexed.waiting entry mem
  · intro x knownX
    rw [nChainTx, chainTx_congr (frame_connected fine).tree nTx]
    exact sound.indexed.counted x knownX
  · intro a anc other
    rw [marks]
    split
    · rfl
    · rename_i notB
      exact sound.active.scripts a (((BlockTree.anc_of_pprev prev).1 anc).resolve_left notB) other
  · intro x
    rw [failed, nChainTx, ranks]
    exact sound.ranked.complete x

theorem disconnect (anc : s.tree.Anc a s.tip) (log : List H256) :
    ({ s with tip := a, blockDisconnected := log } : CChainState).Sound env floor where
  indexed := sound.indexed.congr rfl (fun _ => rfl) rfl rfl rfl
  flagged := ⟨sound.flagged.caused, sound.flagged.found⟩
  active := ⟨(sound.core.disconnect anc log).active,
    fun x ancX => sound.active.scripts x (ancX.trans anc)⟩
  ranked := ⟨(sound.core.disconnect anc log).usable, sound.ranked.known,
    sound.ranked.linked, sound.ranked.above, sound.ranked.complete⟩

end Sound

theorem stable_sound (env : ChainEnv) : Stable env (Sound env) where
  core := Sound.core
  discard := Sound.discard
  connect := Sound.connect
  invalid := Sound.invalidBlockFound
  disconnect := Sound.disconnect
  prune := Sound.prune

end CChainState
end Artax
