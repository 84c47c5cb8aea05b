import Artax.Chain.Invariant

/-!
# Activating the best chain

What the loops of `ActivateBestChain` do, for every invariant that their parts keep. The floor is the
tip from which the inner loop has to get on. Each step gets nearer to the best candidate or finds a
block invalid, so the loops end.
-/

namespace Artax
open Util.ParentTree BlockTree List BlockMarks
open Option hiding filter_filter

namespace CChainState

variable {env : ChainEnv} {s s' : CChainState} {a b c m floor : H256}

/-! ## What changes -/

structure Frame (s s' : CChainState) : Prop where
  tree : s'.tree = s.tree
  nTx : ∀ b, (s'.marks b).nTx = (s.marks b).nTx
  nChainTx : ∀ b, (s'.marks b).nChainTx = (s.marks b).nChainTx
  nSequenceId : ∀ b, (s'.marks b).nSequenceId = (s.marks b).nSequenceId
  failed : ∀ b, (s.marks b).failed = true → (s'.marks b).failed = true
  unlinked : ∀ entry ∈ s.mapBlocksUnlinked, entry ∈ s'.mapBlocksUnlinked
  candidates : ∀ c ∈ s'.setBlockIndexCandidates, c ∈ s.setBlockIndexCandidates

namespace Frame

theorem refl (s : CChainState) : Frame s s :=
  ⟨rfl, fun _ => rfl, fun _ => rfl, fun _ => rfl, fun _ failed => failed, fun _ mem => mem,
    fun _ mem => mem⟩

theorem trans {s'' : CChainState} (first : Frame s s') (second : Frame s' s'') : Frame s s'' where
  tree := second.tree.trans first.tree
  nTx b := (second.nTx b).trans (first.nTx b)
  nChainTx b := (second.nChainTx b).trans (first.nChainTx b)
  nSequenceId b := (second.nSequenceId b).trans (first.nSequenceId b)
  failed b isFailed := second.failed b (first.failed b isFailed)
  unlinked entry mem := second.unlinked entry (first.unlinked entry mem)
  candidates c mem := first.candidates c (second.candidates c mem)

theorem rank (frame : Frame s s') : s'.rank env = s.rank env := rank_congr frame.tree frame.nSequenceId

theorem filed (frame : Frame s s') (filed : s.Filed) : s'.Filed := by
  intro b known data unlinked
  rw [frame.nTx] at data
  rw [frame.nChainTx] at unlinked
  rw [frame.tree] at known ⊢
  obtain ⟨p, prev, waits⟩ := filed b known data unlinked
  exact ⟨p, prev, frame.unlinked _ waits⟩

theorem of_alike (tree : s'.tree = s.tree) (alike : ∀ b, (s'.marks b).Alike (s.marks b))
    (failed : ∀ b, (s.marks b).failed → (s'.marks b).failed)
    (unlinked : s'.mapBlocksUnlinked = s.mapBlocksUnlinked)
    (candidates : ∀ c ∈ s'.setBlockIndexCandidates, c ∈ s.setBlockIndexCandidates) : Frame s s' :=
  ⟨tree, fun b => (alike b).nTx, fun b => (alike b).nChainTx, fun b => (alike b).nSequenceId, failed,
    fun _ mem => unlinked ▸ mem, candidates⟩

end Frame

variable {test oldTip starting_tip : H256} {path : List H256} {rounds : Nat} {s₁ : CChainState}
  {found blocks_connected : Bool}

section

variable (failed : (s.marks test).failed = true)
include failed

theorem discard_eq :
    s.discard m test = { s.markWhere
        (fun b => decide (b ∈ (s.tree.links.line m).takeWhile (· ≠ test))) .failChild with
      setBlockIndexCandidates := s.setBlockIndexCandidates.filter fun b =>
        b ∉ (s.tree.links.line m).takeWhile (· ≠ test) ∧ b ≠ test } := by
  simp only [discard, failed, if_true]
  rfl

theorem marks_discard (b : H256) :
    (s.discard m test).marks b = if b ∈ (s.tree.links.line m).takeWhile (· ≠ test) then
      (s.marks b).failChild else s.marks b := by
  rw [discard_eq failed]
  simp [markWhere]

theorem frame_discard :
    Frame s (s.discard m test) := by
  refine .of_alike (by rw [discard_eq failed]; rfl) (fun b => ?_) (fun b isFailed => ?_)
    (by rw [discard_eq failed]; rfl) fun c mem => ?_
  · rw [marks_discard failed]
    split <;> rfl
  · rw [marks_discard failed]
    split
    · exact failed_failChild _
    · exact isFailed
  · rw [discard_eq failed] at mem
    exact (mem_filter.1 mem).1

end

section

variable (fine : (s.marks b).failed = false)
include fine

theorem marks_connected (x : H256) :
    ((s.trying b).connected b).marks x = if x = b then
      { s.marks x with haveUndo := true, validity := .scripts } else s.marks x := by
  by_cases same : x = b
  · subst same
    simp only [connected, trying, markWhere, decide_true, if_true]
    exact raiseValidity_scripts fine
  · simp [connected, trying, markWhere, same]

theorem connected_kept {α : Type} (f : BlockMarks → α)
    (agrees : ∀ m : BlockMarks, f { m with haveUndo := true, validity := .scripts } = f m)
    (x : H256) :
    f (((s.trying b).connected b).marks x) = f (s.marks x) := by
  rw [marks_connected fine]
  split
  · exact agrees _
  · rfl

theorem frame_connected :
    Frame s ((s.trying b).connected b) where
  tree := rfl
  nTx := connected_kept fine nTx fun _ => rfl
  nChainTx := connected_kept fine nChainTx fun _ => rfl
  nSequenceId := connected_kept fine nSequenceId fun _ => rfl
  failed x isFailed := (connected_kept fine failed (fun _ => rfl) x).trans isFailed
  unlinked _ mem := mem
  candidates _ mem := mem

end

theorem marks_invalidBlockFound (x : H256) : ((s.trying b).invalidBlockFound b).marks x =
    if x = b then (s.marks x).failValid else s.marks x := by
  simp [invalidBlockFound, trying, markWhere]

theorem frame_invalidBlockFound : Frame s ((s.trying b).invalidBlockFound b) := by
  refine .of_alike rfl (fun x => ?_) (fun x isFailed => ?_) rfl fun c mem => (mem_filter.1 mem).1
  · rw [marks_invalidBlockFound]
    split <;> rfl
  · rw [marks_invalidBlockFound]
    split
    · rfl
    · exact isFailed

theorem mem_prune (ran : s.pruneBlockIndexCandidates env = some s') : c ∈ s'.setBlockIndexCandidates ↔
    c ∈ s.setBlockIndexCandidates ∧ s.rank env s.tip ≤ s.rank env c := by
  simp only [pruneBlockIndexCandidates, ite_none_left_eq_some, some.injEq] at ran
  obtain ⟨_, rfl⟩ := ran
  rw [mem_filter, Bool.not_eq_true', worse_eq_false]

theorem frame_prune (ran : s.pruneBlockIndexCandidates env = some s') :
    Frame s s' ∧ s'.tip = s.tip ∧ s'.marks = s.marks ∧ s'.blockDisconnected = s.blockDisconnected := by
  have candidates := fun c => mem_prune (c := c) ran
  simp only [pruneBlockIndexCandidates, ite_none_left_eq_some, some.injEq] at ran
  obtain ⟨_, rfl⟩ := ran
  exact ⟨⟨rfl, fun _ => rfl, fun _ => rfl, fun _ => rfl, fun _ failed => failed, fun _ mem => mem,
    fun c mem => ((candidates c).1 mem).1⟩, rfl, rfl, rfl⟩

theorem exists_prune (mem : c ∈ s.setBlockIndexCandidates)
    (above : s.rank env s.tip ≤ s.rank env c) : ∃ s', s.pruneBlockIndexCandidates env = some s' := by
  have kept : c ∈ s.setBlockIndexCandidates.filter fun b => !s.worse env b s.tip :=
    mem_filter.2 ⟨mem, by rw [Bool.not_eq_true', worse_eq_false]; exact above⟩
  refine ⟨_, if_neg ?_⟩
  intro empty
  rw [empty] at kept
  cases kept

/-! ## Invariants that the parts keep -/

/-- What the loops rely on: the chains of tip and floor are usable, and the candidates are blocks
over the floor, all without flags among them. -/
structure Core (env : ChainEnv) (s : CChainState) (floor : H256) : Prop where
  linkedPrev : ∀ b p, s.tree.pprev b = some p → (s.marks b).nChainTx ≠ 0 → (s.marks p).nChainTx ≠ 0
  data : ∀ b, (s.tree.index b).isSome = true → (s.marks b).nChainTx ≠ 0 → (s.marks b).haveData = true
  active : s.Usable env s.tip
  usable : s.Usable env floor
  known : ∀ c ∈ s.setBlockIndexCandidates, (s.tree.index c).isSome = true
  linked : ∀ c ∈ s.setBlockIndexCandidates, (s.marks c).nChainTx ≠ 0
  above : ∀ c ∈ s.setBlockIndexCandidates, s.rank env floor ≤ s.rank env c
  complete : ∀ b, (s.tree.index b).isSome = true → (∀ a, s.tree.Anc a b → (s.marks a).failed = false) →
    (s.marks b).nChainTx ≠ 0 → s.rank env floor ≤ s.rank env b → b ∈ s.setBlockIndexCandidates

theorem Core.mem (core : s.Core env floor) : floor ∈ s.setBlockIndexCandidates :=
  core.complete floor core.usable.known core.usable.clean core.usable.linked le_rfl

/-- An invariant, with a floor, that the parts of `ActivateBestChain` keep. -/
structure Stable (env : ChainEnv) (I : CChainState → H256 → Prop) : Prop where
  core : ∀ {s floor}, I s floor → s.Core env floor
  discard : ∀ {s floor m test}, I s floor → (s.tree.index m).isSome = true → s.tree.Anc test m →
    (s.marks test).failed = true → I (s.discard m test) floor
  connect : ∀ {s floor b}, I s floor → s.tree.pprev b = some s.tip → env.connectBlock b = true →
    (s.marks b).nChainTx ≠ 0 → (s.marks b).failed = false → I ((s.trying b).connected b) floor
  invalid : ∀ {s floor b}, I s floor → s.tree.pprev b = some s.tip → env.connectBlock b = false →
    I ((s.trying b).invalidBlockFound b) floor
  disconnect : ∀ {s floor a}, I s floor → s.tree.Anc a s.tip → ∀ log,
    I { s with tip := a, blockDisconnected := log } floor
  prune : ∀ {s s' floor}, I s floor → s.pruneBlockIndexCandidates env = some s' →
    (s.rank env s.tip < s.rank env floor → I s' floor) ∧
      (s.rank env floor ≤ s.rank env s.tip → I s' s.tip)

variable {I : CChainState → H256 → Prop}

/-- What else the parts keep where an invariant holds. -/
structure Kept (env : ChainEnv) (I : CChainState → H256 → Prop) (J : CChainState → Prop) : Prop where
  discard : ∀ {s floor m test}, I s floor → J s → (s.tree.index m).isSome = true → s.tree.Anc test m →
    (s.marks test).failed = true → J (s.discard m test)
  connect : ∀ {s floor b}, I s floor → J s → s.tree.pprev b = some s.tip → env.connectBlock b = true →
    (s.marks b).failed = false → J ((s.trying b).connected b)
  invalid : ∀ {s floor b}, I s floor → J s → s.tree.pprev b = some s.tip → env.connectBlock b = false →
    J ((s.trying b).invalidBlockFound b)
  disconnect : ∀ {s a}, J s → ∀ log, J { s with tip := a, blockDisconnected := log }
  prune : ∀ {s}, J s → ∀ candidates, J { s with setBlockIndexCandidates := candidates }

theorem Stable.and {J : CChainState → Prop} (stable : Stable env I) (kept : Kept env I J) :
    Stable env fun s floor => I s floor ∧ J s where
  core holds := stable.core holds.1
  discard holds known anc failed :=
    ⟨stable.discard holds.1 known anc failed, kept.discard holds.1 holds.2 known anc failed⟩
  connect holds prev valid linked fine :=
    ⟨stable.connect holds.1 prev valid linked fine, kept.connect holds.1 holds.2 prev valid fine⟩
  invalid holds prev invalid :=
    ⟨stable.invalid holds.1 prev invalid, kept.invalid holds.1 holds.2 prev invalid⟩
  disconnect holds anc log := ⟨stable.disconnect holds.1 anc log, kept.disconnect holds.2 log⟩
  prune {s s' floor} holds ran := by
    obtain ⟨lower, higher⟩ := stable.prune holds.1 ran
    have after : J s' := by
      simp only [pruneBlockIndexCandidates, ite_none_left_eq_some, some.injEq] at ran
      exact ran.2 ▸ kept.prune holds.2 _
    exact ⟨fun below => ⟨lower below, after⟩, fun above => ⟨higher above, after⟩⟩

/-! ## The best candidate -/

theorem examine_cases (linked : ∀ b ∈ path, (s.marks b).nChainTx ≠ 0) :
    (s.examine path = some none ∧ ∀ b ∈ path, (s.marks b).failed = false) ∨
      ∃ test ∈ path, s.examine path = some (some test) ∧
        ((s.marks test).failed ∨ (s.marks test).haveData = false) := by
  induction path with
  | nil => exact .inl ⟨rfl, by simp⟩
  | cons first rest ih =>
    rw [forall_mem_cons] at linked
    unfold examine
    rw [if_neg fun missing => linked.1 missing.1]
    split
    · rename_i unusable
      exact .inr ⟨first, mem_cons_self .., rfl, by simpa using unusable⟩
    · rename_i usable
      obtain ⟨fine, clean⟩ | ⟨test, mem, found⟩ := ih linked.2
      · rw [Bool.or_eq_true, not_or, Bool.not_eq_true] at usable
        exact .inl ⟨fine, forall_mem_cons.2 ⟨usable.1, clean⟩⟩
      · exact .inr ⟨test, mem_cons_of_mem _ mem, found⟩

theorem mem_path : a ∈ (s.tree.links.line m).takeWhile (fun b => !s.contains b) ↔
    s.tree.Anc a m ∧ ¬ s.tree.Anc a s.tip := by
  have inherited : ∀ x y, s.contains x → s.tree.links.Anc y x → s.contains y := by
    intro x y contained anc
    simp only [contains, decide_eq_true_eq] at contained ⊢
    exact anc.trans contained
  rw [mem_takeWhile_line inherited]
  simp [contains]

structure Target (env : ChainEnv) (s : CChainState) (floor m : H256) : Prop where
  mem : m ∈ s.setBlockIndexCandidates
  known : (s.tree.index m).isSome = true
  linked : (s.marks m).nChainTx ≠ 0
  clean : ∀ a, s.tree.Anc a m → (s.marks a).failed = false
  above : s.rank env floor ≤ s.rank env m
  best : ∀ c ∈ s.setBlockIndexCandidates, s.rank env c ≤ s.rank env m

theorem length_discard (mem : m ∈ s.setBlockIndexCandidates) (anc : s.tree.Anc test m) :
    (s.discard m test).setBlockIndexCandidates.length < s.setBlockIndexCandidates.length := by
  have eq : (s.discard m test).setBlockIndexCandidates = s.setBlockIndexCandidates.filter
      fun b => b ∉ (s.tree.links.line m).takeWhile (· ≠ test) ∧ b ≠ test := by
    unfold CChainState.discard
    split <;> rfl
  rw [eq]
  refine length_filter_lt_length_iff_exists.2 ⟨m, mem, ?_⟩
  rw [decide_eq_true_eq, not_and_or, not_not, not_not]
  by_cases same : m = test
  · exact .inr same
  · exact .inl ((mem_takeWhile_ne anc).2 ⟨.refl m, fun below =>
      same (below.antisymm anc)⟩)

theorem tip_discard : (s.discard m test).tip = s.tip ∧
    (s.discard m test).blockDisconnected = s.blockDisconnected := by
  unfold CChainState.discard
  split <;> exact ⟨rfl, rfl⟩

theorem findMostWork_spec (stable : Stable env I) (holds : I s floor)
    (enough : s.setBlockIndexCandidates.length < rounds) :
    ∃ s' m, findMostWork env rounds s = some (s', some m) ∧ I s' floor ∧ Frame s s' ∧
      s'.tip = s.tip ∧ s'.blockDisconnected = s.blockDisconnected ∧ s'.Target env floor m := by
  induction rounds generalizing s with
  | zero => cases enough
  | succ rounds ih =>
    have core := stable.core holds
    rw [findMostWork]
    cases found : s.setBlockIndexCandidates.argmax (s.rank env) with
    | none =>
      have mem := core.mem
      rw [argmax_eq_none.1 found] at mem
      cases mem
    | some m =>
      have mem : m ∈ s.setBlockIndexCandidates := argmax_mem found
      have known := core.known m mem
      have linked := core.linked m mem
      have path : ∀ b ∈ (s.tree.links.line m).takeWhile (fun b => !s.contains b),
          s.tree.Anc b m ∧ (s.marks b).nChainTx ≠ 0 := by
        intro b inPath
        have anc := (mem_path.1 inPath).1
        exact ⟨anc, linked_of_anc core.linkedPrev anc linked⟩
      obtain ⟨examined, clean⟩ | ⟨test, inPath, examined, cannot⟩ :=
        examine_cases fun b inPath => (path b inPath).2
      · simp only [examined]
        refine ⟨s, m, rfl, holds, .refl s, rfl, rfl, mem, known, linked, fun a anc => ?_,
          core.above m mem, fun c memC => le_of_mem_argmax memC found⟩
        by_cases active : s.tree.Anc a s.tip
        · exact core.active.clean a active
        · exact clean a (mem_path.2 ⟨anc, active⟩)
      · simp only [examined]
        obtain ⟨anc, linkedTest⟩ := path test inPath
        -- the data of all ancestors of a candidate is there
        have failed : (s.marks test).failed := by
          refine cannot.resolve_right fun missing => ?_
          rw [core.data test (isSome_of_anc anc known) linkedTest] at missing
          cases missing
        have shorter := length_discard mem anc
        obtain ⟨s', m', ran, after, frame, tip, log, target⟩ :=
          ih (stable.discard holds known anc failed) (by omega)
        exact ⟨s', m', ran, after, (frame_discard failed).trans frame, tip.trans tip_discard.1,
          log.trans tip_discard.2, target⟩

theorem findMostWorkChain_spec (stable : Stable env I) (holds : I s floor) :
    ∃ s' m, s.findMostWorkChain env = some (s', some m) ∧ I s' floor ∧ Frame s s' ∧
      s'.tip = s.tip ∧ s'.blockDisconnected = s.blockDisconnected ∧ s'.Target env floor m :=
  findMostWork_spec stable holds (Nat.lt_succ_self _)

/-! ## Connecting blocks -/

theorem findFork_spec (known : (s.tree.index m).isSome)
    (knownTip : (s.tree.index s.tip).isSome) :
    ∃ fork, s.findFork m = some fork ∧ s.tree.Anc fork m ∧ s.tree.Anc fork s.tip ∧
      ∀ x, s.tree.Anc x m → s.tree.Anc x s.tip → s.tree.Anc x fork := by
  obtain ⟨b, lowered, ancB, height⟩ := exists_lowered known (s.tree.nHeight s.tip)
  have root : s.contains s.tree.genesis := by
    simpa [contains] using genesis_anc knownTip
  obtain ⟨fork, found⟩ := exists_find?_line
    (genesis_anc (isSome_of_anc ancB known)) root
  obtain ⟨ancFork, contained, last⟩ := find?_line_eq_some found
  simp only [contains, decide_eq_true_eq] at contained last
  refine ⟨fork, by simp [findFork, lowered, found], ancFork.trans ancB, contained, fun x ancM ancTip => ?_⟩
  refine last x (ancM.of_height_le ancB ?_) ancTip
  have := nHeight_le_of_anc ancM
  have := nHeight_le_of_anc ancTip
  change s.tree.nHeight x ≤ s.tree.nHeight b
  omega

theorem disconnectTips_ne {fork : H256} (anc : s.tree.Anc fork s.tip) :
    s.disconnectTips (fun b => decide (b ≠ fork)) = some { s with
      tip := fork
      blockDisconnected :=
        ((s.tree.links.line s.tip).takeWhile fun b => decide (b ≠ fork)).reverse ++
          s.blockDisconnected } := by
  obtain ⟨f, found⟩ : ∃ f, (s.tree.links.line s.tip).find? (fun b => !decide (b ≠ fork)) = some f :=
    exists_find?_line anc (by simp)
  obtain ⟨_, isTrue, _⟩ := find?_line_eq_some found
  obtain rfl : f = fork := by simpa using isTrue
  rw [disconnectTips, found]
  rfl

/-- The tip has come to the floor and is one itself, or it has not and the floor still is. -/
def Floored (env : ChainEnv) (I : CChainState → H256 → Prop) (floor : H256) (s : CChainState) : Prop :=
  I s s.tip ∧ s.rank env floor ≤ s.rank env s.tip ∨ I s floor ∧ s.rank env s.tip < s.rank env floor

theorem Floored.exists_holds (floored : Floored env I floor s) : ∃ f, I s f :=
  floored.elim (fun reached => ⟨_, reached.1⟩) fun below => ⟨_, below.1⟩

section

variable (stable : Stable env I) (floored : Floored env I floor s)
  (prev : s.tree.pprev b = some s.tip)
include stable floored prev

theorem Floored.connect (valid : env.connectBlock b) (linked : (s.marks b).nChainTx ≠ 0)
    (fine : (s.marks b).failed = false) (mem : m ∈ s.setBlockIndexCandidates) (anc : s.tree.Anc b m) :
    ∃ s₂, ((s.trying b).connected b).pruneBlockIndexCandidates env = some s₂ ∧
      Floored env I floor s₂ ∧ Frame s s₂ ∧ s₂.tip = b ∧
      (∀ x, (s₂.marks x).failed = (s.marks x).failed) ∧
      s₂.blockDisconnected = s.blockDisconnected ∧ m ∈ s₂.setBlockIndexCandidates := by
  have frame := frame_connected fine
  have ranks : ((s.trying b).connected b).rank env = s.rank env := frame.rank
  have aboveM : ((s.trying b).connected b).rank env b ≤ ((s.trying b).connected b).rank env m := by
    rw [ranks]
    exact rank_le_of_anc anc
  obtain ⟨s₂, pruned⟩ : ∃ s₂, ((s.trying b).connected b).pruneBlockIndexCandidates env = some s₂ :=
    exists_prune mem aboveM
  obtain ⟨framePrune, tip, marks, log⟩ := frame_prune pruned
  have ranks₂ : s₂.rank env = s.rank env := (frame.trans framePrune).rank
  have higher : s.rank env s.tip ≤ s.rank env b := rank_le_of_anc (.parent prev)
  -- the tip of before or the floor is a floor for the block
  have step : ∀ f, I s f → (s.rank env b < s.rank env f → I s₂ f) ∧
      (s.rank env f ≤ s.rank env b → I s₂ b) := by
    intro f holds
    have := stable.prune (stable.connect holds prev valid linked fine) pruned
    rw [ranks] at this
    exact this
  refine ⟨s₂, pruned, ?_, frame.trans framePrune, tip, fun x => ?_, log, (mem_prune pruned).2 ⟨mem, aboveM⟩⟩
  · unfold Floored
    rw [ranks₂, tip]
    rcases floored with ⟨holds, reached⟩ | ⟨holds, _⟩
    · exact .inl ⟨(step _ holds).2 higher, reached.trans higher⟩
    · rcases lt_or_ge (s.rank env b) (s.rank env floor) with lower | notLower
      · exact .inr ⟨(step _ holds).1 lower, lower⟩
      · exact .inl ⟨(step _ holds).2 notLower, notLower⟩
  · rw [marks]
    exact connected_kept fine failed (fun _ => rfl) x

theorem Floored.invalid (invalid : env.connectBlock b = false) :
    Floored env I floor ((s.trying b).invalidBlockFound b) := by
  have ranks : ((s.trying b).invalidBlockFound b).rank env = s.rank env := frame_invalidBlockFound.rank
  unfold Floored
  rw [ranks]
  exact floored.imp (fun ⟨holds, reached⟩ => ⟨stable.invalid holds prev invalid, reached⟩)
    fun ⟨holds, below⟩ => ⟨stable.invalid holds prev invalid, below⟩

end

/-- Blocks one over the other, the first over the tip. -/
def Climbs (t : BlockTree) : H256 → List H256 → Prop
  | _, [] => True
  | tip, b :: rest => t.pprev b = some tip ∧ Climbs t b rest

structure Progress (env : ChainEnv) (I : CChainState → H256 → Prop) (floor m oldTip : H256)
    (s s' : CChainState) (outcome : ConnectOutcome) : Prop where
  floored : Floored env I floor s'
  frame : Frame s s'
  log : s'.blockDisconnected = s.blockDisconnected
  rises : s.tree.Anc s.tip s'.tip
  below : s.tree.Anc s'.tip m
  kept : outcome ≠ .invalid →
    (∀ a, (s'.marks a).failed = (s.marks a).failed) ∧ m ∈ s'.setBlockIndexCandidates
  found : outcome = .invalid → ∃ b, s.tree.Anc b m ∧ (s'.marks b).failed = true
  better : outcome = .better → s.tree.nChainWork oldTip < s.tree.nChainWork s'.tip

theorem Progress.refl (floored : Floored env I floor s) (below : s.tree.Anc s.tip m)
    (mem : m ∈ s.setBlockIndexCandidates) : Progress env I floor m oldTip s s .all :=
  ⟨floored, .refl s, rfl, .refl _, below, fun _ => ⟨fun _ => rfl, mem⟩, fun absurd => (by cases absurd),
    fun absurd => (by cases absurd)⟩

theorem Progress.trans {s'' : CChainState} {outcome : ConnectOutcome}
    (first : Progress env I floor m oldTip s s' .all)
    (second : Progress env I floor m oldTip s' s'' outcome) :
    Progress env I floor m oldTip s s'' outcome := by
  have tree := first.frame.tree
  have failed := (first.kept (by decide)).1
  refine ⟨second.floored, first.frame.trans second.frame, second.log.trans first.log,
    first.rises.trans (tree ▸ second.rises), tree ▸ second.below, fun valid => ?_, fun invalid => ?_,
    fun better => ?_⟩
  · exact ⟨fun a => ((second.kept valid).1 a).trans (failed a), (second.kept valid).2⟩
  · obtain ⟨b, anc, isFailed⟩ := second.found invalid
    exact ⟨b, tree ▸ anc, isFailed⟩
  · have := second.better better
    rw [tree] at this
    exact this

theorem climbs_ancestorsBetween (count : Nat) (known : (s.tree.index m).isSome)
    (anc : s.tree.Anc a m) (le : s.tree.nHeight a + count ≤ s.tree.nHeight m) :
    Climbs s.tree a ((range' (s.tree.nHeight a + 1) count).filterMap (s.tree.getAncestor m)) ∧
      ((range' (s.tree.nHeight a + 1) count).filterMap (s.tree.getAncestor m)).length = count := by
  induction count generalizing a with
  | zero => exact ⟨trivial, rfl⟩
  | succ count ih =>
    obtain ⟨b, found, ancB, height⟩ := exists_getAncestor known
      (show s.tree.nHeight a + 1 ≤ s.tree.nHeight m by omega)
    -- its predecessor is the only ancestor at the height below
    have prev : s.tree.pprev b = some a := by
      cases prev : s.tree.pprev b with
      | none =>
        rw [eq_genesis_of_pprev (isSome_of_anc ancB known) prev,
          nHeight_genesis] at height
        omega
      | some p =>
        have heightP := nHeight_of_pprev prev
        have ancP : s.tree.Anc p m := .trans (.parent prev) ancB
        have same : s.tree.nHeight p = s.tree.nHeight a := by omega
        rw [(ancP.of_height_le anc same.le).eq_of_height same.ge]
    rw [range'_succ, filterMap_cons_some found, ← height]
    obtain ⟨climbs, length⟩ := ih ancB (by omega)
    exact ⟨⟨prev, climbs⟩, by rw [length_cons, length]⟩

theorem anc_of_mem_ancestorsBetween {low high : Nat} (mem : b ∈ s.ancestorsBetween m low high) :
    s.tree.Anc b m := by
  obtain ⟨h, _, found⟩ := mem_filterMap.1 mem
  exact (ancestorAt_eq_some.1 found).1

section

variable (stable : Stable env I) (oldTip) (floored : Floored env I floor s)
  (mem : m ∈ s.setBlockIndexCandidates) (linked : (s.marks m).nChainTx ≠ 0)
  (clean : ∀ a, s.tree.Anc a m → (s.marks a).failed = false) (below : s.tree.Anc s.tip m)
include stable floored mem linked clean below

theorem connectBlocks_spec {bs : List H256} (climbs : Climbs s.tree s.tip bs)
    (path : ∀ b ∈ bs, s.tree.Anc b m) :
    ∃ s' outcome, connectBlocks env oldTip bs s = some (s', outcome) ∧
      Progress env I floor m oldTip s s' outcome ∧
      (outcome = .all → s.tree.nHeight s'.tip = s.tree.nHeight s.tip + bs.length) := by
  induction bs generalizing s with
  | nil => exact ⟨s, .all, rfl, .refl floored below mem, fun _ => rfl⟩
  | cons b rest ih =>
    rw [forall_mem_cons] at path
    obtain ⟨prev, climbs⟩ := climbs
    obtain ⟨f, holds⟩ := floored.exists_holds
    have fine := clean b path.1
    simp only [connectBlocks, connectTip, prev, not_true_eq_false, if_false, bind_eq_bind, ne_eq]
    cases valid : env.connectBlock b with
    | false =>
      refine ⟨_, .invalid, rfl, ⟨floored.invalid stable prev valid, frame_invalidBlockFound, rfl,
        .refl _, below, fun absurd => (absurd rfl).elim, fun _ => ⟨b, path.1, ?_⟩,
        fun absurd => (by cases absurd)⟩, fun absurd => (by cases absurd)⟩
      rw [marks_invalidBlockFound, if_pos rfl]
      rfl
    | true =>
      have linkedB := linked_of_anc (stable.core holds).linkedPrev path.1 linked
      obtain ⟨s₂, pruned, after, frame, tip, failed, log, memAfter⟩ :=
        floored.connect stable prev valid linkedB fine mem path.1
      have first : Progress env I floor m oldTip s s₂ .all :=
        ⟨after, frame, log, tip ▸ .parent prev, tip ▸ path.1, fun _ => ⟨failed, memAfter⟩,
          fun absurd => (by cases absurd), fun absurd => (by cases absurd)⟩
      have height : s.tree.nHeight s₂.tip = s.tree.nHeight s.tip + 1 := by
        rw [tip]
        exact nHeight_of_pprev prev
      simp only [if_true, bind_some, pruned]
      split
      · rename_i better
        rw [frame.tree] at better
        exact ⟨s₂, .better, rfl, ⟨after, frame, log, first.rises, first.below, first.kept ∘ fun _ => by
          decide, fun absurd => (by cases absurd), fun _ => better⟩, fun absurd => (by cases absurd)⟩
      · obtain ⟨s', outcome, ran, second, heightRest⟩ := ih after memAfter
          (by rw [frame.nChainTx]; exact linked)
          (fun a anc => by rw [failed]; exact clean a (frame.tree ▸ anc))
          (frame.tree ▸ first.below) (by rw [frame.tree, tip]; exact climbs)
          (fun c memC => by rw [frame.tree]; exact path.2 c memC)
        refine ⟨s', outcome, ran, first.trans second, fun all => ?_⟩
        have := heightRest all
        rw [frame.tree, height] at this
        rw [this, length_cons]
        omega

theorem connectRounds_spec (known : (s.tree.index m).isSome)
    (enough : s.tree.nHeight m ≤ s.tree.nHeight s.tip + rounds) :
    ∃ s' outcome, connectRounds env oldTip m rounds (s.tree.nHeight s.tip) s = some (s', outcome) ∧
      Progress env I floor m oldTip s s' outcome ∧ (outcome = .all → s'.tip = m) := by
  induction rounds generalizing s with
  | zero => exact ⟨s, .all, rfl, .refl floored below mem, fun _ => below.eq_of_height enough⟩
  | succ rounds ih =>
    rw [connectRounds]
    split
    · rename_i reached
      exact ⟨s, .all, rfl, .refl floored below mem, fun _ => below.eq_of_height reached.ge⟩
    · rename_i notReached
      have lower := nHeight_le_of_anc below
      dsimp only
      generalize isTarget : min (s.tree.nHeight s.tip + 32) (s.tree.nHeight m) = nTargetHeight
      obtain ⟨climbs, length⟩ := climbs_ancestorsBetween (nTargetHeight - s.tree.nHeight s.tip)
        known below (by omega)
      obtain ⟨s₁, outcome, ran, progress, height⟩ := connectBlocks_spec oldTip stable
        floored mem linked clean below climbs fun b => anc_of_mem_ancestorsBetween
      rw [show connectBlocks env oldTip (s.ancestorsBetween m (s.tree.nHeight s.tip) nTargetHeight) s =
        some (s₁, outcome) from ran]
      cases outcome with
      | all =>
        have tree := progress.frame.tree
        have height := height rfl
        rw [length] at height
        obtain ⟨failed, memAfter⟩ := progress.kept (by decide)
        have heightAfter : s₁.tree.nHeight s₁.tip = nTargetHeight := by
          rw [tree]
          omega
        obtain ⟨s', outcome, ranRest, rest, reached⟩ := ih progress.floored memAfter
          (by rw [progress.frame.nChainTx]; exact linked)
          (fun a anc => by rw [failed]; exact clean a (tree ▸ anc)) (tree ▸ progress.below)
          (tree ▸ known) (by rw [heightAfter, tree]; omega)
        rw [heightAfter] at ranRest
        exact ⟨s', outcome, ranRest, progress.trans rest, reached⟩
      | better => exact ⟨s₁, .better, rfl, progress, fun absurd => (by cases absurd)⟩
      | invalid => exact ⟨s₁, .invalid, rfl, progress, fun absurd => (by cases absurd)⟩

end

/-! ## Steps -/

/-- What a step towards a target comes to. What the tip and the target have in common stays active;
the rest may be disconnected. -/
structure Stepped (env : ChainEnv) (I : CChainState → H256 → Prop) (floor m : H256) (s s' : CChainState)
    (found : Bool) : Prop where
  floored : Floored env I floor s'
  frame : Frame s s'
  below : s.tree.Anc s'.tip m
  common : ∀ x, s.tree.Anc x m → s.tree.Anc x s.tip → s.tree.Anc x s'.tip
  kept : found = false →
    (∀ a, (s'.marks a).failed = (s.marks a).failed) ∧ m ∈ s'.setBlockIndexCandidates
  invalid : found = true → ∃ b, s.tree.Anc b m ∧ (s'.marks b).failed = true
  nearer : found = false → s'.tip = m ∨ s.tree.nChainWork s.tip < s.tree.nChainWork s'.tip
  log : ∃ gone, s'.blockDisconnected = gone ++ s.blockDisconnected ∧
    (∀ b ∈ gone, s.tree.Anc b s.tip ∧ ¬ s.tree.Anc b m) ∧
    ∀ b, s.tree.Anc b s.tip → s.tree.Anc b s'.tip ∨ b ∈ gone

theorem activateBestChainStep_spec (stable : Stable env I) (holds : I s floor)
    (below : s.rank env s.tip ≤ s.rank env floor) (target : s.Target env floor m) :
    ∃ s' found, s.activateBestChainStep env m = some (s', found) ∧
      Stepped env I floor m s s' found := by
  obtain ⟨fork, isFork, ancM, ancTip, last⟩ :=
    findFork_spec target.known (stable.core holds).active.known
  let gone := ((s.tree.links.line s.tip).takeWhile fun b => decide (b ≠ fork)).reverse
  let low : CChainState := { s with tip := fork, blockDisconnected := gone ++ s.blockDisconnected }
  have floored : Floored env I floor low := by
    have disconnected := stable.disconnect holds ancTip (gone ++ s.blockDisconnected)
    have lower : s.rank env fork ≤ s.rank env floor := (rank_le_of_anc ancTip).trans below
    rcases lower.lt_or_eq with less | same
    · exact .inr ⟨disconnected, less⟩
    · obtain rfl := rank_injective env s same
      exact .inl ⟨disconnected, le_rfl⟩
  have bound := nHeight_le_of_anc ancM
  obtain ⟨s', outcome, ran, progress, reached⟩ := connectRounds_spec s.tip stable floored
    target.mem target.linked target.clean ancM target.known
    (show s.tree.nHeight m ≤ s.tree.nHeight fork + (s.tree.nHeight m - s.tree.nHeight fork) by omega)
  have inGone : ∀ b, b ∈ gone ↔ s.tree.Anc b s.tip ∧ ¬ s.tree.Anc b fork := by
    intro b
    rw [mem_reverse, mem_takeWhile_ne ancTip]
  refine ⟨s', outcome == .invalid, ?_, progress.floored, ?_, progress.below, fun x ancX ancTipX =>
    (last x ancX ancTipX).trans progress.rises, fun valid => progress.kept (by simpa using valid),
    fun invalid => progress.found (by simpa using invalid), fun valid => ?_, gone, progress.log, ?_, ?_⟩
  · have ran' : connectRounds env s.tip m (s.tree.nHeight m - s.tree.nHeight fork) (s.tree.nHeight fork)
        low = some (s', outcome) := ran
    simp only [activateBestChainStep, isFork, bind_eq_bind, bind_some,
      disconnectTips_ne ancTip]
    rw [show connectRounds env s.tip m (s.tree.nHeight m - s.tree.nHeight fork) (s.tree.nHeight fork) _ =
      some (s', outcome) from ran']
    rfl
  · have frame := progress.frame
    exact ⟨frame.tree, frame.nTx, frame.nChainTx, frame.nSequenceId, frame.failed, frame.unlinked,
      frame.candidates⟩
  · cases outcome with
    | all => exact .inl (reached rfl)
    | better => exact .inr (progress.better rfl)
    | invalid => cases valid
  · intro b mem
    obtain ⟨ancB, above⟩ := (inGone b).1 mem
    exact ⟨ancB, fun ancBM => above (last b ancBM ancB)⟩
  · intro b ancB
    by_cases ancFork : s.tree.Anc b fork
    · exact .inl (ancFork.trans progress.rises)
    · exact .inr ((inGone b).2 ⟨ancB, ancFork⟩)

/-! ## The loops -/

/-- Where the loops of `ActivateBestChain` pass: the tip is not better than the one to get on from, and
a block to go to is the best one. -/
structure Driven (env : ChainEnv) (I : CChainState → H256 → Prop) (pindexMostWork : Option H256)
    (starting_tip : H256) (s : CChainState) : Prop where
  holds : I s starting_tip
  below : s.rank env s.tip ≤ s.rank env starting_tip
  target : ∀ m ∈ pindexMostWork, s.Target env starting_tip m

structure Settled (I : CChainState → H256 → Prop) (s : CChainState) : Prop where
  holds : I s s.tip
  only : ∀ c ∈ s.setBlockIndexCandidates, c = s.tip

/-- What a block and all those one may go to have in common is kept. A block that is not active any
more was disconnected. -/
def Keeps (s s' : CChainState) (pindexMostWork : Option H256) : Prop :=
  ∃ gone, s'.blockDisconnected = gone ++ s.blockDisconnected ∧
    (∀ b, s.tree.Anc b s.tip → s.tree.Anc b s'.tip ∨ b ∈ gone) ∧
    ∀ x, s.tree.Anc x s.tip → (∀ c ∈ s.setBlockIndexCandidates, s.tree.Anc x c) →
      (∀ m ∈ pindexMostWork, s.tree.Anc x m) →
      s.tree.Anc x s'.tip ∧ ∀ b ∈ gone, s.tree.nHeight x < s.tree.nHeight b

theorem Keeps.refl (s : CChainState) (pindexMostWork : Option H256) : Keeps s s pindexMostWork :=
  ⟨[], rfl, fun _ anc => .inl anc, fun _ anc _ _ => ⟨anc, by simp⟩⟩

theorem Keeps.step {s₁ s₂ : CChainState} {next : Option H256} {found : Bool}
    (stepped : Stepped env I floor m s s₁ found) (same : ∀ m' ∈ next, m' = m) (rest : Keeps s₁ s₂ next) :
    Keeps s s₂ (some m) := by
  obtain ⟨gone, log, apart, covered⟩ := stepped.log
  obtain ⟨goneRest, logRest, coveredRest, kept⟩ := rest
  rw [stepped.frame.tree] at kept coveredRest
  refine ⟨goneRest ++ gone, by rw [logRest, log, append_assoc], fun b ancB => ?_,
    fun x ancTip ancCandidates ancM => ?_⟩
  · rcases covered b ancB with ancB | mem
    · exact (coveredRest b ancB).imp_right (mem_append_left _)
    · exact .inr (mem_append_right _ mem)
  · have ancM := ancM m rfl
    obtain ⟨ancAfter, above⟩ := kept x (stepped.common x ancM ancTip)
      (fun c mem => ancCandidates c (stepped.frame.candidates c mem)) (fun m' mem => same m' mem ▸ ancM)
    refine ⟨ancAfter, fun b mem => ?_⟩
    rcases mem_append.1 mem with mem | mem
    · exact above b mem
    · -- otherwise it is an ancestor of the target
      obtain ⟨ancB, notM⟩ := apart b mem
      by_contra low
      exact notM (Util.ParentTree.Anc.trans (ancB.of_height_le ancTip (not_lt.1 low)) ancM)

theorem Driven.next (driven : Driven env I (some m) starting_tip s)
    (stepped : Stepped env I starting_tip m s s₁ found) :
    (s₁.worse env s₁.tip starting_tip →
      Driven env I (if found then none else some m) starting_tip s₁) ∧
    (s₁.worse env s₁.tip starting_tip = false →
      Driven env I (if found then none else some m) s₁.tip s₁) := by
  have target := driven.target m rfl
  have frame := stepped.frame
  have ranks : s₁.rank env = s.rank env := frame.rank
  -- without an invalid block the target stays
  have stays : ∀ {f : H256}, s.rank env f ≤ s.rank env m →
      ∀ m' ∈ (if found then none else some m), s₁.Target env f m' := by
    intro f above m' mem
    cases found with
    | true => cases mem
    | false =>
      obtain rfl : m = m' := some.inj mem
      obtain ⟨failed, memAfter⟩ := stepped.kept rfl
      constructor
      · exact memAfter
      · rw [frame.tree]
        exact target.known
      · rw [frame.nChainTx]
        exact target.linked
      · intro a anc
        rw [failed]
        exact target.clean a (frame.tree ▸ anc)
      · rw [ranks]
        exact above
      · intro c memC
        rw [ranks]
        exact target.best c (frame.candidates c memC)
  refine ⟨fun behind => ?_, fun ahead => ?_⟩
  · rw [worse_iff] at behind
    exact ⟨stepped.floored.elim (fun reached => (behind.not_ge reached.2).elim) And.left, behind.le,
      stays target.above⟩
  · rw [worse_eq_false] at ahead
    exact ⟨stepped.floored.elim And.left fun below => (below.2.not_ge ahead).elim, le_rfl,
      stays (rank_le_of_anc stepped.below)⟩

theorem Driven.settled (stable : Stable env I) (driven : Driven env I (some s.tip) starting_tip s) :
    Settled I s := by
  have target := driven.target s.tip rfl
  obtain rfl : s.tip = starting_tip := rank_injective env s (driven.below.antisymm target.above)
  exact ⟨driven.holds, fun c mem => rank_injective env s
    ((target.best c mem).antisymm ((stable.core driven.holds).above c mem))⟩

theorem activateLoop_none (search : s.findMostWorkChain env = some (s₁, some m)) :
    activateLoop env (rounds + 1) none starting_tip blocks_connected s =
      activateLoop env (rounds + 1) (some m) starting_tip blocks_connected s₁ := by
  simp only [activateLoop, search, bind_eq_bind, bind_some]

def unflagged (s : CChainState) : Nat := (s.tree.known.filter fun b => !(s.marks b).failed).length

theorem unflagged_filter (frame : Frame s s') : s'.unflagged =
    ((s.tree.known.filter fun b => !(s.marks b).failed).filter fun b => !(s'.marks b).failed).length := by
  rw [unflagged, frame.tree, filter_filter]
  refine congrArg length (filter_congr fun b _ => ?_)
  cases failed : (s.marks b).failed with
  | false => rw [Bool.not_false, Bool.and_true]
  | true => rw [frame.failed b failed, Bool.not_true, Bool.false_and]

theorem unflagged_le (frame : Frame s s') : s'.unflagged ≤ s.unflagged := by
  rw [unflagged_filter frame]
  exact length_filter_le ..

theorem unflagged_lt (frame : Frame s s') (known : (s.tree.index b).isSome)
    (fine : (s.marks b).failed = false) (failed : (s'.marks b).failed) :
    s'.unflagged < s.unflagged := by
  rw [unflagged_filter frame]
  refine length_filter_lt_length_iff_exists.2 ⟨b, ?_, by simp [failed]⟩
  exact mem_filter.2 ⟨(s.tree.mem_known b).2 known, by simp [fine]⟩

def distance (s : CChainState) (m : H256) : Nat :=
  if s.tree.Anc s.tip m then s.tree.nHeight m - s.tree.nHeight s.tip else s.tree.nHeight m + 1

theorem Stepped.measure (target : s.Target env floor m) (away : m ≠ s.tip)
    (stepped : Stepped env I floor m s s' found) :
    (found → s'.unflagged < s.unflagged) ∧ (found = false → s'.distance m < s.distance m) := by
  refine ⟨fun invalid => ?_, fun valid => ?_⟩
  · obtain ⟨b, anc, failed⟩ := stepped.invalid invalid
    exact unflagged_lt stepped.frame (isSome_of_anc anc target.known) (target.clean b anc) failed
  · unfold distance
    rw [stepped.frame.tree, if_pos stepped.below]
    split
    · rename_i below
      have rises := stepped.common s.tip below (.refl _)
      have differs : s.tip ≠ s'.tip := by
        intro same
        rcases stepped.nearer valid with reached | more
        · exact away (reached.symm.trans same.symm)
        · rw [same] at more
          exact lt_irrefl _ more
      have higher : s.tree.nHeight s.tip < s.tree.nHeight s'.tip := by
        by_contra notHigher
        exact differs (rises.eq_of_height (not_lt.1 notHigher))
      have bound := nHeight_le_of_anc stepped.below
      omega
    · omega

theorem Driven.search (stable : Stable env I) (driven : Driven env I none starting_tip s) :
    ∃ s₁ m, s.findMostWorkChain env = some (s₁, some m) ∧ Driven env I (some m) starting_tip s₁ ∧
      Frame s s₁ ∧ ∀ s₂, Keeps s₁ s₂ (some m) → Keeps s s₂ none := by
  obtain ⟨s₁, m, search, holds, frame, tip, log, target⟩ := findMostWorkChain_spec stable driven.holds
  refine ⟨s₁, m, search, ⟨holds, ?_, fun m' mem => some.inj mem ▸ target⟩, frame,
    fun s₂ keeps => ?_⟩
  · rw [show s₁.rank env = s.rank env from frame.rank, tip]
    exact driven.below
  · obtain ⟨gone, logRest, covered, kept⟩ := keeps
    rw [frame.tree, tip] at covered kept
    refine ⟨gone, by rw [logRest, log], covered, fun x ancTip ancCandidates _ => ?_⟩
    exact kept x ancTip (fun c mem => ancCandidates c (frame.candidates c mem)) fun m' mem =>
      some.inj mem ▸ ancCandidates m (frame.candidates m target.mem)

def Ends (env : ChainEnv) (I : CChainState → H256 → Prop) (pindexMostWork : Option H256)
    (starting_tip : H256) (blocks_connected : Bool) (s : CChainState) : Prop :=
  ∃ n s', (∀ rounds ≥ n, activateLoop env rounds pindexMostWork starting_tip blocks_connected s =
    some s') ∧ Settled I s' ∧ Frame s s' ∧ Keeps s s' pindexMostWork

theorem Ends.of_search (search : s.findMostWorkChain env = some (s₁, some m)) (frame : Frame s s₁)
    (keeps : ∀ s₂, Keeps s₁ s₂ (some m) → Keeps s s₂ none)
    (ends : Ends env I (some m) starting_tip blocks_connected s₁) :
    Ends env I none starting_tip blocks_connected s := by
  obtain ⟨n, s', runs, settled, frameRest, keepsRest⟩ := ends
  refine ⟨n + 1, s', fun rounds enough => ?_, settled, frame.trans frameRest, keeps s' keepsRest⟩
  obtain ⟨rounds, rfl⟩ : ∃ r, rounds = r + 1 := ⟨rounds - 1, by omega⟩
  rw [activateLoop_none search]
  exact runs _ (by omega)

theorem Ends.of_step (stable : Stable env I) (away : m ≠ s.tip)
    (driven : Driven env I (some m) starting_tip s)
    (step : s.activateBestChainStep env m = some (s₁, found))
    (stepped : Stepped env I starting_tip m s s₁ found)
    (rest : ∀ (tip : H256) (connected : Bool), Driven env I (if found then none else some m) tip s₁ →
      Ends env I (if found then none else some m) tip connected s₁) :
    Ends env I (some m) starting_tip blocks_connected s := by
  obtain ⟨behind, ahead⟩ := driven.next stepped
  have same : ∀ m' ∈ (if found then none else some m), m' = m := by
    intro m' mem
    cases found with
    | true => cases mem
    | false => exact (some.inj mem).symm
  generalize isNext : (if found then none else some m) = next at behind ahead rest same
  have round : ∀ rounds, activateLoop env (rounds + 1) (some m) starting_tip blocks_connected s =
      if s₁.worse env s₁.tip starting_tip then activateLoop env rounds next starting_tip true s₁
      else if next = some s₁.tip then some s₁ else activateLoop env rounds next s₁.tip false s₁ := by
    intro rounds
    simp only [activateLoop, bind_eq_bind, bind_some, if_neg away, step, isNext]
  -- a run of the rest is a run of all
  have continued : ∀ {tip : H256} {connected : Bool}, (∀ rounds, activateLoop env (rounds + 1) (some m)
      starting_tip blocks_connected s = activateLoop env rounds next tip connected s₁) →
      Ends env I next tip connected s₁ → Ends env I (some m) starting_tip blocks_connected s := by
    rintro tip connected eq ⟨n, s', runs, settled, frameRest, keeps⟩
    refine ⟨n + 1, s', fun rounds enough => ?_, settled, stepped.frame.trans frameRest,
      .step stepped same keeps⟩
    obtain ⟨rounds, rfl⟩ : ∃ r, rounds = r + 1 := ⟨rounds - 1, by omega⟩
    rw [eq]
    exact runs _ (by omega)
  cases worse : s₁.worse env s₁.tip starting_tip with
  | true => exact continued (fun rounds => by rw [round, worse, if_pos rfl]) (rest _ _ (behind worse))
  | false =>
    by_cases reached : next = some s₁.tip
    · refine ⟨1, s₁, fun rounds enough => ?_, ?_, stepped.frame, .step stepped same (.refl _ _)⟩
      · obtain ⟨rounds, rfl⟩ : ∃ r, rounds = r + 1 := ⟨rounds - 1, by omega⟩
        rw [round, worse, if_neg Bool.false_ne_true, if_pos reached]
      · have driven := ahead worse
        rw [reached] at driven
        exact driven.settled stable
    · refine continued (fun rounds => ?_) (rest s₁.tip false (ahead worse))
      rw [round, worse, if_neg Bool.false_ne_true, if_neg reached]

/-- With a block to go to the loops end, by the number of blocks without a flag and then by how far the
tip is from it. -/
theorem Ends.toTarget (stable : Stable env I) (flags far : Nat) {s : CChainState} {m : H256}
    (isFlags : s.unflagged = flags) (isFar : s.distance m = far)
    (driven : Driven env I (some m) starting_tip s) :
    Ends env I (some m) starting_tip blocks_connected s := by
  induction flags using Nat.strongRecOn generalizing far s m starting_tip blocks_connected with
  | _ flags ihFlags =>
    induction far using Nat.strongRecOn generalizing s m starting_tip blocks_connected with
    | _ far ihFar =>
      by_cases away : m = s.tip
      · subst away
        refine ⟨1, s, fun rounds enough => ?_, driven.settled stable, .refl s, .refl s _⟩
        obtain ⟨rounds, rfl⟩ : ∃ r, rounds = r + 1 := ⟨rounds - 1, by omega⟩
        simp only [activateLoop, bind_eq_bind, bind_some, if_true]
      · have target := driven.target m rfl
        obtain ⟨s₁, found, step, stepped⟩ :=
          activateBestChainStep_spec stable driven.holds driven.below target
        obtain ⟨fewer, nearer⟩ := stepped.measure target away
        refine .of_step stable away driven step stepped fun tip connected drivenNext => ?_
        cases found with
        | true =>
          obtain ⟨s₂, m₂, search, drivenSearch, frame, keeps⟩ := drivenNext.search stable
          have less : s₂.unflagged < flags := by
            have := unflagged_le frame
            have := fewer rfl
            omega
          exact .of_search search frame keeps (ihFlags _ less _ rfl rfl drivenSearch)
        | false =>
          rcases (unflagged_le stepped.frame).lt_or_eq with less | same
          · exact ihFlags _ (isFlags ▸ less) _ rfl rfl drivenNext
          · exact ihFar _ (isFar ▸ nearer rfl) (same.trans isFlags) rfl drivenNext

theorem activateBestChain_ends (stable : Stable env I) (holds : I s s.tip) :
    ∃ n s', (∀ rounds ≥ n, s.activateBestChain env rounds = some s') ∧ Settled I s' ∧ Frame s s' ∧
      Keeps s s' none := by
  have driven : Driven env I none s.tip s := ⟨holds, le_rfl, fun _ mem => (by cases mem)⟩
  obtain ⟨s₁, m, search, drivenSearch, frame, keeps⟩ := driven.search stable
  exact Ends.of_search search frame keeps (.toTarget stable _ _ rfl rfl drivenSearch)

theorem activateLoop_mono {more : Nat} {pindexMostWork : Option H256} (le : rounds ≤ more)
    (ran : activateLoop env rounds pindexMostWork starting_tip blocks_connected s = some s') :
    activateLoop env more pindexMostWork starting_tip blocks_connected s = some s' := by
  induction rounds generalizing more pindexMostWork starting_tip blocks_connected s with
  | zero => cases ran
  | succ rounds ih =>
    obtain ⟨more, rfl⟩ : ∃ r, more = r + 1 := ⟨more - 1, by omega⟩
    have le : rounds ≤ more := by omega
    have toTarget : ∀ (b starting_tip : H256) (blocks_connected : Bool) (s : CChainState),
        activateLoop env (rounds + 1) (some b) starting_tip blocks_connected s = some s' →
        activateLoop env (more + 1) (some b) starting_tip blocks_connected s = some s' := by
      intro b starting_tip blocks_connected s ran
      simp only [activateLoop, bind_eq_bind, bind_some] at ran ⊢
      by_cases reached : b = s.tip
      · rw [if_pos reached] at ran ⊢
        exact ran
      · rw [if_neg reached] at ran ⊢
        obtain ⟨⟨s₁, found⟩, step, ran⟩ := bind_eq_some_iff.mp ran
        refine bind_eq_some_iff.mpr ⟨(s₁, found), step, ?_⟩
        generalize (if found then none else some b) = next at ran ⊢
        split_ifs at ran ⊢ <;> first | exact ih le ran | exact ran
    cases pindexMostWork with
    | some b => exact toTarget b starting_tip blocks_connected s ran
    | none =>
      obtain ⟨⟨s₁, next⟩, searched, ran⟩ := bind_eq_some_iff.mp ran
      refine bind_eq_some_iff.mpr ⟨(s₁, next), searched, ?_⟩
      cases next with
      | some b => exact toTarget b starting_tip blocks_connected s₁ ran
      | none =>
        split_ifs at ran ⊢ with connected
        · exact ih le ran
        · exact ran

theorem activateBestChain_spec (stable : Stable env I) (holds : I s s.tip)
    (ran : s.activateBestChain env rounds = some s') :
    Settled I s' ∧ Frame s s' ∧ Keeps s s' none := by
  obtain ⟨n, s₁, runs, spec⟩ := activateBestChain_ends stable holds
  have same := activateLoop_mono (Nat.le_max_left rounds n) ran
  rw [show activateLoop env (max rounds n) none s.tip false s = some s₁ from
    runs _ (Nat.le_max_right rounds n)] at same
  obtain rfl := some.inj same
  exact spec

end CChainState
end Artax
