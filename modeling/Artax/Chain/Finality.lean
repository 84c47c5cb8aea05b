import Artax.Chain.InvalidBranch

/-!
# Rolling finality

The synchronized checkpoint lies 500 blocks below the tip. What arrives has to be above its height,
not a descendant, so the checkpoint can be disconnected. It is not as long as data is only stored for
its descendants.
-/

namespace Artax
open Function BlockTree Option

namespace CChainState

variable {env : ChainEnv} {s s' : CChainState} {a b : H256}

/-! ## The checkpoint -/

/-- A block the search for the checkpoint stops at. -/
def BelowSpan (s : CChainState) (b : H256) : Prop :=
  s.tree.pprev b = none ∨ s.tree.nHeight b + nCheckpointSpan ≤ s.tree.nHeight s.tip

theorem autoSelectSyncCheckpoint_spec (known : (s.tree.index s.tip).isSome) :
    s.tree.Anc s.autoSelectSyncCheckpoint s.tip ∧ s.BelowSpan s.autoSelectSyncCheckpoint ∧
      ∀ x, s.tree.Anc x s.tip → s.BelowSpan x → s.tree.Anc x s.autoSelectSyncCheckpoint := by
  have stop : ∀ b, ((s.tree.pprev b).isNone ||
      decide (s.tree.nHeight b + nCheckpointSpan ≤ s.tree.nHeight s.tip)) ↔ s.BelowSpan b := by
    intro b
    rw [Bool.or_eq_true, isNone_iff_eq_none, decide_eq_true_eq, BelowSpan]
  obtain ⟨cp, found⟩ : ∃ cp, (s.tree.links.line s.tip).find? (fun b => (s.tree.pprev b).isNone ||
      decide (s.tree.nHeight b + nCheckpointSpan ≤ s.tree.nHeight s.tip)) = some cp :=
    Util.ParentTree.exists_find?_line (genesis_anc known)
      ((stop s.tree.genesis).2 (.inl pprev_genesis))
  obtain ⟨anc, isBelow, last⟩ := Util.ParentTree.find?_line_eq_some found
  rw [autoSelectSyncCheckpoint, found]
  exact ⟨anc, (stop cp).1 isBelow, fun x ancX below => last x ancX ((stop x).2 below)⟩

theorem autoSelectSyncCheckpoint_eq (known : (s.tree.index s.tip).isSome)
    (ext : s.tree.Extends s'.tree) (tip : s'.tip = s.tip) :
    s'.autoSelectSyncCheckpoint = s.autoSelectSyncCheckpoint := by
  have knownAfter : (s'.tree.index s'.tip).isSome := by
    rw [tip]
    exact ext.isSome known
  have below : ∀ x, s.tree.Anc x s.tip → (s'.BelowSpan x ↔ s.BelowSpan x) := by
    intro x anc
    have knownX := isSome_of_anc anc known
    rw [BelowSpan, BelowSpan, tip, ext.pprev knownX, ext.nHeight knownX, ext.nHeight known]
  obtain ⟨anc, isBelow, last⟩ := autoSelectSyncCheckpoint_spec known
  obtain ⟨ancAfter, isBelowAfter, lastAfter⟩ := autoSelectSyncCheckpoint_spec knownAfter
  rw [tip, ext.anc known] at ancAfter
  refine Util.ParentTree.Anc.antisymm (T := s.tree.links)
    (last _ ancAfter ((below _ ancAfter).1 isBelowAfter))
    ((ext.anc (isSome_of_anc ancAfter known)).1 (lastAfter _ ?_ ((below _ anc).2 isBelow)))
  rw [tip, ext.anc known]
  exact anc

/-! ## Candidates over the checkpoint -/

def Anchored (s : CChainState) : Prop :=
  ∀ c ∈ s.setBlockIndexCandidates, s.tree.Anc s.autoSelectSyncCheckpoint c

theorem Anchored.arrive {new : H256} (anchored : s.Anchored) (known : (s.tree.index s.tip).isSome)
    (arrival : Arrival new s s') (above : (∀ c ∈ s'.setBlockIndexCandidates, c ∈ s.setBlockIndexCandidates) ∨
      s'.tree.Anc s.autoSelectSyncCheckpoint new) : s'.Anchored := by
  intro c mem
  rw [autoSelectSyncCheckpoint_eq known arrival.tree arrival.tip]
  rcases above with same | above
  · exact arrival.tree.anc_mono (anchored c (same c mem))
  · rcases arrival.candidates c mem with mem | descends
    · exact arrival.tree.anc_mono (anchored c mem)
    · exact above.trans descends

theorem Anchored.of_settled {I : CChainState → H256 → Prop} (settled : Settled I s)
    (known : (s.tree.index s.tip).isSome) : s.Anchored := by
  intro c mem
  rw [settled.only c mem]
  exact (autoSelectSyncCheckpoint_spec known).1

theorem acceptBlockHeader_candidates (env : ChainEnv) (s : CChainState) (header : CBlockHeader)
    (checks : HeaderChecks) : (s.acceptBlockHeader env header checks).1.setBlockIndexCandidates =
      s.setBlockIndexCandidates := by
  rcases acceptBlockHeader_cases env s header checks with ⟨_, same, _⟩ | ⟨failed, _, _, marked⟩ |
    ⟨prev, _, _, _, _, added⟩
  · rw [same]
  · rw [marked]
    rfl
  · rw [added]
    rfl

theorem haveData_receivedBlockTransactions (env : ChainEnv) (s : CChainState) (b : H256) (count : Nat) :
    ((s.receivedBlockTransactions env b count).marks b).haveData := by
  refine (quiet_receivedBlockTransactions env s b count).haveData b ?_
  simp only [received, markWhere, decide_true, if_true]
  unfold BlockMarks.raiseValidity
  split_ifs <;> rfl

def Stores (env : ChainEnv) (s : CChainState) (block : CBlock) (checks : BlockChecks)
    (fRequested : Bool) : Prop :=
  let hash := env.hashHeader block.toCBlockHeader
  ((s.acceptBlock env block checks fRequested).1.marks hash).haveData = true ∧
    ¬ ((s.tree.index hash).isSome = true ∧ (s.marks hash).haveData = true)

theorem acceptBlock_candidates (env : ChainEnv) (s : CChainState) (block : CBlock) (checks : BlockChecks)
    (fRequested : Bool) :
    (∀ c ∈ (s.acceptBlock env block checks fRequested).1.setBlockIndexCandidates,
      c ∈ s.setBlockIndexCandidates) ∨ s.Stores env block checks fRequested := by
  -- the data is looked at in the state that the header leaves
  have data : ∀ s₁ : CChainState, s₁.setBlockIndexCandidates = s.setBlockIndexCandidates →
      (∀ c ∈ (s₁.acceptBlockData env (env.hashHeader block.toCBlockHeader) block.vtx.length checks
        fRequested).1.setBlockIndexCandidates, c ∈ s.setBlockIndexCandidates) ∨
      ((s₁.acceptBlockData env (env.hashHeader block.toCBlockHeader) block.vtx.length checks
        fRequested).1.marks (env.hashHeader block.toCBlockHeader)).haveData ∧
        (s₁.marks (env.hashHeader block.toCBlockHeader)).haveData = false := by
    intro s₁ same
    rcases acceptBlockData_cases env s₁ (env.hashHeader block.toCBlockHeader) block.vtx.length checks
      fRequested with ⟨_, unchanged⟩ | ⟨missing, ⟨_, invalid⟩ | ⟨_, stored⟩⟩
    · rw [unchanged]
      exact .inl fun c mem => same ▸ mem
    · rw [invalid]
      exact .inl fun c mem => same ▸ mem
    · rw [stored]
      exact .inr ⟨haveData_receivedBlockTransactions env s₁ _ _, missing⟩
  unfold Stores acceptBlock
  rcases acceptBlockHeader_cases env s block.toCBlockHeader checks.toHeaderChecks with
    ⟨accepted, same, _⟩ | ⟨failed, _, _, marked⟩ | ⟨prev, fresh, _, _, _, added⟩
  · rw [same]
    cases accepted with
    | false => exact .inl fun c mem => mem
    | true =>
      refine (data s rfl).imp_right fun stored => ⟨stored.1, fun before => ?_⟩
      rw [stored.2] at before
      cases before.2
  · rw [marked]
    exact .inl fun c mem => mem
  · rw [added]
    refine (data (s.addToBlockIndex env block.toCBlockHeader) rfl).imp_right fun stored => ⟨stored.1, fun before => ?_⟩
    rw [fresh] at before
    cases before.1

/-! ## Runs -/

/-- The operations are arrivals and activations, and data is only stored for descendants of the
checkpoint. -/
def OverCheckpoint (env : ChainEnv) (s : CChainState) : ChainOp → Prop
  | .acceptBlockHeader _ _ => True
  | .acceptBlock block checks fRequested => s.Stores env block checks fRequested →
      (s.acceptBlock env block checks fRequested).1.tree.Anc s.autoSelectSyncCheckpoint
        (env.hashHeader block.toCBlockHeader)
  | .activateBestChain => True
  | _ => False

theorem Anchored.perform {rounds : Nat} {op : ChainOp} (anchored : s.Anchored)
    (sound : s.Sound env s.tip) (allowed : s.OverCheckpoint env op)
    (done : s.perform env rounds op = some s') : s'.Anchored ∧
      ∃ gone, s'.blockDisconnected = gone ++ s.blockDisconnected ∧
        ∀ b ∈ gone, s.tree.nHeight s.autoSelectSyncCheckpoint < s.tree.nHeight b := by
  have known := sound.active.usable.known
  cases op with
  | acceptBlockHeader header checks =>
    obtain rfl := some.inj done
    obtain ⟨_, _, arrival⟩ := acceptBlockHeader_spec sound header checks
    exact ⟨anchored.arrive known arrival (.inl fun c mem =>
      acceptBlockHeader_candidates env s header checks ▸ mem), [], arrival.blockDisconnected, by simp⟩
  | acceptBlock block checks fRequested =>
    obtain rfl := some.inj done
    obtain ⟨_, arrival, _⟩ := acceptBlock_spec sound block checks fRequested
    exact ⟨anchored.arrive known arrival ((acceptBlock_candidates env s block checks fRequested).imp_right
      allowed), [], arrival.blockDisconnected, by simp⟩
  | activateBestChain =>
    obtain ⟨settled, _, gone, log, _, kept⟩ := activateBestChain_spec (stable_sound env) sound done
    have above := kept _ (autoSelectSyncCheckpoint_spec known).1 anchored fun _ mem => (by cases mem)
    exact ⟨.of_settled settled settled.holds.active.usable.known, gone, log, above.2⟩
  | invalidateBlock | resetBlockFailureFlags | preciousBlock => exact allowed.elim

theorem anchored_start (genesis : H256) (nChainWork : Nat) (nTime : UInt32) :
    (start genesis nChainWork nTime).Anchored := by
  intro c mem
  rw [List.mem_singleton.1 mem]
  exact (autoSelectSyncCheckpoint_spec (s := start genesis nChainWork nTime)
    (start genesis nChainWork nTime).tree.root).1

/-- In a run in which data is only stored for descendants of the checkpoint, no operation disconnects
a block that is not above the checkpoint of the tip it starts with. -/
theorem disconnected_above_checkpoint (env : ChainEnv) (s s' : CChainState) (op : ChainOp)
    (rounds : Nat) (reached : Reaches env (OverCheckpoint env) s) (allowed : s.OverCheckpoint env op)
    (done : s.perform env rounds op = some s') :
    ∃ gone, s'.blockDisconnected = gone ++ s.blockDisconnected ∧
      ∀ b ∈ gone, s.tree.nHeight s.autoSelectSyncCheckpoint < s.tree.nHeight b := by
  have holds : s.Sound env s.tip ∧ s.Anchored := by
    clear allowed done
    induction reached with
    | start genesis nChainWork nTime =>
      exact ⟨sound_start env genesis nChainWork nTime, anchored_start genesis nChainWork nTime⟩
    | @step _ _ op _ _ allowed done ih =>
      refine ⟨ih.1.perform ?_ done, (ih.2.perform ih.1 allowed done).1⟩
      cases op with
      | invalidateBlock | resetBlockFailureFlags | preciousBlock => exact allowed.elim
      | _ => rfl
  exact (holds.2.perform holds.1 allowed done).2

section

/-- Block 3 is connected on the way to block 4. That is invalid, and block 2 is better than block 3. -/
theorem disconnected_above_checkpoint_of_fork : ∃ s s', Reaches (rejecting 4) (OverCheckpoint (rejecting 4)) s ∧
    s.activateBestChain (rejecting 4) 9 = some s' ∧ s'.blockDisconnected = [3] ∧
    s.tree.nHeight s.autoSelectSyncCheckpoint < s.tree.nHeight 3 := by
  have run : (performAll (rejecting 4) 9 [sampleBlock 1 2, sampleBlock 1 3, sampleBlock 3 4,
      .activateBestChain] (start 1 1 0)).any (fun s => s.blockDisconnected == [3]) := by
    decide +kernel
  obtain ⟨s, done, facts⟩ := (any_eq_true _ _).1 run
  obtain ⟨s₁, first, done⟩ := bind_eq_some_iff.1 done
  obtain ⟨s₂, second, done⟩ := bind_eq_some_iff.1 done
  obtain ⟨s₃, third, done⟩ := bind_eq_some_iff.1 done
  obtain ⟨s₄, activated, done⟩ := bind_eq_some_iff.1 done
  obtain rfl := some.inj done
  obtain rfl := some.inj first
  obtain rfl := some.inj second
  have reached : Reaches (rejecting 4) (OverCheckpoint (rejecting 4)) s₃ := by
    refine (((Reaches.start 1 1 0).step ?_ first).step ?_ second).step ?_ third
    all_goals exact fun _ => by decide +kernel
  obtain ⟨gone, log, above⟩ := disconnected_above_checkpoint (rejecting 4) s₃ s₄ .activateBestChain 9 reached
    trivial activated
  obtain rfl := some.inj third
  rw [beq_iff_eq] at facts
  refine ⟨_, s₄, reached, activated, facts, above 3 ?_⟩
  obtain rfl : [3] = gone := (facts.symm.trans log).trans (List.append_nil gone)
  exact List.mem_singleton_self 3

/-! The run that disconnects the checkpoint: 501 blocks and one that forks off the genesis block are
there before the first activation, which makes the chain of 501 blocks active. Then comes a heavy block
over the other. -/

def weighedEnv : ChainEnv := { sampleEnv with
  getBlockProof := fun header => header.nBits.toNat + 1
  getBlockProof_pos := fun _ => Nat.succ_pos _ }

def weighedBlock (hashPrevBlock hash : Nat) (nBits : UInt32) : CBlock :=
  { sampleHeader hashPrevBlock hash with nBits, vtx := [{ vin := [], vout := [] }] }

structure Plain (s : CChainState) : Prop where
  sound : s.Sound weighedEnv s.tip
  filed : s.Filed
  failedBlocks : s.failedBlocks = []
  failedValid : ∀ b, (s.marks b).failedValid = false
  haveData : ∀ b, (s.tree.index b).isSome = true → (s.marks b).haveData = true
  nTime : ∀ b n, s.tree.index b = some n → n.nTime = 0

theorem Plain.failed (plain : s.Plain) (known : (s.tree.index b).isSome) :
    (s.marks b).failed = false := by
  by_contra failed
  obtain ⟨a, _, invalid⟩ := plain.sound.flagged.caused b known (Bool.not_eq_false _ ▸ failed)
  rw [plain.failedValid] at invalid
  cases invalid

theorem Plain.linked (plain : s.Plain) (known : (s.tree.index b).isSome) :
    (s.marks b).nChainTx ≠ 0 := by
  rw [ne_eq, plain.sound.nChainTx_eq_zero_iff plain.filed known]
  rintro ⟨a, anc, missing⟩
  have knownA := isSome_of_anc anc known
  exact (plain.sound.indexed.consistent a knownA).data.1 (plain.haveData a knownA) missing

section

variable (plain : s.Plain) {hashPrevBlock : Nat} {prev : CBlockIndex} (hash : Nat) (nBits : UInt32)
  (fresh : s.tree.index hash = none) (found : s.tree.index hashPrevBlock = some prev)
  (high : s.tree.nHeight s.autoSelectSyncCheckpoint < prev.nHeight + 1)
include plain fresh found high

theorem Plain.acceptBlockHeader :
    s.acceptBlockHeader weighedEnv (weighedBlock hashPrevBlock hash nBits).toCBlockHeader {} =
      (s.addToBlockIndex weighedEnv (weighedBlock hashPrevBlock hash nBits).toCBlockHeader, true) := by
  have isHash : weighedEnv.hashHeader (weighedBlock hashPrevBlock hash nBits).toCBlockHeader = hash :=
    Int.toNat_natCast hash
  have knownPrev : (s.tree.index hashPrevBlock).isSome := by rw [found]; rfl
  have notRoot : hash ≠ s.tree.genesis := by
    rintro rfl
    have there := s.tree.root
    rw [fresh] at there
    cases there
  have inTime : s.tooOld (weighedBlock hashPrevBlock hash nBits).toCBlockHeader = false := by
    rw [tooOld, Bool.and_eq_false_iff]
    refine .inr ?_
    cases there : s.tree.index s.autoSelectSyncCheckpoint with
    | none => rfl
    | some checkpoint =>
      rw [any_some, plain.nTime _ _ there]
      rfl
  have search : s.failedAncestor weighedEnv hashPrevBlock = none := by
    rw [failedAncestor, plain.failedBlocks]
    split <;> rfl
  have synced : s.checkSync (prev.nHeight + 1) := by
    rw [checkSync, Bool.or_eq_true, decide_eq_true_eq]
    exact .inr high
  have isPrev : (weighedBlock hashPrevBlock hash nBits).hashPrevBlock = hashPrevBlock := rfl
  rw [CChainState.acceptBlockHeader, isHash, if_neg notRoot, fresh, inTime, isPrev, found]
  simp only [plain.failed knownPrev, synced, search]
  rfl

theorem Plain.deliver :
    ∃ s', s' = (s.acceptBlock weighedEnv (weighedBlock hashPrevBlock hash nBits) {} true).1 ∧ s'.Plain ∧
      s.tree.Extends s'.tree ∧ s'.tip = s.tip ∧ s'.blockDisconnected = s.blockDisconnected ∧
      s'.tree.index = update s.tree.index hash
        (some ⟨some hashPrevBlock, prev.nHeight + 1, prev.nChainWork + (nBits.toNat + 1), 0⟩) := by
  have known := plain.sound.active.usable.known
  have isHash : weighedEnv.hashHeader (weighedBlock hashPrevBlock hash nBits).toCBlockHeader = hash :=
    Int.toNat_natCast hash
  have positive := weighedEnv.getBlockProof_pos (weighedBlock hashPrevBlock hash nBits).toCBlockHeader
  set s₁ := s.addToBlockIndex weighedEnv (weighedBlock hashPrevBlock hash nBits).toCBlockHeader with isAdded
  have index : s₁.tree.index = update s.tree.index hash
      (some ⟨some hashPrevBlock, prev.nHeight + 1, prev.nChainWork + (nBits.toNat + 1), 0⟩) := by
    rw [← isHash] at fresh ⊢
    exact index_addToBlockIndex positive fresh found
  have ext : s.tree.Extends s₁.tree := by
    rw [← isHash] at fresh
    exact extends_addToBlockIndex positive fresh found
  have marks : ∀ x, s₁.marks x = if x = hash then { validity := .tree } else s.marks x := by
    have := marks_addToBlockIndex weighedEnv s (weighedBlock hashPrevBlock hash nBits).toCBlockHeader
    rwa [isHash] at this
  have stored : s.acceptBlock weighedEnv (weighedBlock hashPrevBlock hash nBits) {} true =
      (s₁.receivedBlockTransactions weighedEnv hash 1, true) := by
    have ancestor := (autoSelectSyncCheckpoint_spec known).1
    have height : s₁.tree.nHeight hash = prev.nHeight + 1 := by
      rw [nHeight, index, update_self]
      rfl
    have synced : s₁.checkSync (s₁.tree.nHeight hash) := by
      rw [checkSync, autoSelectSyncCheckpoint_eq known ext rfl,
        ext.nHeight (isSome_of_anc ancestor known), height, Bool.or_eq_true, decide_eq_true_eq]
      exact .inr high
    have missing : (s₁.marks hash).haveData = false := by rw [marks, if_pos rfl]
    rw [acceptBlock, plain.acceptBlockHeader hash nBits fresh found high, ← isAdded]
    simp only [acceptBlockData, isHash, synced, missing]
    rfl
  obtain ⟨sound, arrival, filed⟩ :=
    acceptBlock_spec plain.sound (weighedBlock hashPrevBlock hash nBits) {} true
  have quiet := (quiet_received s₁ hash 1).trans (quiet_receivedBlockTransactions weighedEnv s₁ hash 1)
  rw [isHash] at filed
  rw [stored] at sound arrival filed ⊢
  refine ⟨_, rfl, ⟨?_, filed plain.filed ?_, quiet.failedBlocks.trans plain.failedBlocks, fun b => ?_,
    fun b there => ?_, fun b n there => ?_⟩, arrival.tree, arrival.tip, arrival.blockDisconnected, ?_⟩
  · rw [arrival.tip]
    exact sound
  · intro p isPrev
    rw [pprev, fresh] at isPrev
    cases isPrev
  · rw [quiet.failedValid, marks]
    split
    · rfl
    · exact plain.failedValid b
  · by_cases same : b = hash
    · rw [same]
      exact haveData_receivedBlockTransactions weighedEnv s₁ hash 1
    · rw [quiet.tree, index, update_of_ne same] at there
      refine quiet.haveData b ?_
      rw [marks, if_neg same]
      exact plain.haveData b there
  · rw [quiet.tree, index] at there
    by_cases same : b = hash
    · rw [same, update_self] at there
      rw [← some.inj there]
    · rw [update_of_ne same] at there
      exact plain.nTime b n there
  · rw [quiet.tree, index]

end

theorem kept_clean : Kept weighedEnv (Sound weighedEnv) fun s =>
    s.failedBlocks = [] ∧ ∀ b, (s.marks b).failedValid = false where
  discard _ clean _ _ failed := by
    refine ⟨by rw [discard_eq failed]; exact clean.1, fun b => ?_⟩
    rw [marks_discard failed]
    split <;> exact clean.2 b
  connect _ clean _ _ fine :=
    ⟨clean.1, fun b => (connected_kept fine BlockMarks.failedValid (fun _ => rfl) b).trans (clean.2 b)⟩
  invalid _ _ _ invalid := by cases invalid
  disconnect clean _ := clean
  prune clean _ := clean

theorem Plain.activate (plain : s.Plain) : ∃ rounds s', s.activateBestChain weighedEnv rounds = some s' ∧
    s'.Plain ∧ s'.tree = s.tree ∧
    (∀ b, (s.tree.index b).isSome → s.tree.nChainWork b ≤ s.tree.nChainWork s'.tip) ∧
    Keeps s s' none := by
  obtain ⟨n, s', runs, settled, frame, keeps⟩ := activateBestChain_ends
    ((stable_sound weighedEnv).and kept_clean) ⟨plain.sound, plain.failedBlocks, plain.failedValid⟩
  obtain ⟨sound, failedBlocks, failedValid⟩ := settled.holds
  have after : s'.Plain := by
    refine ⟨sound, frame.filed plain.filed, failedBlocks, failedValid, fun b known => ?_, ?_⟩
    · rw [(sound.indexed.consistent b known).data, frame.nTx]
      rw [frame.tree] at known
      exact (plain.sound.indexed.consistent b known).data.1 (plain.haveData b known)
    · rw [frame.tree]
      exact plain.nTime
  refine ⟨n, s', runs n le_rfl, after, frame.tree, fun b known => ?_, keeps⟩
  rw [← frame.tree] at known ⊢
  refine nChainWork_le_of_rank (not_lt.1 fun (better : s'.rank weighedEnv s'.tip < s'.rank weighedEnv b) => ?_)
  have same := settled.only b (sound.ranked.complete b known (after.failed known) (after.linked known)
    better.le)
  rw [same] at better
  exact lt_irrefl _ better

def arrivesOrActivates : ChainOp → Bool
  | .acceptBlockHeader _ _ | .acceptBlock _ _ _ | .activateBestChain => true
  | _ => false

theorem Reaches.arrive {block : CBlock}
    (reached : Reaches weighedEnv (fun _ op => arrivesOrActivates op = true) s)
    (isAfter : s' = (s.acceptBlock weighedEnv block {} true).1) :
    Reaches weighedEnv (fun _ op => arrivesOrActivates op = true) s' := by
  have done : s.perform weighedEnv 0 (.acceptBlock block {} true) = some s' := congrArg some isAfter.symm
  exact reached.step (by rfl) done

theorem Plain.nHeight_checkpoint (plain : s.Plain) (tip : s.tip = 0) (root : s.tree.pprev 0 = none) :
    s.tree.nHeight s.autoSelectSyncCheckpoint = 0 := by
  have known := plain.sound.active.usable.known
  have anc := (autoSelectSyncCheckpoint_spec known).1
  rw [tip] at known anc
  rw [(anc_of_pprev_none root).1 anc]
  exact (congrArg s.tree.nHeight (eq_genesis_of_pprev known root)).trans
    nHeight_genesis

def chainIndex (n b : Nat) : Option CBlockIndex :=
  if b ≤ n then some ⟨if b = 0 then none else some (b - 1), b, b + 1, 0⟩ else none

theorem exists_chain (n : Nat) : ∃ s, Reaches weighedEnv (fun _ op => arrivesOrActivates op = true) s ∧
    s.Plain ∧ s.tip = 0 ∧ s.blockDisconnected = [] ∧ s.tree.index = chainIndex n := by
  induction n with
  | zero =>
    refine ⟨start 0 1 0, .start 0 1 0, ⟨sound_start weighedEnv 0 1 0, filed_start 0 1 0, rfl, fun b => ?_,
      fun b known => ?_, fun b n there => ?_⟩, rfl, rfl, funext fun b => ?_⟩
    · by_cases root : b = 0 <;> simp [start, root]
    · by_cases root : b = 0
      · simp [start, root]
      · simp [start, root] at known
    · by_cases root : b = 0
      · simp only [start, root, if_true, some.injEq] at there
        rw [← there]
      · simp [start, root] at there
    · by_cases root : b = 0 <;> simp [start, chainIndex, root]
  | succ n ih =>
    obtain ⟨s, reached, plain, tip, log, index⟩ := ih
    have fresh : s.tree.index (n + 1) = none := by simp [index, chainIndex]
    have found : s.tree.index n = some ⟨if n = 0 then none else some (n - 1), n, n + 1, 0⟩ := by
      simp [index, chainIndex]
    have root := plain.nHeight_checkpoint tip (by simp [pprev, index, chainIndex])
    obtain ⟨s', isAfter, after, _, tipAfter, logAfter, indexAfter⟩ :=
      plain.deliver (n + 1) 0 fresh found (root ▸ Nat.succ_pos _)
    refine ⟨s', reached.arrive isAfter, after, tipAfter.trans tip, logAfter.trans log,
      funext fun b => ?_⟩
    rw [indexAfter, index]
    by_cases same : b = n + 1
    · simp [same, chainIndex]
    · have le : b ≤ n + 1 ↔ b ≤ n := Nat.le_succ_iff.trans (or_iff_left same)
      simp [same, chainIndex, le]

def forkedIndex : H256 → Option CBlockIndex :=
  update (chainIndex 501) 1000 (some ⟨some 0, 1, 2, 0⟩)

theorem nChainWork_forkedIndex {n : CBlockIndex} (there : forkedIndex b = some n) :
    n.nChainWork ≤ 502 ∧ (502 ≤ n.nChainWork → b = 501) := by
  by_cases fork : b = 1000
  · rw [forkedIndex, fork, update_self] at there
    obtain rfl := some.inj there
    exact ⟨by decide, fun more => absurd more (by decide)⟩
  · rw [forkedIndex, update_of_ne fork, chainIndex] at there
    split at there
    · rename_i le
      obtain rfl := some.inj there
      exact ⟨Nat.succ_le_succ le, fun ge => le_antisymm le (Nat.le_of_succ_le_succ ge)⟩
    · cases there

theorem exists_forked : ∃ s, Reaches weighedEnv (fun _ op => arrivesOrActivates op = true) s ∧ s.Plain ∧
    s.tip = 501 ∧ s.tree.index = forkedIndex := by
  obtain ⟨s₁, reached₁, plain₁, tip₁, _, index₁⟩ := exists_chain 501
  have root := plain₁.nHeight_checkpoint tip₁ (by simp [pprev, index₁, chainIndex])
  have found : s₁.tree.index 0 = some ⟨none, 0, 1, 0⟩ := by simp [index₁, chainIndex]
  obtain ⟨s₂, isAfter, plain₂, _, _, _, index₂⟩ := plain₁.deliver 1000 0
    (by simp [index₁, chainIndex]) found (root ▸ Nat.succ_pos _)
  obtain ⟨rounds, s₃, activated, plain₃, tree₃, best, _⟩ := plain₂.activate
  have index : s₂.tree.index = forkedIndex := by
    rw [index₂, index₁]
    rfl
  have done : s₂.perform weighedEnv rounds .activateBestChain = some s₃ := activated
  refine ⟨s₃, (reached₁.arrive isAfter).step (by rfl) done, plain₃, ?_, by rw [tree₃, index]⟩
  obtain ⟨n, there⟩ := isSome_iff_exists.1 plain₃.sound.active.usable.known
  have work := best 501 (by simp [index, forkedIndex, chainIndex])
  rw [tree₃, index] at there
  simp only [nChainWork, index, there] at work
  exact (nChainWork_forkedIndex there).2 work

theorem autoSelectSyncCheckpoint_forked (plain : s.Plain) (tip : s.tip = 501)
    (index : s.tree.index = forkedIndex) : s.tree.Anc 1 s.tip ∧ s.autoSelectSyncCheckpoint = 1 := by
  have pprev : ∀ k : Nat, k + 1 ≤ 501 → s.tree.pprev (k + 1) = some k := by
    intro k le
    have notFork : k + 1 ≠ 1000 := by omega
    simp [pprev, index, forkedIndex, chainIndex, notFork, le]
  have nHeight : ∀ k : Nat, k ≤ 501 → s.tree.nHeight k = k := by
    intro k le
    have notFork : k ≠ 1000 := by omega
    simp [nHeight, index, forkedIndex, chainIndex, notFork, le]
  have chain : ∀ k : Nat, k + 1 ≤ 501 → s.tree.Anc 1 (k + 1) := by
    intro k le
    induction k with
    | zero => exact .refl 1
    | succ k ih => exact (ih (by omega)).trans (.parent (pprev (k + 1) le))
  obtain ⟨anc, below, last⟩ := autoSelectSyncCheckpoint_spec plain.sound.active.usable.known
  have ancOne : s.tree.Anc 1 s.tip := by
    rw [tip]
    exact chain 500 le_rfl
  have ofOne := last 1 ancOne (.inr (by rw [tip, nHeight 1 (by decide), nHeight 501 le_rfl]; decide))
  refine ⟨ancOne, (ofOne.eq_of_height ?_).symm⟩
  change s.tree.nHeight s.autoSelectSyncCheckpoint ≤ s.tree.nHeight 1
  rw [nHeight 1 (by decide)]
  rcases below with root | low
  · have known := isSome_of_anc anc plain.sound.active.usable.known
    rw [eq_genesis_of_pprev known root, nHeight_genesis]
    exact Nat.zero_le 1
  · rw [tip, nHeight 501 le_rfl] at low
    exact Nat.le_of_add_le_add_right low

/-- Block 1 is disconnected although the checkpoint is at its height. -/
theorem disconnects_checkpoint : ∃ env s s' rounds gone b,
    Reaches env (fun _ op => arrivesOrActivates op = true) s ∧
    s.activateBestChain env rounds = some s' ∧ s'.blockDisconnected = gone ++ s.blockDisconnected ∧
    b ∈ gone ∧ s.tree.nHeight b ≤ s.tree.nHeight s.autoSelectSyncCheckpoint := by
  obtain ⟨s₁, reached, plain₁, tip₁, index₁⟩ := exists_forked
  obtain ⟨active, checkpoint⟩ := autoSelectSyncCheckpoint_forked plain₁ tip₁ index₁
  have known := plain₁.sound.active.usable.known
  -- the heavy block is above the checkpoint
  have found : s₁.tree.index 1000 = some ⟨some 0, 1, 2, 0⟩ := by rw [index₁]; rfl
  have height : s₁.tree.nHeight 1 = 1 := by
    rw [nHeight, index₁]
    rfl
  obtain ⟨s₂, isAfter, plain₂, ext, tip₂, _, index₂⟩ := plain₁.deliver 1001 1000
    (by rw [index₁]; rfl) found (by rw [checkpoint, height]; decide)
  obtain ⟨rounds, s₃, activated, plain₃, tree₃, best, gone, log, covered, _⟩ := plain₂.activate
  have tip₃ : s₃.tip = 1001 := by
    obtain ⟨n, there⟩ := isSome_iff_exists.1 plain₃.sound.active.usable.known
    have work := best 1001 (by rw [index₂, update_self]; rfl)
    by_contra other
    rw [tree₃, index₂, update_of_ne other, index₁] at there
    simp only [nChainWork, index₂, update_self, update_of_ne other, index₁,
      there] at work
    exact absurd (work.trans (nChainWork_forkedIndex there).1) (by decide)
  refine ⟨weighedEnv, s₂, s₃, rounds, gone, 1, reached.arrive isAfter, activated, log, ?_, ?_⟩
  · refine (covered 1 (by rw [tip₂]; exact ext.anc_mono active)).resolve_left fun anc => ?_
    rw [tip₃] at anc
    have heavy : s₂.tree.pprev 1001 = some 1000 := by
      rw [pprev, index₂, update_self]
      rfl
    have fork : s₂.tree.pprev 1000 = some 0 := by
      rw [pprev, index₂, update_of_ne (by decide), found]
      rfl
    have root : s₂.tree.pprev 0 = none := by
      rw [pprev, index₂, update_of_ne (by decide), index₁]
      rfl
    rw [anc_of_pprev heavy, anc_of_pprev fork, anc_of_pprev_none root] at anc
    exact absurd anc (by decide)
  · rw [autoSelectSyncCheckpoint_eq known ext tip₂, checkpoint]

end

end CChainState
end Artax
