import Artax.Chain.Maintained

/-!
# Headers on invalid branches

`AcceptBlockHeader` refuses headers over an invalid block as long as no block over one is left
without a flag that its search does not find. `ActivateBestChain` leaves none; `AcceptBlock` does not
enter a block with invalid data into `m_failed_blocks`, and `InvalidateBlock` marks only active
blocks.
-/

namespace Artax

open BlockTree Option BlockMarks

theorem BlockMarks.validity_of_raiseValidity {m : BlockMarks} {nUpTo : BlockValidity}
    (lower : nUpTo ≠ .scripts) (scripts : (m.raiseValidity nUpTo).validity = .scripts) :
    m.validity = .scripts := by
  unfold raiseValidity at scripts
  split_ifs at scripts
  · exact scripts
  · exact (lower scripts).elim
  · exact scripts

namespace CChainState

variable {env : ChainEnv} {s s' : CChainState} {a b p floor : H256} {checks : BlockChecks}
  {fRequested : Bool}

/-! ## The invariant -/

/-- A block over one that was found invalid has a flag, or was not connected and the search finds a
block of the set. -/
structure Traced (env : ChainEnv) (s : CChainState) : Prop where
  flagged : ∀ a b, (s.tree.index b).isSome = true → s.tree.Anc a b → (s.marks a).failedValid = true →
    (s.marks b).failed = true ∨
      (s.marks b).validity ≠ .scripts ∧ ∃ failed ∈ s.failedBlocks, s.tree.Anc failed b
  valid : ∀ a b, (s.tree.index b).isSome = true → s.tree.Anc a b → a ≠ s.tree.genesis →
    (s.marks b).validity = .scripts → env.connectBlock a = true

/-- A change in which no block is found invalid, none is connected and no data is lost. -/
structure Quiet (s s' : CChainState) : Prop where
  tree : s'.tree = s.tree
  haveData : ∀ b, (s.marks b).haveData = true → (s'.marks b).haveData = true
  failedValid : ∀ b, (s'.marks b).failedValid = (s.marks b).failedValid
  failed : ∀ b, (s.marks b).failed = true → (s'.marks b).failed = true
  scripts : ∀ b, (s'.marks b).validity = .scripts → (s.marks b).validity = .scripts
  failedBlocks : s'.failedBlocks = s.failedBlocks

theorem Quiet.refl (s : CChainState) : Quiet s s :=
  ⟨rfl, fun _ => id, fun _ => rfl, fun _ => id, fun _ => id, rfl⟩

theorem Quiet.trans {s'' : CChainState} (first : Quiet s s') (second : Quiet s' s'') : Quiet s s'' where
  tree := second.tree.trans first.tree
  haveData b data := second.haveData b (first.haveData b data)
  failedValid b := (second.failedValid b).trans (first.failedValid b)
  failed b isFailed := second.failed b (first.failed b isFailed)
  scripts b isConnected := first.scripts b (second.scripts b isConnected)
  failedBlocks := second.failedBlocks.trans first.failedBlocks

theorem Quiet.of_marks (tree : s'.tree = s.tree) (failedBlocks : s'.failedBlocks = s.failedBlocks)
    (marks : ∀ x, ((s.marks x).haveData → (s'.marks x).haveData) ∧
      (s'.marks x).failedValid = (s.marks x).failedValid ∧
      ((s.marks x).failed → (s'.marks x).failed) ∧
      ((s'.marks x).validity = .scripts → (s.marks x).validity = .scripts)) : Quiet s s' :=
  ⟨tree, fun x => (marks x).1, fun x => (marks x).2.1, fun x => (marks x).2.2.1,
    fun x => (marks x).2.2.2, failedBlocks⟩

theorem Traced.quiet (traced : s.Traced env) (quiet : Quiet s s') : s'.Traced env := by
  constructor
  · intro a b known anc isFailed
    rw [quiet.tree] at known anc ⊢
    rw [quiet.failedValid] at isFailed
    rw [quiet.failedBlocks]
    exact (traced.flagged a b known anc isFailed).imp (quiet.failed b)
      fun found => ⟨fun isConnected => found.1 (quiet.scripts b isConnected), found.2⟩
  · intro a b known anc other isConnected
    rw [quiet.tree] at known anc other
    exact traced.valid a b known anc other (quiet.scripts b isConnected)

theorem Traced.failValid (traced : s.Traced env) (tree : s'.tree = s.tree)
    (marks : ∀ x, (s'.marks x).failedValid → (s.marks x).failedValid ∨ x = b)
    (failed : ∀ x, (s.marks x).failed ∨ x = b → (s'.marks x).failed)
    (validity : ∀ x, (s'.marks x).validity = (s.marks x).validity)
    (failedBlocks : ∀ x ∈ s.failedBlocks, x ∈ s'.failedBlocks)
    (above : ∀ x, (s.tree.index x).isSome → s.tree.Anc b x → (s'.marks x).failed ∨
      (s.marks x).validity ≠ .scripts ∧ b ∈ s'.failedBlocks) : s'.Traced env := by
  constructor
  · intro a x known anc isFailed
    rw [tree] at known anc ⊢
    rw [validity]
    rcases marks a isFailed with before | rfl
    · rcases traced.flagged a x known anc before with here | ⟨notConnected, f, mem, ancF⟩
      · exact .inl (failed x (.inl here))
      · exact .inr ⟨notConnected, f, failedBlocks f mem, ancF⟩
    · exact (above x known anc).imp_right fun found => ⟨found.1, a, found.2, anc⟩
  · intro a x
    rw [tree, validity]
    exact traced.valid a x

theorem Traced.failOne (traced : s.Traced env) (tree : s'.tree = s.tree)
    (marks : ∀ x, s'.marks x = if x = b then (s.marks x).failValid else s.marks x)
    (failedBlocks : ∀ x ∈ s.failedBlocks, x ∈ s'.failedBlocks)
    (above : ∀ x, (s.tree.index x).isSome → s.tree.Anc b x → (x = b ∨ (s.marks x).failed) ∨
      (s.marks x).validity ≠ .scripts ∧ b ∈ s'.failedBlocks) : s'.Traced env := by
  have failed : ∀ x, (s.marks x).failed ∨ x = b → (s'.marks x).failed := by
    intro x isFailed
    rw [marks]
    split
    · rfl
    · rename_i notHere
      exact isFailed.resolve_right notHere
  refine traced.failValid tree (fun x isFailed => ?_) failed (fun x => ?_) failedBlocks
    fun x known anc => (above x known anc).imp_left fun why => failed x why.symm
  · by_cases same : x = b
    · exact .inr same
    · rw [marks, if_neg same] at isFailed
      exact .inl isFailed
  · rw [marks]
    split <;> rfl

/-! ## Activating the best chain -/

theorem kept_traced (env : ChainEnv) : Kept env (Sound env) (Traced env) where
  discard {s floor m test} _ traced _ _ failed := by
    refine traced.quiet (.of_marks (frame_discard failed).tree (by rw [discard_eq failed]; rfl) fun x => ?_)
    rw [marks_discard failed]
    split
    · exact ⟨id, rfl, fun _ => failed_failChild _, id⟩
    · exact ⟨id, rfl, id, id⟩
  connect {s floor b} sound traced prev valid fine := by
    have kept := connected_kept fine BlockMarks.failedValid fun _ => rfl
    have failed := connected_kept fine BlockMarks.failed fun _ => rfl
    have marks := marks_connected fine
    constructor
    · intro a x known anc isFailed
      rw [kept] at isFailed
      rw [failed]
      by_cases same : x = b
      · -- nothing below the block was found invalid
        subst same
        have clean : (s.marks a).failed = false := by
          rcases (anc_of_pprev prev).1 anc with rfl | anc
          · exact fine
          · exact sound.active.usable.clean a anc
        rw [BlockMarks.failed, isFailed, Bool.true_or] at clean
        cases clean
      · rw [marks, if_neg same]
        exact traced.flagged a x known anc isFailed
    · intro a x known anc other isConnected
      by_cases same : x = b
      · subst same
        rcases (anc_of_pprev prev).1 anc with rfl | anc
        · exact valid
        · exact sound.active.usable.connects a anc other
      · rw [marks, if_neg same] at isConnected
        exact traced.valid a x known anc other isConnected
  invalid {s floor b} _ traced prev invalid := by
    have other : b ≠ s.tree.genesis := by
      rintro rfl
      rw [pprev_genesis] at prev
      cases prev
    refine traced.failOne rfl marks_invalidBlockFound (fun x mem => List.mem_insert_of_mem mem)
      fun x known anc => .inr ⟨fun isConnected => ?_, List.mem_insert_self⟩
    rw [traced.valid b x known anc other isConnected] at invalid
    cases invalid
  disconnect traced _ := traced.quiet (.of_marks rfl rfl fun _ => ⟨id, rfl, id, id⟩)
  prune traced _ := traced.quiet (.of_marks rfl rfl fun _ => ⟨id, rfl, id, id⟩)

/-! ## Headers -/

theorem Traced.failedValid_eq_false (traced : s.Traced env) (known : (s.tree.index p).isSome)
    (fine : (s.marks p).failed = false) (search : s.failedAncestor env p = none)
    (anc : s.tree.Anc a p) : (s.marks a).failedValid = false := by
  by_contra isFailed
  rcases traced.flagged a p known anc (Bool.not_eq_false _ ▸ isFailed) with
    here | ⟨notConnected, failed, mem, ancFailed⟩
  · rw [fine] at here
    cases here
  · have invalid : (s.marks p).isValid .scripts = false := by
      rw [isValid, fine, Bool.not_false, Bool.true_and, decide_eq_false_iff_not]
      cases level : (s.marks p).validity with
      | scripts => exact (notConnected level).elim
      | _ => decide
    rw [failedAncestor, invalid, if_neg Bool.false_ne_true, List.argmin_eq_none] at search
    have found : failed ∈ s.failedBlocks.filter fun f => decide (s.tree.Anc f p) :=
      List.mem_filter.2 ⟨mem, decide_eq_true ancFailed⟩
    rw [search] at found
    cases found

theorem Traced.acceptBlockHeader (traced : s.Traced env) (header : CBlockHeader) (checks : HeaderChecks) :
    (s.acceptBlockHeader env header checks).1.Traced env := by
  rcases acceptBlockHeader_cases env s header checks with ⟨_, same, _⟩ | ⟨failed, _, _, marked⟩ |
    ⟨prev, fresh, found, fine, search, added⟩
  · rw [same]
    exact traced
  · rw [marked]
    refine traced.quiet (.of_marks rfl rfl fun x => ?_)
    simp only [markWhere, decide_eq_true_eq]
    split
    · exact ⟨id, rfl, fun _ => failed_failChild _, id⟩
    · exact ⟨id, rfl, id, id⟩
  · rw [added]
    have positive := env.getBlockProof_pos header
    have ext : s.tree.Extends (s.addToBlockIndex env header).tree :=
      extends_addToBlockIndex positive fresh found
    have isPrev : (s.addToBlockIndex env header).tree.pprev (env.hashHeader header) =
        some header.hashPrevBlock := pprev_addToBlockIndex positive fresh found
    have marks := marks_addToBlockIndex env s header
    have knownPrev : (s.tree.index header.hashPrevBlock).isSome := by rw [found]; rfl
    have old : ∀ x, (s.tree.index x).isSome → x ≠ env.hashHeader header := by
      rintro x known rfl
      rw [fresh] at known
      cases known
    constructor
    · intro a b known anc isFailed
      rcases (isSome_addToBlockIndex positive fresh found).1 known with rfl | knownB
      · -- nothing below the new header was found invalid
        rcases (anc_of_pprev isPrev).1 anc with rfl | anc
        · rw [marks, if_pos rfl] at isFailed
          cases isFailed
        · rw [ext.anc knownPrev] at anc
          rw [marks, if_neg (old a (isSome_of_anc anc knownPrev)),
            traced.failedValid_eq_false knownPrev fine search anc] at isFailed
          cases isFailed
      · rw [ext.anc knownB] at anc
        rw [marks, if_neg (old a (isSome_of_anc anc knownB))] at isFailed
        rw [marks, if_neg (old b knownB)]
        exact (traced.flagged a b knownB anc isFailed).imp_right fun search =>
          ⟨search.1, search.2.imp fun f found => ⟨found.1, ext.anc_mono found.2⟩⟩
    · intro a b known anc other isConnected
      rcases (isSome_addToBlockIndex positive fresh found).1 known with rfl | knownB
      · rw [marks, if_pos rfl] at isConnected
        cases isConnected
      · rw [ext.anc knownB] at anc
        rw [marks, if_neg (old b knownB)] at isConnected
        rw [ext.genesis] at other
        exact traced.valid a b knownB anc other isConnected

/-! ## Blocks -/

theorem quiet_linkStep (env : ChainEnv) (s : CChainState) (b : H256) : Quiet s (s.linkStep env b) := by
  have step := linkStep_spec env s b
  refine .of_marks step.tree step.failedBlocks fun x => ?_
  rw [step.marks]
  split <;> exact ⟨id, rfl, id, id⟩

theorem quiet_linkQueue (env : ChainEnv) (rounds : Nat) (queue : List H256) (s : CChainState) :
    Quiet s (linkQueue env rounds queue s) := by
  induction rounds generalizing queue s with
  | zero => exact .refl s
  | succ rounds ih =>
    cases queue with
    | nil => exact .refl s
    | cons b queue =>
      rw [linkQueue_cons]
      exact (quiet_linkStep env s b).trans (ih _ _)

theorem quiet_received (s : CChainState) (b : H256) (count : Nat) : Quiet s (s.received b count) := by
  refine .of_marks rfl rfl fun x => ?_
  simp only [received, markWhere, decide_eq_true_eq]
  split
  · refine ⟨fun _ => ?_, ?_, fun failed => ?_, validity_of_raiseValidity (by decide)⟩
    all_goals unfold raiseValidity
    · split_ifs <;> rfl
    · split_ifs <;> rfl
    · split_ifs <;> exact failed
  · exact ⟨id, rfl, id, id⟩

theorem quiet_receivedBlockTransactions (env : ChainEnv) (s : CChainState) (b : H256) (count : Nat) :
    Quiet (s.received b count) (s.receivedBlockTransactions env b count) := by
  cases prev : s.tree.pprev b with
  | none =>
    have linked : s.receivedBlockTransactions env b count =
        linkQueue env (s.mapBlocksUnlinked.length + 1) [b] (s.received b count) := by
      simp only [receivedBlockTransactions, markWhere, prev]
      rfl
    rw [linked]
    exact quiet_linkQueue env _ _ _
  | some p =>
    rw [receivedBlockTransactions_eq prev]
    split
    · exact quiet_linkQueue env _ _ _
    split
    · exact .of_marks rfl rfl fun _ => ⟨id, rfl, id, id⟩
    · exact .refl _

theorem Traced.acceptBlockData {count : Nat} (traced : s.Traced env)
    (above : checks.checkBlock = .invalid ∨ count = 0 → ∀ x, (s.tree.index x).isSome → s.tree.Anc b x → x = b ∨ (s.marks x).failed) :
    (s.acceptBlockData env b count checks fRequested).1.Traced env := by
  rcases acceptBlockData_cases env s b count checks fRequested with
    ⟨_, same⟩ | ⟨_, ⟨why, invalid⟩ | ⟨_, stored⟩⟩
  · rw [same]
    exact traced
  · rw [invalid]
    exact traced.failOne rfl (fun x => by simp [markWhere]) (fun x mem => mem)
      fun x known anc => .inl (above why x known anc)
  · rw [stored]
    exact traced.quiet ((quiet_received s b count).trans (quiet_receivedBlockTransactions env s b count))

theorem Traced.acceptBlock {block : CBlock} (traced : s.Traced env)
    (above : checks.checkBlock = .invalid ∨ block.vtx = [] → ∀ x, (s.tree.index x).isSome → s.tree.Anc (env.hashHeader block.toCBlockHeader) x → x = env.hashHeader block.toCBlockHeader ∨ (s.marks x).failed) :
    (s.acceptBlock env block checks fRequested).1.Traced env := by
  have after := traced.acceptBlockHeader block.toCBlockHeader checks.toHeaderChecks
  rw [← List.length_eq_zero_iff] at above
  unfold CChainState.acceptBlock
  rcases acceptBlockHeader_cases env s block.toCBlockHeader checks.toHeaderChecks with
    ⟨accepted, same, _⟩ | ⟨failed, _, _, marked⟩ | ⟨prev, fresh, found, _, _, added⟩
  · rw [same] at after ⊢
    cases accepted with
    | false => exact traced
    | true => exact traced.acceptBlockData above
  · rw [marked] at after ⊢
    exact after
  · rw [added] at after ⊢
    refine after.acceptBlockData fun _ x known anc => .inl ?_
    have positive := env.getBlockProof_pos block.toCBlockHeader
    have ext : s.tree.Extends (s.addToBlockIndex env block.toCBlockHeader).tree :=
      extends_addToBlockIndex positive fresh found
    refine ((isSome_addToBlockIndex positive fresh found).1 known).resolve_right fun knownX => ?_
    have knownNew := isSome_of_anc ((ext.anc knownX).1 anc) knownX
    rw [fresh] at knownNew
    cases knownNew

/-! ## Blocks declared invalid -/

/-- A block is declared invalid. Of the blocks over it those that were connected once are active or
have a flag. -/
theorem Traced.invalidateBlock (traced : s.Traced env)
    (above : ∀ x, (s.tree.index x).isSome → s.tree.Anc b x → (s.marks x).validity = .scripts →
      s.tree.Anc x s.tip ∨ (s.marks x).failed)
    (ran : s.invalidateBlock env b = some s') : s'.Traced env := by
  obtain ⟨_, tip, log, walk, _, _, _, active, rfl⟩ := invalidateBlock_cases ran
  let lowered : CChainState := { s with tip, blockDisconnected := log }
  have marks : ∀ x, ((lowered.markInvalid b walk).restoreCandidates env).marks x = _ :=
    marks_markInvalid lowered b walk
  have failed : ∀ x, x ∈ walk ∨ (s.marks x).failed ∨ x = b →
      (((lowered.markInvalid b walk).restoreCandidates env).marks x).failed := by
    intro x why
    rw [marks]
    split_ifs with inWalk here
    · exact failed_failChild _
    · exact failed_failChild _
    · rfl
    · exact (why.resolve_left inWalk).resolve_right ‹_›
  refine traced.failValid (b := b) rfl (fun x isFailed => ?_) (fun x why => failed x (.inr why))
    (fun x => (alike_markInvalid lowered b walk x).validity) (fun x mem => List.mem_insert_of_mem mem)
    fun x known anc => ?_
  · by_cases same : x = b
    · exact .inr same
    · rw [marks, if_neg same] at isFailed
      refine .inl ?_
      split at isFailed <;> exact isFailed
  · by_cases isConnected : (s.marks x).validity = .scripts
    · refine .inl (failed x ?_)
      rcases above x known anc isConnected with isActive | isFailed
      · exact (active x anc isActive).symm.imp_right .inr
      · exact .inr (.inl isFailed)
    · exact .inr ⟨isConnected, List.mem_insert_self⟩

/-! ## Runs -/

/-- A block with invalid data, or declared invalid, has no blocks over it that the search for invalid
ancestors will miss. -/
def Watched (env : ChainEnv) (s : CChainState) : ChainOp → Prop
  | .acceptBlock block checks _ => checks.checkBlock = .invalid ∨ block.vtx = [] → ∀ b ∈ s.tree.known,
      s.tree.Anc (env.hashHeader block.toCBlockHeader) b →
        b = env.hashHeader block.toCBlockHeader ∨ (s.marks b).failed = true
  | .invalidateBlock pindex => ∀ b ∈ s.tree.known, s.tree.Anc pindex b →
      (s.marks b).validity = .scripts → s.tree.Anc b s.tip ∨ (s.marks b).failed = true
  | .resetBlockFailureFlags _ | .preciousBlock _ => False
  | _ => True

theorem Traced.perform {rounds : Nat} {op : ChainOp} (sound : s.Sound env s.tip) (traced : s.Traced env)
    (watched : s.Watched env op) (done : s.perform env rounds op = some s') : s'.Traced env := by
  cases op with
  | acceptBlockHeader header checks =>
    obtain rfl := some.inj done
    exact traced.acceptBlockHeader header checks
  | acceptBlock block checks fRequested =>
    obtain rfl := some.inj done
    exact traced.acceptBlock fun why x known => watched why x ((s.tree.mem_known x).2 known)
  | activateBestChain =>
    exact (activateBestChain_spec ((stable_sound env).and (kept_traced env)) ⟨sound, traced⟩ done).1.holds.2
  | invalidateBlock pindex =>
    exact traced.invalidateBlock (fun x known => watched x ((s.tree.mem_known x).2 known)) done
  | resetBlockFailureFlags | preciousBlock => exact watched.elim

theorem traced_start (env : ChainEnv) (genesis : H256) (nChainWork : Nat) (nTime : UInt32) :
    (start genesis nChainWork nTime).Traced env := by
  have marks : ∀ x, ((start genesis nChainWork nTime).marks x).failedValid = false ∧
      ((start genesis nChainWork nTime).marks x).validity ≠ .scripts := by
    intro x
    by_cases root : x = genesis <;> simp [start, root]
  refine ⟨fun a b _ _ isFailed => ?_, fun a b _ _ _ isConnected => ((marks b).2 isConnected).elim⟩
  rw [(marks a).1] at isFailed
  cases isFailed

/-- As long as the operations keep to the conditions, a new header with an ancestor that was found invalid
is refused. -/
theorem acceptBlockHeader_refuses_of_watched (env : ChainEnv) (s : CChainState) (header : CBlockHeader)
    (checks : HeaderChecks) (a : H256) (reached : Reaches env (Watched env) s)
    (unknown : s.tree.index (env.hashHeader header) = none)
    (anc : s.tree.Anc a header.hashPrevBlock) (invalid : (s.marks a).failedValid = true) :
    (s.acceptBlockHeader env header checks).2 = false ∧
      (s.acceptBlockHeader env header checks).1.tree = s.tree := by
  have holds : s.Sound env s.tip ∧ s.Traced env := by
    clear unknown anc invalid
    induction reached with
    | start genesis nChainWork nTime =>
      exact ⟨sound_start env genesis nChainWork nTime, traced_start env genesis nChainWork nTime⟩
    | @step _ _ op _ _ watched done ih =>
      refine ⟨ih.1.perform ?_ done, ih.2.perform ih.1 watched done⟩
      cases op with
      | resetBlockFailureFlags | preciousBlock => exact watched.elim
      | _ => rfl
  rcases acceptBlockHeader_cases env s header checks with ⟨accepted, same, known⟩ |
    ⟨failed, _, _, marked⟩ | ⟨prev, _, found, fine, search, _⟩
  · rw [same]
    refine ⟨Bool.eq_false_iff.2 fun isAccepted => ?_, rfl⟩
    rcases known isAccepted with root | known
    · have there := s.tree.root
      rw [← root, unknown] at there
      cases there
    · rw [unknown] at known
      cases known.1
  · rw [marked]
    exact ⟨rfl, rfl⟩
  · have knownPrev : (s.tree.index header.hashPrevBlock).isSome := by rw [found]; rfl
    rw [holds.2.failedValid_eq_false knownPrev fine search anc] at invalid
    cases invalid

section

def sampleHeader (hashPrevBlock hash : Nat) : CBlockHeader where
  nVersion := hash
  hashPrevBlock := hashPrevBlock
  hashMerkleRoot := 0
  nTime := 0
  nBits := 0
  nNonce := 0
  hashStateRoot := 0
  hashUTXORoot := 0
  prevoutStake := ⟨0, 0xffffffff⟩
  vchBlockSig := []

/-- Block 2 and a header over it, then block 2 is declared invalid. -/
theorem acceptBlockHeader_refuses_over_declared : ∃ s, Reaches sampleEnv (Watched sampleEnv) s ∧
    (s.acceptBlockHeader sampleEnv (sampleHeader 3 4) {}).2 = false ∧
      (s.acceptBlockHeader sampleEnv (sampleHeader 3 4) {}).1.tree = s.tree := by
  have run : (performAll sampleEnv 0 [sampleBlock 1 2, .acceptBlockHeader (sampleHeader 2 3) {},
      .invalidateBlock 2] (start 1 1 0)).any (fun s => (s.tree.index 4).isNone &&
      decide (s.tree.Anc 2 3) && (s.marks 2).failedValid) := by decide +kernel
  obtain ⟨s, done, facts⟩ := (any_eq_true _ _).1 run
  obtain ⟨s₁, first, done⟩ := bind_eq_some_iff.1 done
  obtain ⟨s₂, second, done⟩ := bind_eq_some_iff.1 done
  obtain ⟨s₃, third, done⟩ := bind_eq_some_iff.1 done
  obtain rfl := some.inj done
  obtain rfl := some.inj first
  obtain rfl := some.inj second
  have reached : Reaches sampleEnv (Watched sampleEnv) s₃ := by
    have header : Watched sampleEnv ((start 1 1 0).perform sampleEnv 0 (sampleBlock 1 2) |>.get rfl)
        (.acceptBlockHeader (sampleHeader 2 3) {}) := trivial
    refine (((Reaches.start 1 1 0).step ?_ first).step header second).step ?_ third
    · change _ ∨ _ → _
      decide +kernel
    · change ∀ b ∈ _, _
      decide +kernel
  rw [Bool.and_eq_true, Bool.and_eq_true, isNone_iff_eq_none, decide_eq_true_eq] at facts
  exact ⟨s₃, reached, acceptBlockHeader_refuses_of_watched sampleEnv s₃ (sampleHeader 3 4) {} 2 reached
    facts.1.1 facts.1.2 facts.2⟩

/-- Headers 2 and 3 are known when the data of block 2 turns out invalid. A header over block 3 is then
accepted. -/
theorem acceptBlockHeader_accepts_over_invalid : ∃ env s header checks a,
    Reaches env (fun _ op => overrides op = false) s ∧ s.tree.index (env.hashHeader header) = none ∧
    s.tree.Anc a header.hashPrevBlock ∧ (s.marks a).failedValid = true ∧
    (s.acceptBlockHeader env header checks).2 = true ∧
    ((s.acceptBlockHeader env header checks).1.tree.index (env.hashHeader header)).isSome = true := by
  let ops : List ChainOp := [.acceptBlockHeader (sampleHeader 1 2) {},
    .acceptBlockHeader (sampleHeader 2 3) {},
    .acceptBlock { sampleHeader 1 2 with vtx := [{ vin := [], vout := [] }] }
      { checkBlock := .invalid } true]
  have run : (performAll sampleEnv 0 ops (start 1 1 0)).any (fun s => (s.tree.index 4).isNone &&
      decide (s.tree.Anc 2 3) && (s.marks 2).failedValid &&
      (s.acceptBlockHeader sampleEnv (sampleHeader 3 4) {}).2 &&
      ((s.acceptBlockHeader sampleEnv (sampleHeader 3 4) {}).1.tree.index 4).isSome) = true := by
    decide +kernel
  obtain ⟨s, done, facts⟩ := (any_eq_true _ _).1 run
  simp only [Bool.and_eq_true, isNone_iff_eq_none, decide_eq_true_eq] at facts
  obtain ⟨⟨⟨⟨unknown, anc⟩, invalid⟩, accepted⟩, added⟩ := facts
  exact ⟨sampleEnv, s, sampleHeader 3 4, {}, 2, (Reaches.start 1 1 0).performAll (by simp [ops, overrides])
    done, unknown, anc, invalid, accepted, added⟩

/-- Block 3 over block 2 was connected once. Block 2 is declared invalid when neither is active, and a
header over block 3 is accepted. -/
example : (performAll sampleEnv 9 [sampleBlock 1 2, sampleBlock 2 3, .activateBestChain, sampleBlock 1 4,
    sampleBlock 4 5, sampleBlock 5 6, .activateBestChain, .invalidateBlock 2] (start 1 1 0)).any (fun s =>
    decide (s.tree.Anc 2 3) && (s.marks 2).failedValid &&
      (s.acceptBlockHeader sampleEnv (sampleHeader 3 7) {}).2) = true := by decide +kernel

end

end CChainState
end Artax
