import Artax.Chain.Arrival
import Artax.Chain.Commands

/-!
# The consistency checks pass

The assertions of `CheckBlockIndex` follow from the invariants, which hold after every sequence of
operations that keep to three conditions. Without them they do not. The counters of the source have
32 bits, so the transactions of every chain have to fit.
-/

namespace Artax
open Util.ParentTree BlockTree List
open Option hiding any_eq_true

namespace CChainState

variable {env : ChainEnv} {s s' : CChainState} {a b : H256}

/-! ## The walk over the tree -/

variable {property : H256 → Bool} {floor : H256} {rounds : Nat} {op : ChainOp}

theorem isSome_oldest :
    (s.oldest property b).isSome ↔ ∃ a, s.tree.Anc a b ∧ property a := by
  simp only [oldest, find?_isSome, mem_reverse, mem_line]

theorem oldest_eq_none :
    s.oldest property b = none ↔ ∀ a, s.tree.Anc a b → property a = false := by
  simp only [oldest, find?_eq_none, mem_reverse, mem_line, Bool.not_eq_true]

theorem oldest_congr {other : H256 → Bool} (same : ∀ a, s.tree.Anc a b → property a = other a) :
    s.oldest property b = s.oldest other b := by
  rw [oldest, oldest, ← head?_filter, ← head?_filter]
  refine congrArg head? (filter_congr fun a mem => same a ?_)
  rwa [mem_reverse, mem_line] at mem

theorem length_line (known : (s.tree.index b).isSome) :
    (s.tree.links.line b).length = s.tree.nHeight b + 1 := by
  induction b using s.tree.links.induct with
  | _ b ih =>
    cases prev : s.tree.pprev b with
    | none =>
      obtain rfl := eq_genesis_of_pprev known prev
      rw [line_of_root prev, nHeight_genesis, length_singleton]
    | some p =>
      rw [line_of_parent prev, length_cons,
        ih p prev (isSome_of_pprev prev).2, nHeight_of_pprev prev]

/-! ## The assertions -/

theorem Indexed.level_le_of_anc (indexed : s.Indexed)
    (high : BlockValidity.chain.level ≤ (s.marks b).validity.level) (anc : s.tree.Anc a b)
    (other : a ≠ s.tree.genesis) : (s.marks b).validity.level ≤ (s.marks a).validity.level := by
  induction b using s.tree.links.induct with
  | _ b ih =>
    rcases anc_iff.1 anc with rfl | ⟨p, prev, anc⟩
    · exact le_rfl
    · have notRoot : p ≠ s.tree.genesis := by
        rintro rfl
        exact other ((anc_of_pprev_none pprev_genesis).1 anc)
      have step := indexed.validity b p prev notRoot high
      exact step.trans (ih p prev (high.trans step) anc)

section

variable (sound : s.Sound env floor) (filed : s.Filed) (known : (s.tree.index b).isSome)
include sound filed known

theorem Sound.nChainTx_eq_zero_iff :
    (s.marks b).nChainTx = 0 ↔ ∃ a, s.tree.Anc a b ∧ (s.marks a).nTx = 0 := by
  constructor
  · intro unlinked
    induction b using s.tree.links.induct with
    | _ b ih =>
      by_cases data : (s.marks b).nTx = 0
      · exact ⟨b, .refl b, data⟩
      · obtain ⟨p, prev, waits⟩ := filed b known data unlinked
        obtain ⟨a, anc, missing⟩ := ih p prev (isSome_of_pprev prev).2
          (sound.indexed.waiting _ waits).2.2
        exact ⟨a, anc.trans (.parent prev), missing⟩
  · rintro ⟨a, anc, missing⟩
    by_contra linked
    exact sound.indexed.nTx_of_anc known anc linked missing

theorem Sound.isSome_firstNeverProcessed :
    (s.firstNeverProcessed b).isSome ↔ (s.marks b).nChainTx = 0 := by
  rw [sound.nChainTx_eq_zero_iff filed known, firstNeverProcessed, isSome_oldest]
  simp only [beq_iff_eq]

end

theorem Indexed.firstMissing_eq (indexed : s.Indexed) (known : (s.tree.index b).isSome) :
    s.firstMissing b = s.firstNeverProcessed b := by
  refine oldest_congr fun a anc => ?_
  have data := (indexed.consistent a (isSome_of_anc anc known)).data
  by_cases missing : (s.marks a).nTx = 0 <;> simp_all

theorem Indexed.firstNot_transactions_eq (indexed : s.Indexed)
    (known : (s.tree.index b).isSome) :
    s.firstNot .transactions b = s.firstNeverProcessed b := by
  refine oldest_congr fun a anc => ?_
  have knownA := isSome_of_anc anc known
  have consistent := indexed.consistent a knownA
  by_cases missing : (s.marks a).nTx = 0
  · -- the genesis block has data
    have prev : (s.tree.pprev a).isSome := by
      rw [isSome_iff_ne_none]
      intro root
      rw [eq_genesis_of_pprev knownA root] at missing
      exact (indexed.consistent _ s.tree.root).linked indexed.genesis missing
    have low : (s.marks a).validity.level < BlockValidity.transactions.level := by
      by_contra high
      exact consistent.transactions.1 (not_lt.1 high) missing
    rw [prev, decide_eq_true low, missing]
    rfl
  · have high := consistent.transactions.2 missing
    rw [decide_eq_false (not_lt.2 high), Bool.and_false, eq_comm, beq_eq_false_iff_ne]
    exact missing

theorem Sound.failed_of_firstInvalid (sound : s.Sound env floor)
    (known : (s.tree.index b).isSome) (none : s.firstInvalid b = none) :
    (s.marks b).failed = false := by
  by_contra failed
  obtain ⟨a, anc, valid⟩ := sound.flagged.caused b known (Bool.not_eq_false _ ▸ failed)
  rw [oldest_eq_none.1 none a anc] at valid
  cases valid

theorem Sound.treeChecked (sound : s.Sound env s.tip) (known : (s.tree.index b).isSome) :
    s.TreeChecked b := by
  have levels : ∀ validity : BlockValidity, BlockValidity.chain.level ≤ validity.level →
      validity.level ≤ (s.marks b).validity.level → s.firstNot validity b = none := by
    intro validity chain high
    refine oldest_eq_none.2 fun a anc => ?_
    by_cases root : a = s.tree.genesis
    · rw [root, pprev_genesis]
      rfl
    · rw [decide_eq_false, Bool.and_false]
      exact not_lt.2 (high.trans (sound.indexed.level_le_of_anc (chain.trans high) anc root))
  refine ⟨fun root => ?_, (length_line known).symm, fun p prev =>
    (nChainWork_lt_of_pprev prev).le, ?_, ?_, levels .chain le_rfl,
    levels .scripts (Nat.le_succ _), sound.failed_of_firstInvalid known⟩
  · have isRoot := eq_genesis_of_pprev known root
    refine ⟨isRoot, decide_eq_true ?_⟩
    rw [isRoot]
    exact genesis_anc sound.active.usable.known
  · cases prev : s.tree.pprev b with
    | none =>
      rw [eq_genesis_of_pprev known prev, nHeight_genesis]
      exact .inl Nat.two_pos
    | some p =>
      obtain ⟨a, isSkip, anc, _⟩ := exists_pskip prev
      exact .inr ⟨a, isSkip, (nHeight_le_of_anc anc).trans_lt (nHeight_of_pprev prev ▸ Nat.lt_succ_self _)⟩
  · refine oldest_eq_none.2 fun a anc => ?_
    rw [decide_eq_false, Bool.and_false]
    exact not_lt.2 (sound.indexed.consistent a (isSome_of_anc anc known)).tree

section

variable (sound : s.Sound env s.tip) (filed : s.Filed) (known : (s.tree.index b).isSome)
include sound filed known

theorem Sound.dataChecked : s.DataChecked b := by
  have consistent := sound.indexed.consistent b known
  have linked := sound.isSome_firstNeverProcessed filed known
  refine ⟨consistent.unlinked, ?_, sound.indexed.firstMissing_eq known, consistent.undo, ?_, linked, ?_⟩
  · rw [← Bool.not_eq_true, consistent.data, not_not]
  · rw [consistent.transactions, Nat.pos_iff_ne_zero]
  · rw [sound.indexed.firstNot_transactions_eq known]
    exact linked

theorem Sound.candidatesChecked : s.CandidatesChecked env b := by
  have linked : (s.firstNeverProcessed b).isNone ↔ (s.marks b).nChainTx ≠ 0 := by
    rw [ne_eq, ← sound.isSome_firstNeverProcessed filed known, isNone_iff_eq_none,
      isSome_iff_ne_none, not_not]
  unfold CandidatesChecked
  split
  · rename_i possible
    rw [Bool.and_eq_true, Bool.not_eq_true', worse_eq_false, linked] at possible
    intro valid _
    exact sound.ranked.complete b known (sound.failed_of_firstInvalid known valid) possible.2 possible.1
  · rename_i impossible
    rw [Bool.and_eq_true, Bool.not_eq_true', worse_eq_false, linked] at impossible
    exact fun mem => impossible ⟨sound.ranked.above b mem, sound.ranked.linked b mem⟩

end

theorem foundInUnlinked_iff : s.foundInUnlinked b ↔
    ∃ p, s.tree.pprev b = some p ∧ (p, b) ∈ s.mapBlocksUnlinked := by
  simp only [foundInUnlinked, any_eq_true, Bool.and_eq_true, beq_iff_eq, Prod.exists]
  constructor
  · rintro ⟨p, x, mem, prev, rfl⟩
    exact ⟨p, prev, mem⟩
  · rintro ⟨p, prev, mem⟩
    exact ⟨p, b, mem, prev, rfl⟩

theorem Sound.unlinkedChecked (sound : s.Sound env s.tip) (filed : s.Filed)
    (known : (s.tree.index b).isSome) : s.UnlinkedChecked b := by
  have consistent := sound.indexed.consistent b known
  have same := sound.indexed.firstMissing_eq known
  refine ⟨fun _ data missing _ => ?_, fun missing => ?_, fun complete => ?_, fun _ _ never => ?_⟩
  · exact foundInUnlinked_iff.2 (filed b known (consistent.data.1 data)
      ((sound.isSome_firstNeverProcessed filed known).1 missing))
  · rw [← Bool.not_eq_true, foundInUnlinked_iff]
    rintro ⟨p, _, waits⟩
    rw [consistent.data.2 (sound.indexed.waiting _ waits).2.1] at missing
    cases missing
  · rw [← Bool.not_eq_true, foundInUnlinked_iff]
    rintro ⟨p, prev, waits⟩
    -- something is missing for the predecessor
    have unlinked := (sound.indexed.waiting _ waits).2.2
    obtain ⟨a, anc, missing⟩ :=
      (sound.nChainTx_eq_zero_iff filed (isSome_of_pprev prev).2).1 unlinked
    rw [same, firstNeverProcessed, oldest_eq_none] at complete
    have := complete a (anc.trans (.parent prev))
    rw [missing] at this
    cases this
  · rw [same]
    exact never

theorem Sound.checkBlockIndex (sound : s.Sound env s.tip) (filed : s.Filed) :
    s.CheckBlockIndex env := by
  intro b mem
  have known := (s.tree.mem_known b).1 mem
  exact ⟨sound.treeChecked known, sound.dataChecked filed known, sound.candidatesChecked filed known,
    sound.unlinkedChecked filed known⟩

/-! ## Runs -/

/-- Data does not come for a block whose predecessor was found invalid and is not linked, flags are
only taken back where no ancestor has one, and the tip is not given a worse number. -/
def Careful (env : ChainEnv) (s : CChainState) : ChainOp → Prop
  | .acceptBlock block _ _ => ∀ p ∈ s.tree.pprev (env.hashHeader block.toCBlockHeader),
      (s.marks p).nChainTx ≠ 0 ∨ (s.marks p).failed = false
  | .resetBlockFailureFlags pindex => ∀ a, s.tree.Anc a pindex → a ≠ pindex → (s.marks a).failed = false
  | .preciousBlock pindex => pindex = s.tip → s.preciousSequenceId ≤ (s.marks pindex).nSequenceId
  | _ => True

def overrides : ChainOp → Bool
  | .resetBlockFailureFlags _ | .preciousBlock _ => true
  | _ => false

theorem perform_spec (sound : s.Sound env s.tip) (override : overrides op → s.Careful env op)
    (done : s.perform env rounds op = some s') :
    s'.Sound env s'.tip ∧ (s.Filed → s.Careful env op → s'.Filed) := by
  have activated : ∀ {s₁ : CChainState}, s₁.Sound env s₁.tip → (s.Filed → s₁.Filed) →
      s₁.activateBestChain env rounds = some s' →
      s'.Sound env s'.tip ∧ (s.Filed → s.Careful env op → s'.Filed) := by
    intro s₁ sound filed ran
    obtain ⟨settled, frame, _⟩ := activateBestChain_spec (stable_sound env) sound ran
    exact ⟨settled.holds, fun before _ => frame.filed (filed before)⟩
  cases op with
  | acceptBlockHeader header checks =>
    obtain rfl := some.inj done
    obtain ⟨after, filed, arrival⟩ := acceptBlockHeader_spec sound header checks
    exact ⟨arrival.tip ▸ after, fun before _ => filed before⟩
  | acceptBlock block checks fRequested =>
    obtain rfl := some.inj done
    obtain ⟨after, arrival, filed⟩ := acceptBlock_spec sound block checks fRequested
    exact ⟨arrival.tip ▸ after, filed⟩
  | activateBestChain => exact activated sound id done
  | invalidateBlock pindex =>
    obtain ⟨after, filed⟩ := invalidateBlock_spec sound done
    exact ⟨after, fun before _ => filed before⟩
  | resetBlockFailureFlags pindex =>
    simp only [perform, ite_none_left_eq_some, isNone_iff_eq_none, ← ne_eq,
      ← isSome_iff_ne_none] at done
    obtain ⟨after, filed⟩ := resetBlockFailureFlags_spec sound done.1 (override rfl)
    exact activated after filed done.2
  | preciousBlock pindex =>
    simp only [perform, preciousBlock, ite_none_left_eq_some, isNone_iff_eq_none, ← ne_eq,
      ← isSome_iff_ne_none] at done
    obtain ⟨known, done⟩ := done
    split at done
    · obtain rfl := some.inj done
      exact ⟨sound, fun before _ => before⟩
    · obtain ⟨s₁, precious, done⟩ := bind_eq_some_iff.1 done
      obtain ⟨after, filed⟩ := makePrecious_spec sound known (override rfl) precious
      exact activated after filed done

theorem Sound.perform (sound : s.Sound env s.tip) (plain : overrides op = false)
    (done : s.perform env rounds op = some s') : s'.Sound env s'.tip :=
  (perform_spec sound (fun override => by rw [plain] at override; cases override) done).1

theorem filed_start (genesis : H256) (nChainWork : Nat) (nTime : UInt32) :
    (start genesis nChainWork nTime).Filed := by
  intro b known data unlinked
  by_cases root : b = genesis
  · simp [start, root] at unlinked
  · simp [start, root] at known

/-- No chain of the index has more transactions than 32 bits can count. -/
def Fits (s : CChainState) : Prop := ∀ b ∈ s.tree.known, s.chainTx b < 2 ^ 32

instance (s : CChainState) : Decidable s.Fits := by
  unfold Fits
  infer_instance

theorem nTx_le_chainTx (s : CChainState) (b : H256) : (s.marks b).nTx ≤ s.chainTx b := by
  cases prev : s.tree.pprev b with
  | none => exact (chainTx_of_pprev_none prev).ge
  | some p => exact (Nat.le_add_right _ _).trans (chainTx_of_pprev prev).ge

/-- After every sequence of operations that keep to the conditions all assertions of `CheckBlockIndex`
hold, and the counters they read have not wrapped. -/
theorem checkBlockIndex_of_careful (env : ChainEnv) (s : CChainState)
    (reached : Reaches env (fun s op => s.Fits ∧ s.Careful env op) s) (fits : s.Fits) :
    s.CheckBlockIndex env ∧
      ∀ b ∈ s.tree.known, (s.marks b).nTx < 2 ^ 32 ∧ (s.marks b).nChainTx < 2 ^ 32 := by
  have ⟨sound, filed⟩ : s.Sound env s.tip ∧ s.Filed := by
    clear fits
    induction reached with
    | start genesis nChainWork nTime =>
      exact ⟨sound_start env genesis nChainWork nTime, filed_start genesis nChainWork nTime⟩
    | step _ allowed done ih =>
      obtain ⟨after, filed⟩ := perform_spec ih.1 (fun _ => allowed.2) done
      exact ⟨after, filed ih.2 allowed.2⟩
  refine ⟨sound.checkBlockIndex filed, fun b mem => ⟨?_, ?_⟩⟩
  · exact (s.nTx_le_chainTx b).trans_lt (fits b mem)
  · exact (sound.indexed.counted b ((s.tree.mem_known b).1 mem)).trans_lt (fits b mem)

section

def sampleEnv : ChainEnv where
  addr := id
  addr_injective := Function.injective_id
  hashHeader header := header.nVersion.toNat
  getBlockProof _ := 1
  getBlockProof_pos _ := Nat.one_pos
  connectBlock _ := true
  nMinimumChainWork := 0

def rejecting (bad : H256) : ChainEnv := { sampleEnv with connectBlock := fun b => b != bad }

def sampleBlock (hashPrevBlock hash : Nat) : ChainOp :=
  .acceptBlock
    { nVersion := hash, hashPrevBlock, hashMerkleRoot := 0, nTime := 0, nBits := 0, nNonce := 0,
      hashStateRoot := 0, hashUTXORoot := 0, prevoutStake := ⟨0, 0xffffffff⟩, vchBlockSig := [],
      vtx := [{ vin := [], vout := [] }] } {} true

def performAll (env : ChainEnv) (rounds : Nat) : List ChainOp → CChainState → Option CChainState
  | [], s => some s
  | op :: ops, s => (s.perform env rounds op).bind (performAll env rounds ops)

theorem Reaches.performAll {allowed : CChainState → ChainOp → Prop} {ops : List ChainOp}
    (before : Reaches env allowed s) (all : ∀ op ∈ ops, ∀ s, allowed s op)
    (done : performAll env rounds ops s = some s') : Reaches env allowed s' := by
  induction ops generalizing s with
  | nil => exact some.inj done ▸ before
  | cons op ops ih =>
    obtain ⟨s₁, first, done⟩ := bind_eq_some_iff.1 done
    rw [forall_mem_cons] at all
    exact ih (before.step (all.1 s) first) all.2 done

theorem checkBlockIndex_of_one_block :
    ∃ s, Reaches sampleEnv (fun s op => s.Fits ∧ s.Careful sampleEnv op) s ∧ s.Fits ∧ s.tip = 2 ∧
      s.CheckBlockIndex sampleEnv := by
  have run : ((start 1 1 0).perform sampleEnv 3 (sampleBlock 1 2)).any (fun s => decide s.Fits &&
      (s.perform sampleEnv 3 .activateBestChain).any fun s => decide s.Fits && s.tip == 2) := by
    decide +kernel
  obtain ⟨s₁, first, run⟩ := (Option.any_eq_true _ _).1 run
  simp only [Bool.and_eq_true, decide_eq_true_eq, Option.any_eq_true, beq_iff_eq] at run
  obtain ⟨fits₁, s₂, second, fits₂, tip⟩ := run
  have new : (start 1 1 0).tree.pprev 2 = none := by decide +kernel
  have careful : Careful sampleEnv (start 1 1 0) (sampleBlock 1 2) :=
    fun p prev => nomatch new.symm.trans prev
  have activates : Careful sampleEnv s₁ .activateBestChain := trivial
  have reached : Reaches sampleEnv (fun s op => s.Fits ∧ s.Careful sampleEnv op) s₂ :=
    ((Reaches.start 1 1 0).step ⟨by decide +kernel, careful⟩ first).step ⟨fits₁, activates⟩ second
  exact ⟨s₂, reached, fits₂, tip, (checkBlockIndex_of_careful sampleEnv s₂ reached fits₂).1⟩

/-- Blocks 3 and 4 over block 2. Block 2 is declared invalid, which marks 3 and then 4. The flags are
taken back for block 3: its own and that of block 2, but not that of block 4. -/
theorem checkBlockIndex_fails_after_reset : ∃ env s, Reaches env (fun _ _ => True) s ∧
    ¬ s.CheckBlockIndex env := by
  have run : (performAll sampleEnv 9 [sampleBlock 1 2, sampleBlock 2 3, .activateBestChain,
      sampleBlock 2 4, .invalidateBlock 2, .activateBestChain, .resetBlockFailureFlags 3]
      (start 1 1 0)).any (fun s => !decide (s.CheckBlockIndex sampleEnv)) := by decide +kernel
  obtain ⟨s, done, fails⟩ := (Option.any_eq_true _ _).1 run
  exact ⟨sampleEnv, s, (Reaches.start 1 1 0).performAll (fun _ _ _ => trivial) done, by simpa using fails⟩

end

end CChainState
end Artax
