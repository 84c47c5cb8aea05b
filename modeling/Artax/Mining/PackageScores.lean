import Artax.Mining.Selection
import Mathlib.Algebra.BigOperators.Ring.Finset
import Mathlib.Algebra.Order.BigOperators.Group.Finset

/-!
# The scores of modified packages

The entries of `mapModifiedTx` are exact while no fee has a delta, the packages that pass their tests
can be added as a whole, and no failed entry descends from them: `update_for_parent_inclusion`
subtracts the fee without its delta, and descendants of a package added in part are not updated.
-/

namespace Artax

open CTxMemPool Finset

def Selection.next? {σ : Type} : Selection σ → Option (Selecting σ)
  | .next s => some s
  | _ => none

namespace MinerEnv

section

variable {σ : Type} (env : MinerEnv σ) (pool : CTxMemPool)

/-- The statistics of the entries of a pool are those of their transactions, and the statistics with
ancestors are sums over the ancestors. -/
structure StatisticsCorrect (env : MinerEnv σ) (pool : CTxMemPool) : Prop where
  counts : pool.CountsCorrect
  weight : ∀ id ∈ pool.mapTx, (pool.entry id).nTxWeight = env.transactionWeight (pool.entry id).tx
  sigOps : ∀ id ∈ pool.mapTx, (pool.entry id).sigOpCost = env.sigOpCost (pool.entry id).tx
  sizeWithAncestors : ∀ id ∈ pool.mapTx, (pool.entry id).nSizeWithAncestors =
    ∑ x ∈ insert id (pool.calculateMemPoolAncestors id), (pool.entry x).getTxSize env.nBytesPerSigOp
  sigOpsWithAncestors : ∀ id ∈ pool.mapTx, (pool.entry id).nSigOpCostWithAncestors =
    ∑ x ∈ insert id (pool.calculateMemPoolAncestors id), (pool.entry x).sigOpCost

/-- A modified entry carries the sums over its transaction and its ancestors that are not among
others. -/
structure Exact (among : Finset H256) (e : CTxMemPoolModifiedEntry) : Prop where
  size : e.nSizeWithAncestors =
    ∑ x ∈ package pool among e.iter, (pool.entry x).getTxSize env.nBytesPerSigOp
  fee : e.nModFeesWithAncestors = ∑ x ∈ package pool among e.iter, (pool.entry x).getModifiedFee
  sigOps : e.nSigOpCostWithAncestors = ∑ x ∈ package pool among e.iter, (pool.entry x).sigOpCost

/-- The modified entries of a state are exact, and all that need one have one. -/
structure ScoresExact (s : Selecting σ) : Prop where
  exact : ∀ e ∈ s.mapModifiedTx, env.Exact pool s.block.inBlock e
  listed : ∀ id ∈ pool.mapTx, id ∉ s.block.inBlock → id ∉ s.failedTx →
    (∃ x ∈ s.block.inBlock, pool.IsAncestor x id) → ∃ e ∈ s.mapModifiedTx, e.iter = id

/-- Before the limit of time, every contract of a sorted package can be added to the block. -/
def addsWhole : List H256 → BlockAssembler → σ → Bool
  | [], _, _ => true
  | id :: rest, a, world =>
    let (late, world) := env.pastLimit 0 world
    if late then false
    else if (pool.entry id).tx.hasCreateOrCall then
      let (added, a, world) := env.attemptToAddContractToBlock pool id a world
      added && addsWhole rest a world
    else addsWhole rest (a.addToBlock pool id) world

/-- The entry whose package a round considers. -/
def chosen (s : Selecting σ) : Option CTxMemPoolModifiedEntry :=
  match s.mi, env.bestModified pool s.mapModifiedTx with
  | [], best => best
  | id :: _, none => some (.ofEntry pool id)
  | id :: _, some modit =>
    some (if env.compareModifiedEntry pool modit (.ofEntry pool id) then modit else .ofEntry pool id)

/-- The package of an entry fails its tests, or it can be added as a whole and no failed entry
descends from it. -/
def SmoothPackage (s : Selecting σ) (e : CTxMemPoolModifiedEntry) : Prop :=
  env.testPackage s.block e.nSizeWithAncestors e.nSigOpCostWithAncestors = true →
    env.testPackageTransactions pool (package pool s.block.inBlock e.iter) = true →
      env.addsWhole pool (pool.sortForBlock (package pool s.block.inBlock e.iter)) s.block s.world =
          true ∧
        ∀ id ∈ s.failedTx, ∀ x ∈ package pool s.block.inBlock e.iter, ¬pool.IsAncestor x id

/-- A state whose next round skips an entry of the pool, or considers a package in this way. -/
def Smooth (s : Selecting σ) : Prop :=
  s.mi.head?.any s.skipMapTxEntry = true ∨ ∀ e, env.chosen pool s = some e →
    env.SmoothPackage pool { s with world := (env.pastLimit 0 s.world).2 } e

/-- The sums that the pool keeps of each entry are right, and no fee has a delta. -/
structure Undisturbed : Prop where
  stats : env.StatisticsCorrect pool
  feesWithAncestors : ∀ id ∈ pool.mapTx, (pool.entry id).nModFeesWithAncestors =
    ∑ x ∈ insert id (pool.calculateMemPoolAncestors id), (pool.entry x).getModifiedFee
  noDelta : ∀ id ∈ pool.mapTx, (pool.entry id).feeDelta = 0

/-- The entries of one transaction are exact, and it has one if needed. -/
def Tracked (failed among : Finset H256) (id : H256) (scores : List CTxMemPoolModifiedEntry) : Prop :=
  (∀ e ∈ scores, e.iter = id ∧ env.Exact pool among e) ∧
    (scores = [] → id ∈ failed ∨ ∀ x ∈ among, ¬pool.IsAncestor x id)

end

variable {σ : Type} {env : MinerEnv σ} {pool : CTxMemPool} {id it : H256}

/-! ## One transaction -/

section

variable {among failed : Finset H256} {e : CTxMemPoolModifiedEntry}

theorem package_insert_of_not_isAncestor (member : id ∈ pool.mapTx)
    (apart : ¬pool.IsAncestor it id) : package pool (insert it among) id = package pool among id := by
  ext x
  rw [mem_package member, mem_package member, mem_insert, not_or]
  refine or_congr_right (and_congr_right fun above => and_iff_right ?_)
  rintro rfl
  exact apart above

theorem sum_package (member : id ∈ pool.mapTx) (fresh : it ∉ among) (above : pool.IsAncestor it id)
    (f : H256 → Int) :
    ∑ x ∈ package pool among id, f x = f it + ∑ x ∈ package pool (insert it among) id, f x := by
  have other : it ≠ id := by
    rintro rfl
    exact not_isAncestor_self it above
  rw [← sum_insert (by simp [mem_package member, other])]
  refine sum_congr (ext fun x => ?_) fun _ _ => rfl
  rw [mem_insert, mem_package member, mem_package member, mem_insert, not_or]
  by_cases same : x = it
  · subst same
    simp [fresh, above]
  · simp [same]

theorem Exact.without (exact : env.Exact pool among e) (member : e.iter ∈ pool.mapTx)
    (fresh : it ∉ among) (above : pool.IsAncestor it e.iter) :
    env.Exact pool (insert it among)
      (env.without pool it (pool.entry it).getModifiedFee e) where
  size := by
    rw [MinerEnv.without, exact.size, sum_package member fresh above, add_sub_cancel_left]
  fee := by
    rw [MinerEnv.without, exact.fee, sum_package member fresh above, add_sub_cancel_left]
  sigOps := by
    rw [MinerEnv.without, exact.sigOps, sum_package member fresh above, add_sub_cancel_left]

theorem exact_ofEntry (calm : env.Undisturbed pool) (member : id ∈ pool.mapTx)
    (apart : ∀ x ∈ among, ¬pool.IsAncestor x id) : env.Exact pool among (.ofEntry pool id) := by
  have whole : package pool among id = insert id (pool.calculateMemPoolAncestors id) := by
    ext x
    rw [mem_package member, mem_insert, mem_calculateMemPoolAncestors member]
    exact or_congr_right (and_iff_left_of_imp fun above inside => apart x inside above)
  refine ⟨?_, ?_, ?_⟩ <;> dsimp only [CTxMemPoolModifiedEntry.ofEntry] <;> rw [whole]
  · exact calm.stats.sizeWithAncestors id member
  · exact calm.feesWithAncestors id member
  · exact calm.stats.sigOpsWithAncestors id member

namespace Tracked

variable {scores : List CTxMemPoolModifiedEntry}

theorem lose (tracked : env.Tracked pool failed among id scores) (calm : env.Undisturbed pool)
    (member : id ∈ pool.mapTx) (fresh : it ∉ among) (above : pool.IsAncestor it id)
    (kept : id ∉ failed) : env.Tracked pool failed (insert it among) id (env.lose pool it id scores) := by
  unfold MinerEnv.lose
  split_ifs with none
  · refine ⟨fun e listed => ?_, fun empty => by simp at empty⟩
    rw [List.mem_singleton] at listed
    subst listed
    have new := exact_ofEntry calm member ((tracked.2 none).resolve_left kept)
    exact ⟨rfl, new.without member fresh above⟩
  · have fee : (pool.entry it).nFee = (pool.entry it).getModifiedFee := by
      rw [CTxMemPoolEntry.getModifiedFee, calm.noDelta it above.mem]
      exact (add_zero _).symm
    refine ⟨fun e listed => ?_, fun empty => absurd (List.map_eq_nil_iff.1 empty) none⟩
    obtain ⟨before, old, rfl⟩ := List.mem_map.1 listed
    obtain ⟨rfl, exact⟩ := tracked.1 before old
    exact ⟨rfl, fee ▸ exact.without member fresh above⟩

theorem skip (tracked : env.Tracked pool failed among id scores) (member : id ∈ pool.mapTx)
    (apart : ¬pool.IsAncestor it id) : env.Tracked pool failed (insert it among) id scores := by
  refine ⟨fun e listed => ?_, fun none => (tracked.2 none).imp_right fun others x inside => ?_⟩
  · obtain ⟨rfl, exact⟩ := tracked.1 e listed
    have same : package pool (insert it among) e.iter = package pool among e.iter :=
      package_insert_of_not_isAncestor member apart
    exact ⟨rfl, ⟨same ▸ exact.size, same ▸ exact.fee, same ▸ exact.sigOps⟩⟩
  · obtain rfl | old := mem_insert.1 inside
    · exact apart
    · exact others x old

end Tracked

end

/-! ## A round -/

variable {s s' : Selecting σ}

/-- What a round does to the modified entries: it gives up some that have failed, or adds a whole
package, gives up its entries and updates those of its descendants. -/
def Rescores (env : MinerEnv σ) (pool : CTxMemPool) (s : Selecting σ) : Selection σ → Prop
  | .next s' => s.failedTx ⊆ s'.failedTx ∧
      (s'.block = s.block ∧ s'.mapModifiedTx ⊆ s.mapModifiedTx ∧
          (∀ e ∈ s.mapModifiedTx, e ∈ s'.mapModifiedTx ∨ e.iter ∈ s'.failedTx) ∨
        ∃ id ∈ pool.mapTx, id ∉ s.block.inBlock ∧
          (∀ failed ∈ s.failedTx, ∀ x ∈ package pool s.block.inBlock id, ¬pool.IsAncestor x failed) ∧
          s'.block.inBlock = s.block.inBlock ∪ package pool s.block.inBlock id ∧
          s'.mapModifiedTx = (env.updatePackagesForAdded pool (package pool s.block.inBlock id)
            (s.mapModifiedTx.filter fun e =>
              decide (e.iter ∉ pool.sortForBlock (package pool s.block.inBlock id)))).1)
  | _ => True

theorem rescores_fail (fUsingModified : Bool) (iter : H256) (s : Selecting σ) :
    env.Rescores pool s (.next (s.fail fUsingModified iter)) := by
  refine ⟨subset_failedTx_fail fUsingModified iter s, .inl ?_⟩
  cases fUsingModified with
  | false => exact ⟨rfl, List.Subset.refl _, fun _ => .inl⟩
  | true =>
    refine ⟨rfl, List.filter_subset_self _, fun e listed => ?_⟩
    by_cases same : e.iter = iter
    · exact .inr (same ▸ mem_insert_self _ _)
    · exact .inl (List.mem_filter.2 ⟨listed, by simpa using same⟩)

theorem addPackage_of_addsWhole {sorted : List H256} (fUsingModified : Bool) (iter : H256)
    (whole : env.addsWhole pool sorted s.block s.world = true) :
    (env.addPackage pool fUsingModified iter sorted true s).1 = true := by
  induction sorted generalizing s with
  | nil => rfl
  | cons id rest ih =>
    unfold addsWhole at whole
    unfold addPackage
    dsimp only at whole ⊢
    split_ifs at whole with late contract
    · rw [if_neg late, if_pos contract]
      rw [Bool.and_eq_true] at whole
      split
      · rename_i ran
        rw [ran] at whole
        exact ih whole.2
      · rename_i ran
        rw [ran] at whole
        cases whole.1
    · rw [if_neg late, if_neg contract]
      exact ih whole

theorem rescores_considerPackage (correct : pool.CountsCorrect) (fUsingModified : Bool)
    {e : CTxMemPoolModifiedEntry} (member : e.iter ∈ pool.mapTx) {s : Selecting σ}
    (smooth : env.SmoothPackage pool s e) :
    env.Rescores pool s (env.considerPackage pool fUsingModified e s) := by
  unfold considerPackage
  dsimp only
  split_ifs with included unpaid large full
  · trivial
  · trivial
  · trivial
  · exact rescores_fail fUsingModified e.iter s
  · rw [Bool.not_eq_true, Bool.not_eq_false'] at large
    obtain ⟨done, keeps⟩ := packageDone_addPackage (s := { s with nConsecutiveFailed := 0 }) env
      fUsingModified e.iter (ready_sortForBlock correct member included)
    unfold tryPackage
    rw [← package]
    dsimp only
    split_ifs with nonfinal incomplete
    · exact rescores_fail fUsingModified e.iter s
    all_goals
      rw [Bool.not_eq_true, Bool.not_eq_false'] at nonfinal
      obtain ⟨whole, apart⟩ := smooth large nonfinal
      have added : (env.addPackage pool fUsingModified e.iter
          (pool.sortForBlock (package pool s.block.inBlock e.iter)) true
          { s with nConsecutiveFailed := 0 }).1 = true :=
        addPackage_of_addsWhole fUsingModified e.iter whole
    · rw [added] at incomplete
      cases incomplete
    · rw [added] at done
      refine ⟨keeps.2.1, .inr ⟨e.iter, member, included, apart, ?_, by rw [keeps.2.2 added]⟩⟩
      have only := done.only
      have all := done.all rfl
      rw [toFinset_sortForBlock] at only all
      exact only.antisymm (union_subset done.adds.subset all)

section

variable (correct : pool.CountsCorrect) {start : BlockAssembler} (proper : env.Proper pool start s)
include correct proper

theorem rescores_choosePackage
    (smooth : ∀ e, env.chosen pool s = some e → env.SmoothPackage pool s e) :
    env.Rescores pool s (env.choosePackage pool s) := by
  unfold choosePackage
  unfold chosen at smooth
  have pool_mem (id : H256) (rest : List H256) (pending : s.mi = id :: rest) : id ∈ pool.mapTx :=
    proper.pending id (pending ▸ List.mem_cons_self)
  have modified_mem {e : CTxMemPoolModifiedEntry}
      (best : env.bestModified pool s.mapModifiedTx = some e) : e.iter ∈ pool.mapTx :=
    proper.modified_mem e (mem_of_bestModified best)
  cases pending : s.mi with
  | nil =>
    cases best : env.bestModified pool s.mapModifiedTx with
    | none => trivial
    | some e =>
      rw [pending, best] at smooth
      exact rescores_considerPackage correct true (modified_mem best) (smooth e rfl)
  | cons id rest =>
    cases best : env.bestModified pool s.mapModifiedTx with
    | none =>
      rw [pending, best] at smooth
      exact rescores_considerPackage correct false (pool_mem id rest pending)
        (s := { s with mi := rest }) (smooth _ rfl)
    | some e =>
      rw [pending, best] at smooth
      dsimp only
      split_ifs with better
      · exact rescores_considerPackage correct true (modified_mem best)
          (smooth e (congrArg some (if_pos better)))
      · exact rescores_considerPackage correct false (pool_mem id rest pending)
          (s := { s with mi := rest }) (smooth _ (congrArg some (if_neg better)))

theorem rescores_selectionRound (smooth : env.Smooth pool s) :
    env.Rescores pool s (env.selectionRound pool s) := by
  have now : env.Proper pool start { s with world := (env.pastLimit 0 s.world).2 } :=
    proper.congr rfl (List.Subset.refl _) (List.Subset.refl _)
  unfold selectionRound
  dsimp only
  split_ifs with nothing late stale
  · trivial
  · trivial
  · exact ⟨Finset.Subset.refl _, .inl ⟨rfl, List.Subset.refl _, fun _ => .inl⟩⟩
  · exact rescores_choosePackage correct now (smooth.resolve_left stale)

end

/-- The round of a smooth state keeps the scores exact. -/
theorem ScoresExact.round (exact : env.ScoresExact pool s) (calm : env.Undisturbed pool)
    {start : BlockAssembler} (proper : env.Proper pool start s)
    (round : env.selectionRound pool s = .next s') (smooth : env.Smooth pool s) :
    env.ScoresExact pool s' := by
  have rescored := rescores_selectionRound calm.stats.counts proper smooth
  rw [round] at rescored
  obtain ⟨failed, ⟨block, fewer, kept⟩ | ⟨top, member, fresh, spared, inBlock, updated⟩⟩ := rescored
  · refine ⟨fun e listed => block ▸ exact.exact e (fewer listed), fun id known out new above => ?_⟩
    rw [block] at out above
    obtain ⟨e, listed, rfl⟩ := exact.listed id known out (fun old => new (failed old)) above
    exact ⟨e, (kept e listed).resolve_right new, rfl⟩
  · have known x (listed : x ∈ package pool s.block.inBlock top) :=
      (mem_of_mem_package member fresh listed).1
    have isNew x (listed : x ∈ package pool s.block.inBlock top) :=
      (mem_of_mem_package member fresh listed).2
    have tracked {id : H256} (listed : id ∈ pool.mapTx) (out : id ∉ s'.block.inBlock) :
        env.Tracked pool s.failedTx s'.block.inBlock id (scoresOf id s'.mapModifiedTx) := by
      rw [inBlock, mem_union, not_or] at out
      rw [inBlock, updated]
      refine updatePackagesForAdded_induction env id
        (motive := fun among scores => env.Tracked pool s.failedTx among id scores) known isNew ?_ ?_
        ⟨fun e mine => ?_, fun none => ?_⟩
      · intro among scores it added new _ above tracked
        exact tracked.lose calm listed new above fun isFailed => spared id isFailed it added above
      · intro among scores it _ apart tracked
        exact tracked.skip listed (apart out.2)
      · obtain ⟨old, iter⟩ := mem_scoresOf.1 mine
        exact ⟨iter, exact.exact e (List.mem_filter.1 old).1⟩
      · by_cases isFailed : id ∈ s.failedTx
        · exact .inl isFailed
        refine .inr fun x added above => ?_
        obtain ⟨e, old, rfl⟩ := exact.listed id listed out.1 isFailed ⟨x, added, above⟩
        have stays : e ∈ scoresOf e.iter (s.mapModifiedTx.filter fun e =>
            decide (e.iter ∉ pool.sortForBlock (package pool s.block.inBlock top))) := by
          refine mem_scoresOf.2 ⟨List.mem_filter.2 ⟨old, ?_⟩, rfl⟩
          simpa [mem_sortForBlock] using out.2
        rw [none] at stays
        cases stays
    have ends := endsWell_selectionRound calm.stats.counts proper
    rw [round] at ends
    obtain ⟨proper', _⟩ := ends
    refine ⟨fun e listed => ?_, fun id listed out new above => ?_⟩
    · exact ((tracked (proper'.modified_mem e listed) (proper'.modified_apart e listed)).1 e
        (mem_scoresOf.2 ⟨listed, rfl⟩)).2
    · have some : scoresOf id s'.mapModifiedTx ≠ [] := by
        intro none
        obtain ⟨x, added, higher⟩ := above
        obtain isFailed | apart := (tracked listed out).2 none
        · exact new (failed isFailed)
        · exact apart x added higher
      obtain ⟨e, mine⟩ := List.exists_mem_of_ne_nil _ some
      exact ⟨e, mem_scoresOf.1 mine⟩

/-! ## The whole loop -/

/-- On a pool without fee deltas, the modified entries are exact at the start of every round of
`addPackageTxs` that is reached through smooth states. -/
theorem modified_scores_exact (env : MinerEnv σ) (pool : CTxMemPool) (calm : env.Undisturbed pool)
    (scriptSig scriptPubKeyIn : CScript) (world : σ) {s : Selecting σ}
    (reached : Relation.ReflTransGen
      (fun s s' => env.Smooth pool s ∧ env.selectionRound pool s = .next s')
      (env.selecting pool scriptSig scriptPubKeyIn world) s) :
    env.ScoresExact pool s := by
  suffices both : env.Proper pool (env.newBlock scriptSig scriptPubKeyIn) s ∧ env.ScoresExact pool s
    from both.2
  induction reached with
  | refl =>
    refine ⟨proper_selecting env pool scriptSig scriptPubKeyIn world, ?_, ?_⟩
    · rw [mapModifiedTx_selecting]
      simp
    · rintro id _ _ _ ⟨x, added, _⟩
      have added' : x ∈ (env.newBlock scriptSig scriptPubKeyIn).inBlock := added
      simp [inBlock_newBlock] at added'
  | tail _ step ih =>
    obtain ⟨proper, exact⟩ := ih
    have ends := endsWell_selectionRound calm.stats.counts proper
    rw [step.2] at ends
    exact ⟨ends.1, exact.round calm proper step.2 step.1⟩

theorem eq_next {round : Selection σ} (found : round.next? = some s) : round = .next s := by
  cases round <;> cases found
  rfl

/-- A miner without contracts. -/
def filling : MinerEnv Unit where
  params := .main
  nHeight := 7001
  fProofOfStake := true
  header := ⟨4, 0, 0, 1600, 0, 0, 0, 0, ⟨0, 0⟩, []⟩
  limits := updateBlockSizeParams 500000
  nBlockMaxWeight := 2000000
  nSatoshisPerK := 1
  nBytesPerSigOp := 20
  nTimeLimit := 0
  nLockTimeCutoff := 1500
  fIncludeWitness := true
  fDisableContractScratching := false
  minGasPrice := 40
  hardBlockGasLimit := 40000000
  stakerSoftBlockGasLimit := 40000000
  txGasLimit := 40000000
  witnessSize := fun tx => if tx.nLockTime = 0 then 0 else 398900
  innerSigOpCost := fun _ => 0
  compareByAncestorFee := fun a b => decide (a.iter < b.iter)
  witnessCommitment := fun _ => none
  testBlockValidity := fun _ => true
  getAdjustedTime := fun world => (0, world)
  extractionArtaxTransactions := fun _ _ _ => none
  executeContract := fun world _ _ _ => (world, none)
  roots := fun _ => (0, 0)
  setRoots := fun world _ => world

def heavyEntry (nLockTime : UInt32) : CTxMemPoolEntry where
  tx := { vin := [⟨⟨0, 0⟩, [], 0xffffffff⟩], vout := [⟨1000, []⟩], nLockTime }
  nFee := 1000
  nTxWeight := 399140
  sigOpCost := 0
  nCountWithAncestors := 1
  nSizeWithAncestors := 99785
  nModFeesWithAncestors := 1000
  nSigOpCostWithAncestors := 0

/-- An entry of a chain in which each transaction spends the one before, with the fee of the second
raised if it is prioritised. -/
def chained (prioritised : Bool) (n : UInt32) : CTxMemPoolEntry :=
  { heavyEntry n with
    tx := { (heavyEntry n).tx with vin := [⟨⟨n.toNat - 1, 0⟩, [], 0xffffffff⟩] }
    feeDelta := if prioritised && n == 2 then 5000 else 0
    nCountWithAncestors := n.toNat
    nSizeWithAncestors := 99785 * n.toNat
    nModFeesWithAncestors := 1000 * n.toNat + if prioritised && 2 ≤ n then 5000 else 0 }

def chainPool (prioritised : Bool) : CTxMemPool :=
  .ofEntries (fun tx => tx.nLockTime.toNat) (heavyEntry 0) ([2, 1, 3].map (chained prioritised))
    (fun id => id) (by cases prioritised <;> decide +kernel) (by cases prioritised <;> decide +kernel)

theorem undisturbed_chainPool : filling.Undisturbed (chainPool false) where
  stats := {
    counts := by
      unfold CountsCorrect
      decide +kernel
    weight := by decide +kernel
    sigOps := by decide +kernel
    sizeWithAncestors := by decide +kernel
    sigOpsWithAncestors := by decide +kernel }
  feesWithAncestors := by decide +kernel
  noDelta := by decide +kernel

/-- After the first two transactions of the chain are in the block, the entry of the third is exact. -/
theorem modified_scores_exact_chainPool : ∃ s : Selecting Unit,
    filling.selectionRound (chainPool false) (filling.selecting (chainPool false) [] [] ()) = .next s ∧
      s.mapModifiedTx.length = 1 ∧ filling.ScoresExact (chainPool false) s := by
  have checked : ((filling.selectionRound (chainPool false)
      (filling.selecting (chainPool false) [] [] ())).next?.any fun s =>
        decide (s.mapModifiedTx.length = 1)) = true := by
    decide +kernel
  have first : filling.chosen (chainPool false) (filling.selecting (chainPool false) [] [] ()) =
      some (.ofEntry (chainPool false) 2) := by decide +kernel
  have whole : filling.addsWhole (chainPool false) ((chainPool false).sortForBlock
      (package (chainPool false) ∅ 2)) (filling.newBlock [] []) () = true := by decide +kernel
  obtain ⟨s, found, length⟩ := (Option.any_eq_true _ _).1 checked
  refine ⟨s, eq_next found, of_decide_eq_true length, modified_scores_exact filling (chainPool false)
    undisturbed_chainPool [] [] () (.single ⟨.inr fun e considered => ?_, eq_next found⟩)⟩
  cases first.symm.trans considered
  exact fun _ _ => ⟨whole, nofun⟩

/-- If the second transaction is prioritised, the third carries the difference as its own. -/
theorem prioritised_score_differs : ∃ s : Selecting Unit,
    Relation.ReflTransGen (fun s s' => filling.selectionRound (chainPool true) s = .next s')
      (filling.selecting (chainPool true) [] [] ()) s ∧
      ¬filling.ScoresExact (chainPool true) s := by
  have checked : ((filling.selectionRound (chainPool true)
      (filling.selecting (chainPool true) [] [] ())).next?.any fun s =>
        s.mapModifiedTx.any fun e => decide (e.nModFeesWithAncestors ≠
          ∑ x ∈ package (chainPool true) s.block.inBlock e.iter,
            ((chainPool true).entry x).getModifiedFee)) = true := by
    decide +kernel
  obtain ⟨s, found, any⟩ := (Option.any_eq_true _ _).1 checked
  obtain ⟨e, listed, differs⟩ := List.any_eq_true.1 any
  exact ⟨s, .single (eq_next found), fun exact =>
    of_decide_eq_true differs (exact.exact e listed).fee⟩

end MinerEnv

end Artax
