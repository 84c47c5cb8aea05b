import Artax.Mining.BlockAssembler
import Mathlib.Data.Prod.Lex

/-!
# Selecting packages

What `addPackageTxs` puts into a block, whatever contracts fail and whenever the time is up:
transactions of the pool, each once and after its ancestors. Every round adds to the block or has one
entry less to consider.
-/

namespace Artax

open Addition CTxMemPool Finset
open Util (Stepwise)
open Util.Closure (ascending mem_ascending nodup_ascending)

def CTxMemPool.transactions (pool : CTxMemPool) (added : List Addition) : List CTransaction :=
  added.flatMap fun x => (pool.entry x.iter).tx :: x.result.valueTransfers

namespace MinerEnv

variable {σ : Type} (env : MinerEnv σ) (pool : CTxMemPool)

/-- The block had so much added to it when a contract transaction was executed with a result. -/
def Executed (before : List Addition) (x : Addition) : Prop :=
  ∃ (world : σ) (vtx : List CTransaction) (txs : List ArtaxTransaction),
    vtx.drop (env.proofTx + 1) = pool.transactions before ∧
      env.extractionArtaxTransactions world vtx (pool.entry x.iter).tx = some txs ∧
        (env.executeContract world vtx txs env.hardBlockGasLimit).2 = some x.result

/-- An addition is sound after others: its transaction is in the pool and new, its ancestors were
added, and it carries what its execution returned. -/
structure Placed (before : List Addition) (x : Addition) : Prop where
  member : x.iter ∈ pool.mapTx
  fresh : x.iter ∉ before.map iter
  ancestors : ∀ ancestor, pool.IsAncestor ancestor x.iter → ancestor ∈ before.map iter
  plain : (pool.entry x.iter).tx.hasCreateOrCall = false → x.result = {}
  executed : (pool.entry x.iter).tx.hasCreateOrCall = true → env.Executed pool before x

/-- The block of an assembler is its reward transactions and what was added. -/
structure Filled (a : BlockAssembler) : Prop where
  placed : Stepwise (env.Placed pool) a.added
  inBlock : ∀ id, id ∈ a.inBlock ↔ id ∈ a.added.map iter
  rewards : env.proofTx + 1 ≤ a.vtx.length
  vtx : a.vtx.drop (env.proofTx + 1) = pool.transactions a.added

variable {env pool} {a : BlockAssembler} {id : H256} {s : Selecting σ}

namespace Filled

theorem mem (filled : env.Filled pool a) (included : id ∈ a.inBlock) : id ∈ pool.mapTx := by
  obtain ⟨x, added, rfl⟩ := List.mem_map.1 ((filled.inBlock id).1 included)
  obtain ⟨_, _, _, placed⟩ := filled.placed.of_mem added
  exact placed.member

theorem ancestor_mem (filled : env.Filled pool a) (included : id ∈ a.inBlock) {ancestor : H256}
    (above : pool.IsAncestor ancestor id) : ancestor ∈ a.inBlock := by
  obtain ⟨x, added, rfl⟩ := List.mem_map.1 ((filled.inBlock id).1 included)
  obtain ⟨before, after, eq, placed⟩ := filled.placed.of_mem added
  rw [filled.inBlock, eq, List.map_append]
  exact List.mem_append_left _ (placed.ancestors ancestor above)

theorem card_le (filled : env.Filled pool a) : a.inBlock.card ≤ pool.mapTx.length := by
  refine (card_le_card fun id included => ?_).trans (List.toFinset_card_le pool.mapTx)
  exact List.mem_toFinset.2 (filled.mem included)

end Filled

/-! ## Adding one transaction -/

/-- An entry can be added: it is not in the block, and its ancestors are. -/
structure Due (pool : CTxMemPool) (inBlock : Finset H256) (id : H256) : Prop where
  member : id ∈ pool.mapTx
  fresh : id ∉ inBlock
  ancestors : ∀ ancestor, pool.IsAncestor ancestor id → ancestor ∈ inBlock

theorem Filled.addToBlock (filled : env.Filled pool a) (due : Due pool a.inBlock id)
    (plain : (pool.entry id).tx.hasCreateOrCall = false) :
    env.Filled pool (a.addToBlock pool id) where
  placed := filled.placed.concat {
    member := due.member
    fresh := fun again => due.fresh ((filled.inBlock id).2 again)
    ancestors := fun ancestor above => (filled.inBlock ancestor).1 (due.ancestors ancestor above)
    plain := fun _ => rfl
    executed := fun contract => absurd contract (by simp [plain]) }
  inBlock := by
    intro other
    simp only [BlockAssembler.addToBlock, mem_insert, filled.inBlock, List.map_append,
      List.mem_append, List.map_singleton, List.mem_singleton]
    exact or_comm
  rewards := by
    have := filled.rewards
    simp only [BlockAssembler.addToBlock, List.length_append]
    omega
  vtx := by
    simp only [BlockAssembler.addToBlock, transactions, List.flatMap_append,
      List.drop_append_of_le_length filled.rewards, filled.vtx]
    rfl

/-- What a successful attempt to add a contract means. -/
structure Accepted (env : MinerEnv σ) (pool : CTxMemPool) (id : H256) (a : BlockAssembler)
    (result : ByteCodeExecResult) : Prop where
  executed : ∃ world txs, env.extractionArtaxTransactions world a.vtx (pool.entry id).tx = some txs ∧
    (env.executeContract world a.vtx txs env.hardBlockGasLimit).2 = some result
  gas : a.bceResult.usedGas + result.usedGas ≤ env.softBlockGasLimit
  fits : env.contractFits a (pool.entry id) result = true

/-- How an attempt ends: with the assembler as it began, and the roots put back, or with a contract
that passed all checks. -/
theorem attemptToAddContractToBlock_cases (env : MinerEnv σ) (pool : CTxMemPool) (id : H256)
    (a : BlockAssembler) (world : σ) :
    (∃ left, env.attemptToAddContractToBlock pool id a world = (false, a, left) ∧
      (left = (env.pastLimit bytecodeTimeBuffer world).2 ∨ ∃ now, left =
        env.setRoots now (env.roots (env.pastLimit bytecodeTimeBuffer world).2))) ∨
      ∃ now txs result left, env.attemptToAddContractToBlock pool id a world =
          (true, env.addContract pool id result a, left) ∧
        env.extractionArtaxTransactions now a.vtx (pool.entry id).tx = some txs ∧
        env.gasAllowed a.bceResult.usedGas txs 0#256 = true ∧
        env.executeContract now a.vtx txs env.hardBlockGasLimit = (left, some result) ∧
        a.bceResult.usedGas + result.usedGas ≤ env.softBlockGasLimit ∧
        env.contractFits a (pool.entry id) result = true := by
  unfold attemptToAddContractToBlock
  generalize env.pastLimit bytecodeTimeBuffer world = clock
  dsimp only
  split_ifs
  · exact .inl ⟨_, rfl, .inl rfl⟩
  · exact .inl ⟨_, rfl, .inl rfl⟩
  cases extracted : env.extractionArtaxTransactions clock.2 a.vtx (pool.entry id).tx with
  | none => exact .inl ⟨_, rfl, .inl rfl⟩
  | some txs =>
    dsimp only
    split_ifs with refused
    · exact .inl ⟨_, rfl, .inl rfl⟩
    cases ran : env.executeContract clock.2 a.vtx txs env.hardBlockGasLimit with
    | mk left outcome =>
      cases outcome with
      | none => exact .inl ⟨_, rfl, .inr ⟨left, rfl⟩⟩
      | some result =>
        dsimp only
        split_ifs with overrun unfit
        · exact .inl ⟨_, rfl, .inr ⟨left, rfl⟩⟩
        · exact .inl ⟨_, rfl, .inr ⟨left, rfl⟩⟩
        · exact .inr ⟨clock.2, txs, result, left, rfl, extracted, by simpa using refused, ran,
            UInt64.not_lt.1 overrun, by simpa using unfit⟩

theorem Filled.addContract (filled : env.Filled pool a) (due : Due pool a.inBlock id)
    (contract : (pool.entry id).tx.hasCreateOrCall) {result : ByteCodeExecResult}
    (accepted : env.Accepted pool id a result) :
    env.Filled pool (env.addContract pool id result a) where
  placed := filled.placed.concat {
    member := due.member
    fresh := fun again => due.fresh ((filled.inBlock id).2 again)
    ancestors := fun ancestor above => (filled.inBlock ancestor).1 (due.ancestors ancestor above)
    plain := fun plain => absurd contract (by simp [plain])
    executed := fun _ => by
      obtain ⟨world, txs, extracted, ran⟩ := accepted.executed
      exact ⟨world, a.vtx, txs, filled.vtx, extracted, ran⟩ }
  inBlock := by
    intro other
    simp only [MinerEnv.addContract, rebuildRefund, mem_insert, filled.inBlock,
      List.map_append, List.mem_append, List.map_singleton, List.mem_singleton]
    exact or_comm
  rewards := by
    have := filled.rewards
    simp only [MinerEnv.addContract, rebuildRefund, List.length_set, List.length_append]
    omega
  vtx := by
    simp only [MinerEnv.addContract, rebuildRefund, transactions, List.flatMap_append,
      List.drop_set_of_lt (Nat.lt_succ_self env.proofTx),
      List.drop_append_of_le_length filled.rewards, filled.vtx]
    simp

/-- A transaction of the pool is added to a block: one without contracts, or a contract transaction
whose attempt succeeded. -/
inductive Adds (env : MinerEnv σ) (pool : CTxMemPool) (a : BlockAssembler) (id : H256) :
    BlockAssembler → Prop
  | plain (due : Due pool a.inBlock id) (plain : (pool.entry id).tx.hasCreateOrCall = false) :
    Adds env pool a id (a.addToBlock pool id)
  | contract (due : Due pool a.inBlock id) (contract : (pool.entry id).tx.hasCreateOrCall = true)
    {result : ByteCodeExecResult} (accepted : env.Accepted pool id a result) :
    Adds env pool a id (env.addContract pool id result a)

/-- A block comes from another by adding transactions of the pool, one after the other. -/
def Extends (env : MinerEnv σ) (pool : CTxMemPool) : BlockAssembler → BlockAssembler → Prop :=
  Relation.ReflTransGen fun a a' => ∃ id, env.Adds pool a id a'

variable {a' : BlockAssembler} {sorted rest : List H256} {l : List CTxMemPoolModifiedEntry}
  {e : CTxMemPoolModifiedEntry} {alreadyAdded : Finset H256}
  {updated : List CTxMemPoolModifiedEntry × Nat} {s' s₀ : Selecting σ}
  {wasAdded fUsingModified : Bool}

theorem Adds.inBlock (adds : env.Adds pool a id a') :
    a'.inBlock = insert id a.inBlock := by
  cases adds <;> rfl

theorem Filled.adds (filled : env.Filled pool a) (adds : env.Adds pool a id a') :
    env.Filled pool a' := by
  cases adds with
  | plain due plain => exact filled.addToBlock due plain
  | contract due contract accepted => exact filled.addContract due contract accepted

theorem Filled.of_extends (filled : env.Filled pool a) (chain : env.Extends pool a a') :
    env.Filled pool a' := by
  induction chain with
  | refl => exact filled
  | tail _ adds ih =>
    obtain ⟨id, adds⟩ := adds
    exact ih.adds adds

theorem Extends.subset (chain : env.Extends pool a a') :
    a.inBlock ⊆ a'.inBlock := by
  induction chain with
  | refl => exact Finset.Subset.refl _
  | tail _ adds ih =>
    obtain ⟨id, adds⟩ := adds
    exact adds.inBlock ▸ ih.trans (subset_insert id _)

/-! ## Adding a package -/

def Ready (pool : CTxMemPool) : Finset H256 → List H256 → Prop
  | _, [] => True
  | inBlock, id :: rest => Due pool inBlock id ∧ Ready pool (insert id inBlock) rest

variable {inBlock : Finset H256}

/-- A list that is sorted by the number of ancestors can be added in its order, if it has all the
ancestors that are not in the block. -/
theorem ready_of_sorted (correct : pool.CountsCorrect)
    (ascends : sorted.Pairwise fun a b => (pool.entry a).nCountWithAncestors ≤ (pool.entry b).nCountWithAncestors)
    (nodup : sorted.Nodup) (member : ∀ id ∈ sorted, id ∈ pool.mapTx)
    (fresh : ∀ id ∈ sorted, id ∉ inBlock)
    (closed : ∀ id ∈ sorted, ∀ ancestor, pool.IsAncestor ancestor id → ancestor ∈ inBlock ∨ ancestor ∈ sorted) :
    Ready pool inBlock sorted := by
  induction sorted generalizing inBlock with
  | nil => trivial
  | cons id rest ih =>
    rw [List.pairwise_cons] at ascends
    rw [List.nodup_cons] at nodup
    refine ⟨⟨member id List.mem_cons_self, fresh id List.mem_cons_self, fun ancestor above => ?_⟩,
      ih ascends.2 nodup.2 (fun x later => member x (List.mem_cons_of_mem id later)) ?_ ?_⟩
    · -- an ancestor further on in the list would have more ancestors than the entry
      have fewer := count_lt_of_isAncestor correct above (member id List.mem_cons_self)
      obtain included | listed := closed id List.mem_cons_self ancestor above
      · exact included
      · obtain rfl | later := List.mem_cons.1 listed
        · exact absurd fewer (lt_irrefl _)
        · exact absurd (ascends.1 ancestor later) (by omega)
    · intro x later included
      obtain rfl | before := mem_insert.1 included
      · exact nodup.1 later
      · exact fresh x (List.mem_cons_of_mem id later) before
    · intro x later ancestor above
      obtain included | listed := closed x (List.mem_cons_of_mem id later) ancestor above
      · exact .inl (mem_insert_of_mem included)
      · obtain rfl | later' := List.mem_cons.1 listed
        · exact .inl (mem_insert_self ancestor inBlock)
        · exact .inr later'

def package (pool : CTxMemPool) (inBlock : Finset H256) (id : H256) : Finset H256 :=
  insert id (pool.calculateMemPoolAncestors id \ inBlock)

theorem mem_sortForBlock {package : Finset H256} :
    id ∈ pool.sortForBlock package ↔ id ∈ package := by
  rw [sortForBlock, List.mem_insertionSort, mem_ascending]

theorem mem_package (member : id ∈ pool.mapTx) {x : H256} :
    x ∈ package pool inBlock id ↔ x = id ∨ pool.IsAncestor x id ∧ x ∉ inBlock := by
  rw [package, mem_insert, mem_sdiff, mem_calculateMemPoolAncestors member]

theorem mem_of_mem_package {x : H256} (member : id ∈ pool.mapTx) (fresh : id ∉ inBlock)
    (listed : x ∈ package pool inBlock id) : x ∈ pool.mapTx ∧ x ∉ inBlock := by
  obtain rfl | ⟨above, outside⟩ := (mem_package member).1 listed
  · exact ⟨member, fresh⟩
  · exact ⟨above.mem, outside⟩

theorem toFinset_sortForBlock (package : Finset H256) : (pool.sortForBlock package).toFinset = package := by
  ext x
  rw [List.mem_toFinset, mem_sortForBlock]

theorem ready_sortForBlock (correct : pool.CountsCorrect) (member : id ∈ pool.mapTx)
    (fresh : id ∉ inBlock) : Ready pool inBlock (pool.sortForBlock (package pool inBlock id)) := by
  have above {x : H256} : x ∈ package pool inBlock id ↔
      x = id ∨ pool.IsAncestor x id ∧ x ∉ inBlock := mem_package member
  have total : Std.Total fun a b : H256 =>
      (pool.entry a).nCountWithAncestors ≤ (pool.entry b).nCountWithAncestors :=
    ⟨fun _ _ => Nat.le_total _ _⟩
  have trans : IsTrans H256 fun a b =>
      (pool.entry a).nCountWithAncestors ≤ (pool.entry b).nCountWithAncestors :=
    ⟨fun _ _ _ => Nat.le_trans⟩
  refine ready_of_sorted correct (List.pairwise_insertionSort _ _) ?_ ?_ ?_ ?_
  · exact (List.perm_insertionSort _ _).nodup_iff.2 (nodup_ascending _)
  · intro x listed
    obtain rfl | ⟨ancestor, _⟩ := above.1 (mem_sortForBlock.1 listed)
    · exact member
    · exact ancestor.mem
  · intro x listed
    obtain rfl | ⟨_, outside⟩ := above.1 (mem_sortForBlock.1 listed)
    · exact fresh
    · exact outside
  · intro x listed ancestor higher
    by_cases included : ancestor ∈ inBlock
    · exact .inl included
    refine .inr (mem_sortForBlock.2 (above.2 (.inr ⟨?_, included⟩)))
    obtain rfl | ⟨lower, _⟩ := above.1 (mem_sortForBlock.1 listed)
    · exact higher
    · exact Relation.TransGen.trans lower higher

/-- What the loop over a package does: it adds a part of the package, all of it if it succeeds, and
erases all of it from the modified entries. -/
structure PackageDone (env : MinerEnv σ) (pool : CTxMemPool) (sorted : List H256) (wasAdded : Bool)
    (s s' : Selecting σ) : Prop where
  adds : env.Extends pool s.block s'.block
  only : s'.block.inBlock ⊆ s.block.inBlock ∪ sorted.toFinset
  all : wasAdded = true → sorted.toFinset ⊆ s'.block.inBlock
  modified : s'.mapModifiedTx.Sublist (s.mapModifiedTx.filter fun e => decide (e.iter ∉ sorted))
  mi : s'.mi = s.mi

theorem filter_iter_ne (id : H256) (rest : List H256) (l : List CTxMemPoolModifiedEntry) :
    ((l.filter fun e => e.iter != id).filter fun e => decide (e.iter ∉ rest)) =
      l.filter fun e => decide (e.iter ∉ id :: rest) := by
  rw [List.filter_filter]
  refine List.filter_congr fun e _ => ?_
  by_cases same : e.iter = id <;> simp [same]

theorem PackageDone.nil (wasAdded : Bool) (s : Selecting σ) : env.PackageDone pool [] wasAdded s s :=
  ⟨.refl, subset_union_left, fun _ => by simp, by simp, rfl⟩

theorem PackageDone.cons {wasAdded : Bool} {s s₁ s' : Selecting σ}
    (done : env.PackageDone pool rest wasAdded s₁ s') (mi : s₁.mi = s.mi)
    (erased : s₁.mapModifiedTx.Sublist (s.mapModifiedTx.filter fun e => e.iter != id))
    (block : s₁.block = s.block ∧ wasAdded = false ∨ env.Adds pool s.block id s₁.block) :
    env.PackageDone pool (id :: rest) wasAdded s s' where
  adds := by
    obtain ⟨same, _⟩ | adds := block
    · exact same ▸ done.adds
    · exact .head ⟨id, adds⟩ done.adds
  only := by
    intro x included
    have := done.only included
    obtain ⟨same, _⟩ | adds := block
    · rw [same] at this
      simp only [mem_union, List.mem_toFinset, List.mem_cons] at this ⊢
      tauto
    · rw [adds.inBlock] at this
      simp only [mem_union, mem_insert, List.mem_toFinset, List.mem_cons] at this ⊢
      tauto
  all := by
    intro ok
    obtain ⟨_, failed⟩ | adds := block
    · simp [ok] at failed
    · rw [List.toFinset_cons]
      refine insert_subset (done.adds.subset ?_) (done.all ok)
      rw [adds.inBlock]
      exact mem_insert_self id _
  modified := by
    rw [← filter_iter_ne]
    exact done.modified.trans (erased.filter _)
  mi := done.mi.trans mi

/-- What the loop over a package keeps besides: the count of packages, what has failed, and, if it
succeeds, the entries outside of the package. -/
def Keeps (s : Selecting σ) (sorted : List H256) (result : Bool × Selecting σ) : Prop :=
  result.2.nPackagesSelected = s.nPackagesSelected ∧ s.failedTx ⊆ result.2.failedTx ∧
    (result.1 = true →
      result.2.mapModifiedTx = s.mapModifiedTx.filter fun e => decide (e.iter ∉ sorted))

theorem Keeps.cons {s₁ : Selecting σ} {result : Bool × Selecting σ} (keeps : Keeps s₁ rest result)
    (count : s₁.nPackagesSelected = s.nPackagesSelected) (failed : s.failedTx ⊆ s₁.failedTx)
    (modified : result.1 = true → s₁.mapModifiedTx = s.mapModifiedTx.filter fun e => e.iter != id) :
    Keeps s (id :: rest) result := by
  refine ⟨keeps.1.trans count, failed.trans keeps.2.1, fun added => ?_⟩
  rw [keeps.2.2 added, modified added, filter_iter_ne]

theorem subset_failedTx_fail (fUsingModified : Bool) (iter : H256) (s : Selecting σ) :
    s.failedTx ⊆ (s.fail fUsingModified iter).failedTx := by
  cases fUsingModified with
  | false => exact Finset.Subset.refl _
  | true => exact subset_insert iter _

theorem packageDone_failed (fUsingModified : Bool) (iter : H256) (sorted : List H256)
    (s : Selecting σ) :
    (env.addPackage pool fUsingModified iter sorted false s).1 = false ∧
      env.PackageDone pool sorted false s
        (env.addPackage pool fUsingModified iter sorted false s).2 ∧
      Keeps s sorted (env.addPackage pool fUsingModified iter sorted false s) := by
  induction sorted generalizing s with
  | nil => exact ⟨rfl, .nil false s, rfl, Finset.Subset.refl _, fun _ => by simp [addPackage]⟩
  | cons id rest ih =>
    obtain ⟨failed, done, keeps⟩ := ih (s.eraseModified id)
    exact ⟨failed, done.cons rfl (List.Sublist.refl _) (.inl ⟨rfl, rfl⟩),
      keeps.cons rfl (Finset.Subset.refl _) fun _ => rfl⟩

theorem packageDone_addPackage (env : MinerEnv σ) (fUsingModified : Bool) (iter : H256)
    (ready : Ready pool s.block.inBlock sorted) :
    env.PackageDone pool sorted (env.addPackage pool fUsingModified iter sorted true s).1 s
        (env.addPackage pool fUsingModified iter sorted true s).2 ∧
      Keeps s sorted (env.addPackage pool fUsingModified iter sorted true s) := by
  induction sorted generalizing s with
  | nil => exact ⟨.nil true s, rfl, Finset.Subset.refl _, fun _ => by simp [addPackage]⟩
  | cons id rest ih =>
    obtain ⟨due, ready⟩ := ready
    -- a failure here leaves the block and erases the rest
    have stop {s₁ : Selecting σ} (block : s₁.block = s.block) (mi : s₁.mi = s.mi)
        (erased : s₁.mapModifiedTx.Sublist (s.mapModifiedTx.filter fun e => e.iter != id))
        (count : s₁.nPackagesSelected = s.nPackagesSelected) (fails : s.failedTx ⊆ s₁.failedTx) :
        env.PackageDone pool (id :: rest)
            (env.addPackage pool fUsingModified iter rest false s₁).1 s
            (env.addPackage pool fUsingModified iter rest false s₁).2 ∧
          Keeps s (id :: rest) (env.addPackage pool fUsingModified iter rest false s₁) := by
      obtain ⟨failed, done, keeps⟩ := packageDone_failed fUsingModified iter rest s₁
      refine ⟨?_, keeps.cons count fails fun added => by simp [failed] at added⟩
      rw [failed]
      exact done.cons mi erased (.inl ⟨block, rfl⟩)
    rw [addPackage]
    generalize env.pastLimit 0 s.world = clock
    dsimp only
    split_ifs with late contract
    · exact stop rfl rfl (List.Sublist.refl _) rfl (Finset.Subset.refl _)
    · obtain ⟨world, attempt, _⟩ |
          ⟨now, txs, result, world, attempt, extracted, _, ran, gas, fits⟩ :=
        attemptToAddContractToBlock_cases env pool id s.block clock.2
      · rw [attempt]
        cases fUsingModified with
        | false => exact stop rfl rfl (List.Sublist.refl _) rfl (Finset.Subset.refl _)
        | true => exact stop rfl rfl (List.filter_sublist.filter _) rfl (subset_insert iter _)
      · rw [attempt]
        have accepted : env.Accepted pool id s.block result :=
          ⟨⟨now, txs, extracted, by rw [ran]⟩, gas, fits⟩
        obtain ⟨done, keeps⟩ := ih (s := ({ s with
          block := env.addContract pool id result s.block, world }).eraseModified id) ready
        exact ⟨done.cons rfl (List.Sublist.refl _) (.inr (.contract due contract accepted)),
          keeps.cons rfl (Finset.Subset.refl _) fun _ => rfl⟩
    · obtain ⟨done, keeps⟩ := ih (s := ({ s with
        block := s.block.addToBlock pool id, world := clock.2 }).eraseModified id) ready
      exact ⟨done.cons rfl (List.Sublist.refl _) (.inr (.plain due (by simpa using contract))),
        keeps.cons rfl (Finset.Subset.refl _) fun _ => rfl⟩

/-! ## Choosing a package -/

theorem mem_of_bestModified (best : env.bestModified pool l = some e) : e ∈ l := by
  revert e
  refine List.foldlRecOn (motive := fun best => ∀ {e}, best = some e → e ∈ l) l
    (env.betterModified pool) (by simp) fun best inside x listed e chosen => ?_
  cases best with
  | none =>
    cases chosen
    exact listed
  | some b =>
    dsimp only [betterModified] at chosen
    split_ifs at chosen
    · cases chosen
      exact listed
    · exact inside chosen

theorem bestModified_ne_none (some : l ≠ []) :
    env.bestModified pool l ≠ none := by
  obtain ⟨first, rest, rfl⟩ := List.exists_cons_of_ne_nil some
  refine List.foldlRecOn (motive := fun best => best ≠ none) rest (env.betterModified pool)
    (by simp [betterModified]) fun best found x _ => ?_
  cases best with
  | none => exact absurd rfl found
  | some b =>
    dsimp only [betterModified]
    split_ifs <;> simp

/-- The two ways in which a package is chosen. -/
theorem choosePackage_cases {P : Selection σ → Prop}
    (nothing : s.mi = [] → s.mapModifiedTx = [] → P .assertionFailed)
    (modified : ∀ e ∈ s.mapModifiedTx, P (env.considerPackage pool true e s))
    (unmodified : ∀ id rest, s.mi = id :: rest →
      P (env.considerPackage pool false (.ofEntry pool id) { s with mi := rest })) :
    P (env.choosePackage pool s) := by
  unfold choosePackage
  cases pending : s.mi with
  | nil =>
    cases best : env.bestModified pool s.mapModifiedTx with
    | none => exact nothing pending (by_contra fun some => bestModified_ne_none some best)
    | some e => exact modified e (mem_of_bestModified best)
  | cons id rest =>
    cases best : env.bestModified pool s.mapModifiedTx with
    | none => exact unmodified id rest pending
    | some e =>
      dsimp only
      split_ifs
      · exact modified e (mem_of_bestModified best)
      · exact unmodified id rest pending

/-- The modified entries after an update are of entries that had one before, and of descendants of
what was added that were not added themselves. -/
def Updated (pool : CTxMemPool) (alreadyAdded : Finset H256) (l l' : List CTxMemPoolModifiedEntry) :
    Prop :=
  ∀ e ∈ l', (∃ e' ∈ l, e'.iter = e.iter) ∨
    e.iter ∉ alreadyAdded ∧ ∃ it ∈ alreadyAdded, e.iter ∈ pool.calculateDescendants it

def without (env : MinerEnv σ) (pool : CTxMemPool) (it : H256) (nFee : CAmount)
    (e : CTxMemPoolModifiedEntry) : CTxMemPoolModifiedEntry where
  iter := e.iter
  nSizeWithAncestors := e.nSizeWithAncestors - (pool.entry it).getTxSize env.nBytesPerSigOp
  nModFeesWithAncestors := e.nModFeesWithAncestors - nFee
  nSigOpCostWithAncestors := e.nSigOpCostWithAncestors - (pool.entry it).sigOpCost

def scoresOf (id : H256) (l : List CTxMemPoolModifiedEntry) : List CTxMemPoolModifiedEntry :=
  l.filter fun e => e.iter == id

/-- The modified entries of one transaction after an ancestor of it was added. -/
def lose (env : MinerEnv σ) (pool : CTxMemPool) (it id : H256)
    (scores : List CTxMemPoolModifiedEntry) : List CTxMemPoolModifiedEntry :=
  if scores = [] then [env.without pool it (pool.entry it).getModifiedFee (.ofEntry pool id)]
  else scores.map (env.without pool it (pool.entry it).nFee)

theorem mem_scoresOf : e ∈ scoresOf id l ↔ e ∈ l ∧ e.iter = id := by
  simp [scoresOf]

section Updates

variable {alreadyAdded among : Finset H256} {it : H256}

theorem mem_lose {scores : List CTxMemPoolModifiedEntry} (listed : e ∈ env.lose pool it id scores) :
    ∃ nFee before, (before ∈ scores ∨ before = .ofEntry pool id) ∧
      e = env.without pool it nFee before := by
  unfold lose at listed
  split_ifs at listed
  · exact ⟨_, _, .inr rfl, List.mem_singleton.1 listed⟩
  · obtain ⟨before, old, rfl⟩ := List.mem_map.1 listed
    exact ⟨_, before, .inl old, rfl⟩

theorem scoresOf_updateDescendant (it desc : H256) (updated : List CTxMemPoolModifiedEntry × Nat) :
    scoresOf id (env.updateDescendant pool alreadyAdded it updated desc).1 =
      if desc = id ∧ id ∉ alreadyAdded then env.lose pool it id (scoresOf id updated.1)
      else scoresOf id updated.1 := by
  -- a change of the entries of `desc` keeps whose they are
  have mapped (f : CTxMemPoolModifiedEntry → CTxMemPoolModifiedEntry)
      (keeps : ∀ e, (f e).iter = e.iter) :
      scoresOf id (updated.1.map fun e => if e.iter = desc then f e else e) =
        if desc = id then (scoresOf id updated.1).map f else scoresOf id updated.1 := by
    have owner : (fun e : CTxMemPoolModifiedEntry => e.iter == id) ∘
        (fun e => if e.iter = desc then f e else e) = fun e => e.iter == id := by
      funext e
      dsimp only [Function.comp]
      split_ifs <;> simp [keeps]
    rw [scoresOf, List.filter_map, owner, ← scoresOf]
    split_ifs with same
    · exact List.map_congr_left fun e listed => if_pos ((mem_scoresOf.1 listed).2.trans same.symm)
    · refine (List.map_congr_left fun e listed => if_neg ?_).trans (List.map_id _)
      exact fun equal => same (equal.symm.trans (mem_scoresOf.1 listed).2)
  have present : (updated.1.any fun e => e.iter == id) = true ↔ scoresOf id updated.1 ≠ [] := by
    simp [scoresOf]
  have changed := mapped (env.without pool it (pool.entry it).nFee) fun _ => rfl
  unfold updateDescendant
  by_cases same : desc = id
  · subst same
    by_cases isAdded : desc ∈ alreadyAdded
    · simp [isAdded]
    have loses : desc = desc ∧ desc ∉ alreadyAdded := ⟨rfl, isAdded⟩
    rw [if_neg isAdded, if_pos loses, lose]
    by_cases none : scoresOf desc updated.1 = []
    · rw [if_neg (fun some => present.1 some none), if_pos none, scoresOf, List.filter_append,
        ← scoresOf, none]
      simp [without, CTxMemPoolModifiedEntry.ofEntry]
    · rw [if_pos (present.2 none), if_neg none]
      exact changed.trans (if_pos rfl)
  · have stays : ¬(desc = id ∧ id ∉ alreadyAdded) := fun both => same both.1
    rw [if_neg stays]
    split_ifs
    · rfl
    · exact changed.trans (if_neg same)
    · rw [scoresOf, List.filter_append, ← scoresOf]
      simp [CTxMemPoolModifiedEntry.ofEntry, same]

theorem scoresOf_descendants (it : H256) {descendants : List H256} (nodup : descendants.Nodup)
    (updated : List CTxMemPoolModifiedEntry × Nat) :
    scoresOf id (descendants.foldl (env.updateDescendant pool alreadyAdded it) updated).1 =
      if id ∈ descendants ∧ id ∉ alreadyAdded then env.lose pool it id (scoresOf id updated.1)
      else scoresOf id updated.1 := by
  induction descendants generalizing updated with
  | nil => simp
  | cons desc rest ih =>
    rw [List.nodup_cons] at nodup
    rw [List.foldl_cons, ih nodup.2, scoresOf_updateDescendant]
    by_cases same : desc = id
    · subst same
      simp [nodup.1]
    · simp [same, Ne.symm same]

/-- How the modified entries of one transaction change in an update: each ancestor of it that was
added is lost in its turn. -/
theorem updatePackagesForAdded_induction (env : MinerEnv σ) (id : H256)
    {motive : Finset H256 → List CTxMemPoolModifiedEntry → Prop}
    (member : ∀ it ∈ alreadyAdded, it ∈ pool.mapTx) (fresh : ∀ it ∈ alreadyAdded, it ∉ among)
    (lose : ∀ among scores, ∀ it ∈ alreadyAdded, it ∉ among → id ∉ alreadyAdded →
      pool.IsAncestor it id → motive among scores → motive (insert it among) (env.lose pool it id scores))
    (skip : ∀ among scores, ∀ it ∈ alreadyAdded, (id ∉ alreadyAdded → ¬pool.IsAncestor it id) →
      motive among scores → motive (insert it among) scores)
    (start : motive among (scoresOf id l)) :
    motive (among ∪ alreadyAdded) (scoresOf id (env.updatePackagesForAdded pool alreadyAdded l).1) := by
  suffices all : ∀ (its : List H256) (among : Finset H256)
      (updated : List CTxMemPoolModifiedEntry × Nat), its.Nodup → (∀ it ∈ its, it ∈ alreadyAdded) →
      (∀ it ∈ its, it ∉ among) → motive among (scoresOf id updated.1) →
      motive (among ∪ its.toFinset)
        (scoresOf id (its.foldl (fun updated it => (ascending (pool.calculateDescendants it)).foldl
          (env.updateDescendant pool alreadyAdded it) updated) updated).1) by
    have result := all (ascending alreadyAdded) among (l, 0) (nodup_ascending alreadyAdded)
      (fun _ listed => mem_ascending.1 listed) (fun it listed => fresh it (mem_ascending.1 listed)) start
    rwa [Util.Closure.toFinset_ascending] at result
  intro its
  induction its with
  | nil =>
    intro among updated _ _ _ known
    simpa using known
  | cons it rest ih =>
    intro among updated nodup added fresh known
    rw [List.nodup_cons] at nodup
    have isAdded := added it List.mem_cons_self
    rw [List.toFinset_cons, union_insert, ← insert_union]
    refine ih (insert it among) _ nodup.2 (fun x later => added x (List.mem_cons_of_mem it later))
      (fun x later inside => ?_) ?_
    · obtain rfl | old := mem_insert.1 inside
      · exact nodup.1 later
      · exact fresh x (List.mem_cons_of_mem it later) old
    · have below (outside : id ∉ alreadyAdded) :
          id ∈ ascending (pool.calculateDescendants it) ↔ pool.IsAncestor it id := by
        rw [mem_ascending, mem_calculateDescendants (member it isAdded),
          Relation.reflTransGen_iff_eq_or_transGen]
        exact or_iff_right fun equal => outside (equal ▸ isAdded)
      dsimp only
      rw [scoresOf_descendants it (nodup_ascending _)]
      split_ifs with reached
      · exact lose _ _ it isAdded (fresh it List.mem_cons_self) reached.2 ((below reached.2).1 reached.1)
          known
      · exact skip _ _ it isAdded
          (fun outside above => reached ⟨(below outside).2 above, outside⟩) known

theorem updated_updatePackagesForAdded (env : MinerEnv σ)
    (member : ∀ it ∈ alreadyAdded, it ∈ pool.mapTx) (l : List CTxMemPoolModifiedEntry) :
    Updated pool alreadyAdded l (env.updatePackagesForAdded pool alreadyAdded l).1 := by
  intro e listed
  refine updatePackagesForAdded_induction env e.iter (l := l)
    (motive := fun _ scores => scores ≠ [] → (∃ e' ∈ l, e'.iter = e.iter) ∨
      e.iter ∉ alreadyAdded ∧ ∃ it ∈ alreadyAdded, e.iter ∈ pool.calculateDescendants it)
    member (fun _ _ => notMem_empty _) (fun _ _ it added _ outside above _ _ => .inr ⟨outside, it, added, ?_⟩)
    (fun _ _ _ _ _ known => known) (fun some => ?_)
    (List.ne_nil_of_mem (mem_scoresOf.2 ⟨listed, rfl⟩))
  · exact (mem_calculateDescendants (member it added)).2 above.to_reflTransGen
  · obtain ⟨e', old⟩ := List.exists_mem_of_ne_nil _ some
    exact .inl ⟨e', mem_scoresOf.1 old⟩

end Updates

/-- A modified entry has lost what some of its ancestors among others give it. -/
def Discounted (env : MinerEnv σ) (pool : CTxMemPool) (among : Finset H256)
    (e : CTxMemPoolModifiedEntry) : Prop :=
  ∃ lost ⊆ among, (∀ x ∈ lost, pool.IsAncestor x e.iter) ∧
    e.nSizeWithAncestors = (pool.entry e.iter).nSizeWithAncestors -
      ∑ x ∈ lost, (pool.entry x).getTxSize env.nBytesPerSigOp ∧
    e.nSigOpCostWithAncestors = (pool.entry e.iter).nSigOpCostWithAncestors -
      ∑ x ∈ lost, (pool.entry x).sigOpCost

section Discounts

variable {among among' : Finset H256} {e : CTxMemPoolModifiedEntry}

theorem Discounted.mono (discounted : env.Discounted pool among e) (subset : among ⊆ among') :
    env.Discounted pool among' e := by
  obtain ⟨lost, within, rest⟩ := discounted
  exact ⟨lost, within.trans subset, rest⟩

theorem discounted_ofEntry (id : H256) : env.Discounted pool ∅ (.ofEntry pool id) :=
  ⟨∅, Finset.Subset.refl _, by simp, by simp [CTxMemPoolModifiedEntry.ofEntry],
    by simp [CTxMemPoolModifiedEntry.ofEntry]⟩

theorem Discounted.without (discounted : env.Discounted pool among e) {it : H256}
    (fresh : it ∉ among) (above : pool.IsAncestor it e.iter) (nFee : CAmount) :
    env.Discounted pool (insert it among) (env.without pool it nFee e) := by
  obtain ⟨lost, within, ancestors, size, sigOps⟩ := discounted
  have new : it ∉ lost := fun inside => fresh (within inside)
  refine ⟨insert it lost, insert_subset_insert it within, ?_, ?_, ?_⟩
  · intro x inside
    obtain rfl | old := mem_insert.1 inside
    · exact above
    · exact ancestors x old
  · simp only [MinerEnv.without, size, sum_insert new]
    omega
  · simp only [MinerEnv.without, sigOps, sum_insert new]
    omega

/-- After an update the modified entries have lost what was added, where they had lost nothing of
it before. -/
theorem discounted_updatePackagesForAdded {alreadyAdded : Finset H256}
    (member : ∀ id ∈ alreadyAdded, id ∈ pool.mapTx) (fresh : ∀ id ∈ alreadyAdded, id ∉ among)
    {l : List CTxMemPoolModifiedEntry} (known : ∀ e ∈ l, env.Discounted pool among e) :
    ∀ e ∈ (env.updatePackagesForAdded pool alreadyAdded l).1,
      env.Discounted pool (among ∪ alreadyAdded) e := by
  intro e listed
  refine (updatePackagesForAdded_induction env e.iter (l := l)
    (motive := fun among scores => ∀ x ∈ scores, x.iter = e.iter ∧ env.Discounted pool among x)
    member fresh ?_ ?_ ?_ e (mem_scoresOf.2 ⟨listed, rfl⟩)).2
  · intro among scores it _ new _ above lost x inside
    obtain ⟨nFee, before, source, rfl⟩ := mem_lose inside
    have kept : before.iter = e.iter ∧ env.Discounted pool among before := by
      obtain old | rfl := source
      · exact lost before old
      · exact ⟨rfl, (discounted_ofEntry e.iter).mono (empty_subset among)⟩
    exact ⟨kept.1, kept.2.without new (kept.1 ▸ above) nFee⟩
  · intro among scores it _ _ lost x inside
    exact ⟨(lost x inside).1, (lost x inside).2.mono (subset_insert it among)⟩
  · intro x inside
    obtain ⟨old, iter⟩ := mem_scoresOf.1 inside
    exact ⟨iter, known x old⟩

end Discounts

/-! ## A round -/

/-- A block comes from another by a part of a package that passed `TestPackage`, on statistics
without some transactions of the block. -/
structure PackageStep (env : MinerEnv σ) (pool : CTxMemPool) (a a' : BlockAssembler) : Prop where
  chain : env.Extends pool a a'
  tested : ∃ e : CTxMemPoolModifiedEntry, e.iter ∈ pool.mapTx ∧ env.Discounted pool a.inBlock e ∧
    env.testPackage a e.nSizeWithAncestors e.nSigOpCostWithAncestors = true ∧
      a'.inBlock ⊆ a.inBlock ∪ package pool a.inBlock e.iter

/-- A block that is filled, and comes from another by packages. -/
structure Built (env : MinerEnv σ) (pool : CTxMemPool) (start a : BlockAssembler) : Prop where
  filled : env.Filled pool a
  packages : Relation.ReflTransGen (env.PackageStep pool) start a

/-- The state between two rounds: what is to be considered is in the pool, and what was modified is
not in the block and has lost some of what is. -/
structure Proper (env : MinerEnv σ) (pool : CTxMemPool) (start : BlockAssembler) (s : Selecting σ) :
    Prop where
  built : env.Built pool start s.block
  modified_mem : ∀ e ∈ s.mapModifiedTx, e.iter ∈ pool.mapTx
  modified_apart : ∀ e ∈ s.mapModifiedTx, e.iter ∉ s.block.inBlock
  discounted : ∀ e ∈ s.mapModifiedTx, env.Discounted pool s.block.inBlock e
  pending : ∀ id ∈ s.mi, id ∈ pool.mapTx

/-- What a round leaves: fewer entries outside of the block, or fewer to consider. -/
def Advances (s s' : Selecting σ) : Prop :=
  s.block.inBlock ⊂ s'.block.inBlock ∨ s'.block.inBlock = s.block.inBlock ∧
    s'.mapModifiedTx.length + s'.mi.length < s.mapModifiedTx.length + s.mi.length

/-- How a round ends: the loop stops with a block that was built, or goes on in a proper state and
has come nearer to its end. -/
def EndsWell (env : MinerEnv σ) (pool : CTxMemPool) (start : BlockAssembler) (s : Selecting σ) :
    Selection σ → Prop
  | .finished s' => env.Built pool start s'.block
  | .next s' => env.Proper pool start s' ∧ Advances s s'
  | .assertionFailed => False

variable {start : BlockAssembler}

theorem Proper.congr (proper : env.Proper pool start s) (block : s'.block = s.block)
    (modified : s'.mapModifiedTx ⊆ s.mapModifiedTx) (mi : s'.mi ⊆ s.mi) :
    env.Proper pool start s' where
  built := block ▸ proper.built
  modified_mem := fun e listed => proper.modified_mem e (modified listed)
  modified_apart := fun e listed => block ▸ proper.modified_apart e (modified listed)
  discounted := fun e listed => block ▸ proper.discounted e (modified listed)
  pending := fun id listed => proper.pending id (mi listed)

/-- The entry of a package was considered: the next one of the pool, or a modified one. -/
structure Considered (fUsingModified : Bool) (e : CTxMemPoolModifiedEntry) (s₀ s : Selecting σ) :
    Prop where
  block : s.block = s₀.block
  modified : s.mapModifiedTx = s₀.mapModifiedTx
  source : if fUsingModified then s.mi = s₀.mi ∧ e ∈ s.mapModifiedTx else e.iter :: s.mi = s₀.mi

namespace Considered

variable {fUsingModified : Bool} {e : CTxMemPoolModifiedEntry} {s₀ s s' : Selecting σ}

theorem advances (considered : Considered fUsingModified e s₀ s)
    (keep : CTxMemPoolModifiedEntry → Bool) (block : s'.block.inBlock = s.block.inBlock)
    (mi : s'.mi = s.mi)
    (modified : s'.mapModifiedTx.Sublist (s.mapModifiedTx.filter keep))
    (erased : fUsingModified → keep e = false) : Advances s₀ s' := by
  refine .inr ⟨by rw [block, considered.block], ?_⟩
  have source := considered.source
  have fewer := modified.length_le
  rw [mi, ← considered.modified]
  cases fUsingModified with
  | false =>
    have := s.mapModifiedTx.length_filter_le keep
    rw [if_neg Bool.false_ne_true] at source
    rw [← source, List.length_cons]
    omega
  | true =>
    rw [if_pos rfl] at source
    have : (s.mapModifiedTx.filter keep).length < s.mapModifiedTx.length :=
      List.length_filter_lt_length_iff_exists.2 ⟨e, source.2, by simp [erased rfl]⟩
    rw [← source.1]
    omega

end Considered

theorem Proper.fail (proper : env.Proper pool start s) (fUsingModified : Bool) (iter : H256) :
    env.Proper pool start (s.fail fUsingModified iter) := by
  cases fUsingModified with
  | false => exact proper
  | true => exact proper.congr rfl (List.filter_subset_self _) (List.Subset.refl _)

theorem PackageDone.modified_mem (done : env.PackageDone pool sorted wasAdded s s')
    (listed : e ∈ s'.mapModifiedTx) : e ∈ s.mapModifiedTx ∧ e.iter ∉ sorted := by
  simpa using done.modified.mem listed

theorem PackageDone.mem_of_outside (done : env.PackageDone pool sorted wasAdded s s')
    (included : id ∈ s'.block.inBlock) (outside : id ∉ sorted) : id ∈ s.block.inBlock := by
  have := done.only included
  simp only [mem_union, List.mem_toFinset] at this
  exact this.resolve_right outside

theorem Proper.afterPackage (proper : env.Proper pool start s) (member : e.iter ∈ pool.mapTx)
    (discounted : env.Discounted pool s.block.inBlock e)
    (passed : env.testPackage s.block e.nSizeWithAncestors e.nSigOpCostWithAncestors)
    (done : env.PackageDone pool (pool.sortForBlock (package pool s.block.inBlock e.iter))
      wasAdded s s') : env.Proper pool start s' where
  built := {
    filled := proper.built.filled.of_extends done.adds
    packages := proper.built.packages.tail ⟨done.adds, e, member, discounted, passed, by
      have only := done.only
      rwa [toFinset_sortForBlock] at only⟩ }
  modified_mem := fun e listed => proper.modified_mem e (done.modified_mem listed).1
  modified_apart := by
    intro e listed included
    obtain ⟨before, outside⟩ := done.modified_mem listed
    exact proper.modified_apart e before (done.mem_of_outside included outside)
  discounted := fun e listed =>
    (proper.discounted e (done.modified_mem listed).1).mono done.adds.subset
  pending := by
    rw [done.mi]
    exact proper.pending

/-- The state after a package was added as a whole: its descendants are modified, and none of them is
in the block. -/
theorem Proper.update (proper : env.Proper pool start s)
    (member : ∀ id ∈ alreadyAdded, id ∈ pool.mapTx)
    (fresh : ∀ id ∈ alreadyAdded, id ∉ s.block.inBlock)
    (done : env.PackageDone pool (pool.sortForBlock alreadyAdded) true s s')
    (after : env.Proper pool start s') {nPackages nDescendants : Nat} :
    env.Proper pool start { s' with
      mapModifiedTx := (env.updatePackagesForAdded pool alreadyAdded s'.mapModifiedTx).1
      nPackagesSelected := nPackages
      nDescendantsUpdated := nDescendants } where
  built := after.built
  modified_mem := by
    intro e listed
    obtain ⟨e', old, iter⟩ | ⟨_, it, added, below⟩ := updated_updatePackagesForAdded env member _ e listed
    · exact iter ▸ after.modified_mem e' old
    · exact mem_of_mem_calculateDescendants (member it added) below
  modified_apart := by
    intro e listed included
    obtain ⟨e', old, iter⟩ | ⟨outside, it, added, below⟩ :=
      updated_updatePackagesForAdded env member _ e listed
    · exact after.modified_apart e' old (iter ▸ included)
    · -- a descendant that was in the block before would have had its ancestor there
      have earlier := done.mem_of_outside included fun inside => outside (mem_sortForBlock.1 inside)
      obtain equal | above := Relation.reflTransGen_iff_eq_or_transGen.1
        ((mem_calculateDescendants (member it added)).1 below)
      · exact fresh it added (equal ▸ earlier)
      · exact fresh it added (proper.built.filled.ancestor_mem earlier above)
  discounted := by
    intro e listed
    have lost := discounted_updatePackagesForAdded member fresh
      (fun e listed => proper.discounted e (done.modified_mem listed).1) e listed
    refine lost.mono (union_subset done.adds.subset ?_)
    have all := done.all rfl
    rwa [toFinset_sortForBlock] at all
  pending := after.pending

theorem Considered.fail (considered : Considered fUsingModified e s₀ s) :
    Advances s₀ (s.fail fUsingModified e.iter) := by
  cases fUsingModified with
  | false => exact considered.advances (fun _ => true) rfl rfl (by simp [Selecting.fail]) (by simp)
  | true => exact considered.advances (fun x => x.iter != e.iter) rfl rfl (.refl _) (by simp)

section

variable (correct : pool.CountsCorrect)
include correct

section

variable (proper : env.Proper pool start s)
include proper

section

variable (considered : Considered fUsingModified e s₀ s) (member : e.iter ∈ pool.mapTx)
  (fresh : e.iter ∉ s.block.inBlock) (discounted : env.Discounted pool s.block.inBlock e)
include considered member fresh discounted

theorem endsWell_tryPackage
    (passed : env.testPackage s.block e.nSizeWithAncestors e.nSigOpCostWithAncestors) :
    EndsWell env pool start s₀ (env.tryPackage pool fUsingModified e.iter s) := by
  have itself : e.iter ∈ pool.sortForBlock (package pool s.block.inBlock e.iter) :=
    mem_sortForBlock.2 ((mem_package member).2 (.inl rfl))
  have reset : env.Proper pool start { s with nConsecutiveFailed := 0 } :=
    proper.congr rfl (List.Subset.refl _) (List.Subset.refl _)
  obtain ⟨done, _⟩ := packageDone_addPackage (s := { s with nConsecutiveFailed := 0 }) env
    fUsingModified e.iter (ready_sortForBlock correct member fresh)
  have after := reset.afterPackage member discounted passed done
  unfold tryPackage
  rw [← package]
  dsimp only
  split_ifs with nonfinal incomplete
  · exact ⟨proper.fail fUsingModified e.iter, considered.fail⟩
  · refine ⟨after, ?_⟩
    by_cases same : (env.addPackage pool fUsingModified e.iter
        (pool.sortForBlock (package pool s.block.inBlock e.iter)) true
        { s with nConsecutiveFailed := 0 }).2.block.inBlock = s.block.inBlock
    · exact considered.advances _ same done.mi done.modified fun _ => by simpa using itself
    · exact .inl (considered.block ▸ done.adds.subset.ssubset_of_ne (Ne.symm same))
  · rw [Bool.not_eq_true, Bool.not_eq_false'] at incomplete
    rw [incomplete] at done
    refine ⟨reset.update (fun _ listed => (mem_of_mem_package member fresh listed).1)
      (fun _ listed => (mem_of_mem_package member fresh listed).2) done after, .inl ?_⟩
    · refine considered.block ▸ (ssubset_iff_of_subset done.adds.subset).2 ⟨e.iter, ?_, fresh⟩
      exact done.all rfl (List.mem_toFinset.2 itself)

theorem endsWell_considerPackage :
    EndsWell env pool start s₀ (env.considerPackage pool fUsingModified e s) := by
  unfold considerPackage
  rw [if_neg fresh]
  have after := proper.fail fUsingModified e.iter
  dsimp only
  split_ifs with unpaid large
  · exact proper.built
  · exact after.built
  · exact ⟨after.congr rfl (List.Subset.refl _) (List.Subset.refl _), considered.fail⟩
  · exact endsWell_tryPackage correct proper considered member fresh discounted (by simpa using large)

end

theorem endsWell_choosePackage (left : s.mi = [] → s.mapModifiedTx ≠ [])
    (stays : ∀ id rest, s.mi = id :: rest → s.skipMapTxEntry id = false) :
    EndsWell env pool start s (env.choosePackage pool s) := by
  refine choosePackage_cases (fun done none => left done none) (fun e listed => ?_)
    fun id rest pending => ?_
  · exact endsWell_considerPackage correct proper ⟨rfl, rfl, if_pos rfl ▸ ⟨rfl, listed⟩⟩
      (proper.modified_mem e listed) (proper.modified_apart e listed) (proper.discounted e listed)
  · have fresh : id ∉ s.block.inBlock := by
      have := stays id rest pending
      simp only [Selecting.skipMapTxEntry, Bool.or_eq_false_iff, decide_eq_false_iff_not] at this
      exact this.1.2
    have skipped : env.Proper pool start { s with mi := rest } :=
      proper.congr rfl (List.Subset.refl _) (pending ▸ List.subset_cons_self id rest)
    refine endsWell_considerPackage correct skipped ⟨rfl, rfl, ?_⟩
      (proper.pending id (pending ▸ List.mem_cons_self)) fresh
      ((discounted_ofEntry id).mono (empty_subset _))
    rw [if_neg Bool.false_ne_true, pending]
    rfl

theorem endsWell_selectionRound :
    EndsWell env pool start s (env.selectionRound pool s) := by
  unfold selectionRound
  generalize env.pastLimit 0 s.world = clock
  have now : env.Proper pool start { s with world := clock.2 } :=
    proper.congr rfl (List.Subset.refl _) (List.Subset.refl _)
  dsimp only
  split_ifs with nothing late stale
  · exact proper.built
  · exact proper.built
  · obtain ⟨id, first, _⟩ := (Option.any_eq_true _ _).1 stale
    obtain ⟨rest, pending⟩ := List.head?_eq_some_iff.1 first
    refine ⟨proper.congr rfl (List.Subset.refl _) (List.tail_subset _), .inr ⟨rfl, ?_⟩⟩
    simp [pending]
  · refine endsWell_choosePackage correct now (fun done none => nothing ?_) fun id rest pending => ?_
    · have done' : s.mi = [] := done
      have none' : s.mapModifiedTx = [] := none
      simp [done', none']
    · have pending' : s.mi = id :: rest := pending
      simpa [pending'] using stale

end

end

/-! ## The whole loop -/

theorem selectionRounds_finish (correct : pool.CountsCorrect) (proper : env.Proper pool start s) :
    ∃ n, ∀ rounds ≥ n, ∃ s', env.selectionRounds pool rounds s = .finished s' ∧
      env.Built pool start s'.block := by
  -- what is not in the block decreases, or else what is to be considered does
  generalize size : toLex (pool.mapTx.length - s.block.inBlock.card,
    s.mapModifiedTx.length + s.mi.length) = bound
  induction bound using WellFoundedLT.induction generalizing s with
  | _ bound ih =>
    have ends := endsWell_selectionRound correct proper
    cases round : env.selectionRound pool s with
    | finished s' =>
      rw [round] at ends
      refine ⟨1, fun rounds enough => ⟨s', ?_, ends⟩⟩
      obtain ⟨n, rfl⟩ := Nat.exists_eq_add_of_le' enough
      rw [selectionRounds, round]
    | assertionFailed =>
      rw [round] at ends
      exact ends.elim
    | next s' =>
      rw [round] at ends
      obtain ⟨proper', advances⟩ := ends
      have smaller : toLex (pool.mapTx.length - s'.block.inBlock.card,
          s'.mapModifiedTx.length + s'.mi.length) < bound := by
        rw [← size, Prod.Lex.toLex_lt_toLex]
        obtain grown | ⟨same, fewer⟩ := advances
        · have larger := card_lt_card grown
          have bounded := proper'.built.filled.card_le
          exact .inl (by dsimp only; omega)
        · exact .inr ⟨by rw [same], fewer⟩
      obtain ⟨n, finishes⟩ := ih _ smaller proper' rfl
      refine ⟨n + 1, fun rounds enough => ?_⟩
      obtain ⟨m, rfl⟩ := Nat.exists_eq_add_of_le' enough
      obtain ⟨last, finished, built⟩ := finishes (m + n) (by omega)
      refine ⟨last, ?_, built⟩
      rw [← Nat.add_assoc, selectionRounds, round]
      exact finished

theorem filled_newBlock (env : MinerEnv σ) (pool : CTxMemPool) (scriptSig scriptPubKeyIn : CScript) :
    env.Filled pool (env.newBlock scriptSig scriptPubKeyIn) := by
  unfold newBlock
  cases proof : env.fProofOfStake
  all_goals exact ⟨Util.stepwise_nil, by simp, by simp [proofTx, proof], by
    simp [proofTx, proof, transactions]⟩

/-- The state in which the loop of `addPackageTxs` starts. -/
def selecting (env : MinerEnv σ) (pool : CTxMemPool) (scriptSig scriptPubKeyIn : CScript) (world : σ) :
    Selecting σ where
  block := env.newBlock scriptSig scriptPubKeyIn
  world
  mapModifiedTx :=
    (env.updatePackagesForAdded pool (env.newBlock scriptSig scriptPubKeyIn).inBlock []).1
  mi := pool.mapTx

theorem inBlock_newBlock (env : MinerEnv σ) (scriptSig scriptPubKeyIn : CScript) :
    (env.newBlock scriptSig scriptPubKeyIn).inBlock = ∅ := by
  unfold newBlock
  cases env.fProofOfStake <;> rfl

section

variable (env : MinerEnv σ) (pool : CTxMemPool) (scriptSig scriptPubKeyIn : CScript) (world : σ)

theorem mapModifiedTx_selecting :
    (env.selecting pool scriptSig scriptPubKeyIn world).mapModifiedTx = [] := by
  rw [selecting, inBlock_newBlock]
  rfl

theorem proper_selecting : env.Proper pool (env.newBlock scriptSig scriptPubKeyIn)
      (env.selecting pool scriptSig scriptPubKeyIn world) := by
  refine ⟨⟨filled_newBlock env pool scriptSig scriptPubKeyIn, .refl⟩, ?_, ?_, ?_,
    fun _ listed => listed⟩
  all_goals
    intro e listed
    simp [mapModifiedTx_selecting] at listed

end

/-- Whatever contracts fail and whenever the time is up, `addPackageTxs` ends without failing its
assertion. The block has different transactions of the pool, each after all of its ancestors and each
contract right before the value transfers that its execution returned. -/
theorem addPackageTxs_sound (env : MinerEnv σ) (pool : CTxMemPool) (correct : pool.CountsCorrect)
    (scriptSig scriptPubKeyIn : CScript) (world : σ) :
    ∃ n, ∀ rounds ≥ n, ∃ s : Selecting σ,
      env.addPackageTxs pool rounds (env.newBlock scriptSig scriptPubKeyIn) world = .finished s ∧
        (s.block.added.map fun x => (pool.entry x.iter).tx).Nodup ∧
        (∀ before x after, s.block.added = before ++ x :: after →
          x.iter ∈ pool.mapTx ∧
            (∀ ancestor, pool.IsAncestor ancestor x.iter → ancestor ∈ before.map iter) ∧
            ((pool.entry x.iter).tx.hasCreateOrCall = true → env.Executed pool before x) ∧
            ((pool.entry x.iter).tx.hasCreateOrCall = false → x.result.valueTransfers = [])) ∧
        s.block.vtx.drop (env.proofTx + 1) =
          s.block.added.flatMap fun x => (pool.entry x.iter).tx :: x.result.valueTransfers := by
  obtain ⟨n, finishes⟩ :=
    selectionRounds_finish correct (proper_selecting env pool scriptSig scriptPubKeyIn world)
  refine ⟨n, fun rounds enough => ?_⟩
  obtain ⟨s, finished, filled, _⟩ := finishes rounds enough
  refine ⟨s, finished, ?_, fun before x after eq => ?_, filled.vtx⟩
  · have distinct : (s.block.added.map iter).Nodup :=
      filled.placed.nodup_map fun _ _ placed => placed.fresh
    refine List.Nodup.of_map pool.computeHash ?_
    rw [List.map_map]
    have names : s.block.added.map (pool.computeHash ∘ fun x => (pool.entry x.iter).tx) =
        s.block.added.map iter :=
      List.map_congr_left fun x added => by
        obtain ⟨_, _, _, placed⟩ := filled.placed.of_mem added
        exact pool.hash_eq x.iter placed.member
    rw [names]
    exact distinct
  · have placed := filled.placed before x after eq
    exact ⟨placed.member, placed.ancestors, placed.executed, fun plain => by rw [placed.plain plain]⟩

/-- A miner with a clock that ticks each time it is read, until ten. A contract is executed with a
value transfer, but not at an even time. -/
def ticking : MinerEnv Nat where
  params := .main
  nHeight := 7001
  fProofOfStake := true
  header := ⟨4, 0, 0, 1600, 0, 0, 0, 0, ⟨0, 0⟩, []⟩
  limits := updateBlockSizeParams 500000
  nBlockMaxWeight := 2000000
  nSatoshisPerK := 1
  nBytesPerSigOp := 20
  nTimeLimit := 10
  nLockTimeCutoff := 1500
  fIncludeWitness := true
  fDisableContractScratching := false
  minGasPrice := 40
  hardBlockGasLimit := 40000000
  stakerSoftBlockGasLimit := 40000000
  txGasLimit := 40000000
  witnessSize := fun _ => 0
  innerSigOpCost := fun _ => 0
  compareByAncestorFee := fun a b => decide (a.iter < b.iter)
  witnessCommitment := fun _ => none
  testBlockValidity := fun _ => true
  getAdjustedTime := fun time => (time, time + 1)
  extractionArtaxTransactions := fun _ _ _ => some []
  executeContract := fun time _ _ _ =>
    (time, if time % 2 = 0 then none else some { valueTransfers := [{ vout := [⟨5, []⟩] }] })
  roots := fun _ => (0, 0)
  setRoots := fun time _ => time

def parentAndChild : CTxMemPool :=
  .ofEntries (fun tx => tx.nLockTime.toNat)
    { tx := {}, nFee := 0, nTxWeight := 0, sigOpCost := 0, nCountWithAncestors := 1
      nSizeWithAncestors := 0, nModFeesWithAncestors := 0, nSigOpCostWithAncestors := 0 }
    [{ tx := { vin := [⟨⟨1, 0⟩, [], 0xffffffff⟩], vout := [⟨1000, []⟩], nLockTime := 2 }
       nFee := 1000, nTxWeight := 240, sigOpCost := 0, nCountWithAncestors := 2
       nSizeWithAncestors := 120, nModFeesWithAncestors := 2000, nSigOpCostWithAncestors := 0 },
     { tx := { vin := [⟨⟨0, 0⟩, [], 0xffffffff⟩], vout := [⟨2000, [Op.call]⟩], nLockTime := 1 }
       nFee := 1000, nTxWeight := 240, sigOpCost := 0, nCountWithAncestors := 1
       nSizeWithAncestors := 60, nModFeesWithAncestors := 1000, nSigOpCostWithAncestors := 0 }]
    (fun id => id) (by decide) (by decide)

/-- The selection from the two transactions comes to its end. -/
theorem addPackageTxs_sound_ticking :
    parentAndChild.CountsCorrect ∧ ∃ n, ∀ rounds ≥ n, ∃ s : Selecting Nat,
      ticking.addPackageTxs parentAndChild rounds (ticking.newBlock [] []) 0 = .finished s ∧
        (s.block.added.map fun x => (parentAndChild.entry x.iter).tx).Nodup := by
  have correct : parentAndChild.CountsCorrect := by
    unfold CTxMemPool.CountsCorrect
    decide +kernel
  obtain ⟨n, finishes⟩ := addPackageTxs_sound ticking parentAndChild correct [] [] 0
  refine ⟨correct, n, fun rounds enough => ?_⟩
  obtain ⟨s, finished, distinct, _⟩ := finishes rounds enough
  exact ⟨s, finished, distinct⟩

end MinerEnv
end Artax
