import Artax.Chain.BlockTree
import Artax.Store.CoinsDB
import Artax.Util.Overwrite
import Artax.Validation.Disconnected

/-!
# Recovering from an interrupted flush

If the mark of an unfinished move is found, `ReplayBlocks` disconnects the old branch and applies the
new one once more. Applying blocks overwrites, so it does not matter which effects had reached the
database. Undoing does: `DisconnectBlock` asserts that the view is at the block.
-/

namespace Artax

open BlockTree Util.ParentTree CCoinsViewDB List Function Option

/-- The block index with the files of blocks and undo data. A block can be read, and its outputs have
passed `CheckTransaction`. -/
structure BlockStore where
  tree : BlockTree
  computeHash : CTransaction → H256
  readBlockFromDisk : H256 → Option CBlock
  undoFile : H256 → List (List TxInUndo)
  hashStateRoot : H256 → H256
  hashUTXORoot : H256 → H256
  nMoneySupply : H256 → UInt64
  nonnull : tree.index 0 = none
  readable : ∀ b, (tree.index b).isSome = true → b ≠ tree.genesis →
    ∃ block, readBlockFromDisk b = some block
  outputs : ∀ b block, readBlockFromDisk b = some block → ∀ tx ∈ block.vtx, ∀ txout ∈ tx.vout,
    0 ≤ txout.nValue

/-- The inputs and outputs of a transaction in `RollforwardBlock`, which does not ask whether the coins
are there. -/
def CCoinsViewCache.rollforwardTx (computeHash : CTransaction → H256) (nHeight : Nat)
    (inputs : CCoinsViewCache) (tx : CTransaction) : Option CCoinsViewCache :=
  let inputs := if tx.isCoinBase then inputs
    else tx.vin.foldl (fun inputs txin => (inputs.spendCoin txin.prevout).1) inputs
  inputs.addCoins computeHash tx nHeight true

namespace BlockStore

variable (s : BlockStore)

def tipIndex (b : H256) : TipIndex :=
  let p := (s.tree.pprev b).getD 0
  ⟨s.tree.nHeight b, b,
    ⟨s.tree.nHeight p, p, s.hashStateRoot p, s.hashUTXORoot p, s.nMoneySupply p⟩⟩

def rollbackBlock (c : ChainView) (pindexOld : H256) : Except DisconnectStop ChainView :=
  if 0 < s.tree.nHeight pindexOld then
    match s.readBlockFromDisk pindexOld with
    | none => .error .failed
    | some block =>
      (disconnectBlock s.computeHash block (s.tipIndex pindexOld) (s.undoFile pindexOld) c).map Prod.snd
  else .ok c

/-- `RollforwardBlock`. -/
def rollforwardBlock (inputs : CCoinsViewCache) (pindex : H256) :
    Except DisconnectStop CCoinsViewCache :=
  match s.readBlockFromDisk pindex with
  | none => .error .failed
  | some block =>
    match block.vtx.foldlM (CCoinsViewCache.rollforwardTx s.computeHash (s.tree.nHeight pindex)) inputs with
    | none => .error .aborted
    | some inputs => .ok inputs

def rollforwardAt (pindexNew : H256) (cache : CCoinsViewCache) (nHeight : Nat) :
    Except DisconnectStop CCoinsViewCache :=
  match s.tree.getAncestor pindexNew nHeight with
  | none => .error .aborted
  | some pindex => s.rollforwardBlock cache pindex

/-- The fork of the old and the new branch, `none` before the first flush. -/
def replayFork (new old : H256) : Except DisconnectStop (Option H256) :=
  if old = 0 then .ok none
  else if (s.tree.index old).isNone then .error .failed
  else match s.tree.lastCommonAncestor old new with
    | none => .error .aborted
    | some fork => .ok (some fork)

def oldBranch (old : H256) : Option H256 → List H256
  | none => []
  | some fork => (s.tree.links.line old).takeWhile fun b => b ≠ fork

def newHeights (new : H256) (fork : Option H256) : List Nat :=
  let nForkHeight := (fork.map s.tree.nHeight).getD 0
  List.range' (nForkHeight + 1) (s.tree.nHeight new - nForkHeight)

/-- `ReplayBlocks` once the fork is found, with the database it leaves. The contract state is opened
only later, and its roots do not count here. -/
def replayFrom (db : CCoinsViewDB) (new old : H256) (fork : Option H256) :
    Except DisconnectStop CCoinsViewDB := do
  let c ← (s.oldBranch old fork).foldlM s.rollbackBlock ⟨.onBase db.coins db.getBestBlock, 0, 0⟩
  let cache ← (s.newHeights new fork).foldlM (s.rollforwardAt new) c.view
  match (cache.setBestBlock new).flush db with
  | none => .error .aborted
  | some db => .ok db

/-- `ReplayBlocks`. -/
def replayBlocks (db : CCoinsViewDB) : Except DisconnectStop CCoinsViewDB :=
  match db.getHeadBlocks with
  | [] => .ok db
  | [new, old] =>
    if (s.tree.index new).isNone then .error .failed
    else do
      let fork ← s.replayFork new old
      s.replayFrom db new old fork
  | _ => .error .failed

/-! ## The unspent outputs of a tip -/

def connectCoins (coins : CoinsView) (b : H256) : CoinsView :=
  match s.readBlockFromDisk b with
  | none => coins
  | some block =>
    block.vtx.foldl (fun coins tx => (coins.updateCoins s.computeHash tx (s.tree.nHeight b)).1) coins

def connectAt (tip : H256) (coins : CoinsView) (nHeight : Nat) : CoinsView :=
  match s.tree.getAncestor tip nHeight with
  | none => coins
  | some b => s.connectCoins coins b

def utxoAt (tip : H256) : CoinsView :=
  (List.range' 1 (s.tree.nHeight tip)).foldl (s.connectAt tip) fun _ => none

def utxoOf : Option H256 → CoinsView
  | none => fun _ => none
  | some tip => s.utxoAt tip

end BlockStore

namespace CoinsView

open Util (Overwrites)

variable {coins : CoinsView}

theorem overwrites_addCoin (outpoint : COutPoint) (c : Coin) :
    Overwrites fun coins : CoinsView => coins.addCoin outpoint c :=
  .ite _ .id (.update outpoint (some c))

theorem overwrites_addOutputs (txid : H256) (coinOf : CTxOut → Coin) (outs : List (CTxOut × Nat)) :
    Overwrites (addOutputs txid coinOf outs) := by
  induction outs with
  | nil => exact .id
  | cons p rest ih => exact (overwrites_addCoin ⟨txid, UInt32.ofNat p.2⟩ (coinOf p.1)).comp ih

theorem spendInputs_eq (vin : List CTxIn) (coins : CoinsView) :
    (coins.spendInputs vin).1 = vin.foldl (fun coins txin => coins.spendCoin txin.prevout) coins := by
  induction vin generalizing coins with
  | nil => rfl
  | cons txin rest ih => exact ih _

theorem overwrites_updateCoins (computeHash : CTransaction → H256) (tx : CTransaction) (nHeight : Nat) :
    Overwrites fun coins : CoinsView => (coins.updateCoins computeHash tx nHeight).1 := by
  have outputs := overwrites_addOutputs (tx.getHash computeHash) (tx.coinOf nHeight) tx.vout.zipIdx
  have inputs : Overwrites fun coins : CoinsView => (coins.spendInputs tx.vin).1 := by
    simp only [spendInputs_eq]
    exact .foldl (fun txin => .update txin.prevout none) tx.vin
  unfold updateCoins
  split
  · exact outputs
  · exact inputs.comp outputs

end CoinsView

namespace CCoinsViewCache

variable {view : CCoinsViewCache} {coins : CoinsView} {computeHash : CTransaction → H256}
  {nHeight : Nat} {tx : CTransaction}

theorem isSpent_coinOf {txout : CTxOut} (nonneg : 0 ≤ txout.nValue) :
    (tx.coinOf nHeight txout).isSpent = false := by
  simp only [Coin.isSpent, CTransaction.coinOf, beq_eq_false_iff_ne, ne_eq]
  intro spent
  rw [spent] at nonneg
  cases nonneg

theorem Holds.addOutputs {outs : List (CTxOut × Nat)} (holds : view.Holds coins)
    (unspent : coins.Unspent) (nonneg : ∀ p ∈ outs, 0 ≤ p.1.nValue) :
    ∃ view', CCoinsViewCache.addOutputs computeHash tx nHeight true outs view = some view' ∧
      view'.Holds (coins.addOutputs (tx.getHash computeHash) (tx.coinOf nHeight) outs) ∧
      (coins.addOutputs (tx.getHash computeHash) (tx.coinOf nHeight) outs).Unspent := by
  induction outs generalizing view coins with
  | nil => exact ⟨view, rfl, holds, unspent⟩
  | cons p rest ih =>
    obtain ⟨txout, i⟩ := p
    rw [forall_mem_cons] at nonneg
    have new : (tx.coinOf nHeight txout).isSpent = false := isSpent_coinOf nonneg.1
    let outpoint : COutPoint := ⟨tx.getHash computeHash, UInt32.ofNat i⟩
    obtain ⟨middle, added, holds⟩ := (holds.haveCoin outpoint).addCoin new
      (fun missing _ => unspent.free ((haveCoin_eq holds).symm.trans missing))
    obtain ⟨view', ran, after⟩ := ih holds (unspent.addCoin new outpoint) nonneg.2
    refine ⟨view', ?_, after⟩
    change ((view.haveCoin outpoint).1.addCoin outpoint (tx.coinOf nHeight txout)
      (view.haveCoin outpoint).2).bind _ = _
    rw [added]
    exact ran

theorem Holds.spendAll (holds : view.Holds coins) (unspent : coins.Unspent) (vin : List CTxIn) :
    (vin.foldl (fun view txin => (view.spendCoin txin.prevout).1) view).Holds
      (coins.spendInputs vin).1 ∧ (coins.spendInputs vin).1.Unspent := by
  induction vin generalizing view coins with
  | nil => exact ⟨holds, unspent⟩
  | cons txin rest ih => exact ih (holds.spendCoin txin.prevout).1 (unspent.spendCoin txin.prevout)

theorem Holds.rollforwardTx (holds : view.Holds coins) (unspent : coins.Unspent)
    (nonneg : ∀ txout ∈ tx.vout, 0 ≤ txout.nValue) :
    ∃ view', view.rollforwardTx computeHash nHeight tx = some view' ∧
      view'.Holds (coins.updateCoins computeHash tx nHeight).1 ∧
      (coins.updateCoins computeHash tx nHeight).1.Unspent := by
  have outs : ∀ p ∈ tx.vout.zipIdx, 0 ≤ p.1.nValue :=
    fun p mem => nonneg p.1 (fst_mem_of_mem_zipIdx mem)
  unfold CCoinsViewCache.rollforwardTx CoinsView.updateCoins
  split
  · exact holds.addOutputs unspent outs
  · obtain ⟨holds, unspent⟩ := holds.spendAll unspent tx.vin
    exact holds.addOutputs unspent outs

end CCoinsViewCache

namespace BlockStore

open Util (Overwrites)

variable {s : BlockStore} {view : CCoinsViewCache} {coins : CoinsView} {b tip new old : H256}

theorem rollforwardBlock_spec (holds : view.Holds coins) (unspent : coins.Unspent)
    (known : (s.tree.index b).isSome) (above : b ≠ s.tree.genesis) :
    ∃ view', s.rollforwardBlock view b = .ok view' ∧ view'.Holds (s.connectCoins coins b) ∧
      (s.connectCoins coins b).Unspent := by
  obtain ⟨block, read⟩ := s.readable b known above
  have nonneg := s.outputs b block read
  -- over the transactions, with the coins before each of them
  have loop : ∀ {txs : List CTransaction} {view : CCoinsViewCache} {coins : CoinsView},
      (∀ tx ∈ txs, ∀ txout ∈ tx.vout, 0 ≤ txout.nValue) → view.Holds coins → coins.Unspent →
      ∃ view', txs.foldlM (CCoinsViewCache.rollforwardTx s.computeHash (s.tree.nHeight b)) view =
          some view' ∧
        view'.Holds (txs.foldl
          (fun coins tx => (coins.updateCoins s.computeHash tx (s.tree.nHeight b)).1) coins) ∧
        (txs.foldl
          (fun coins tx => (coins.updateCoins s.computeHash tx (s.tree.nHeight b)).1) coins).Unspent := by
    intro txs
    induction txs with
    | nil => exact fun _ holds unspent => ⟨_, rfl, holds, unspent⟩
    | cons tx rest ih =>
      intro view coins nonneg holds unspent
      rw [forall_mem_cons] at nonneg
      obtain ⟨middle, now, holds, unspent⟩ := holds.rollforwardTx unspent nonneg.1
      obtain ⟨view', later, after⟩ := ih nonneg.2 holds unspent
      exact ⟨view', by simpa [now] using later, after⟩
  obtain ⟨view', ran, after⟩ := loop nonneg holds unspent
  refine ⟨view', by simp [rollforwardBlock, read, ran], ?_⟩
  simpa only [connectCoins, read] using after

theorem rollforward_spec (known : (s.tree.index tip).isSome) {heights : List Nat}
    (within : ∀ h ∈ heights, 0 < h ∧ h ≤ s.tree.nHeight tip) (holds : view.Holds coins)
    (unspent : coins.Unspent) :
    ∃ view', heights.foldlM (s.rollforwardAt tip) view = .ok view' ∧
      view'.Holds (heights.foldl (s.connectAt tip) coins) ∧
      (heights.foldl (s.connectAt tip) coins).Unspent := by
  induction heights generalizing view coins with
  | nil => exact ⟨view, rfl, holds, unspent⟩
  | cons h rest ih =>
    rw [forall_mem_cons] at within
    obtain ⟨b, found, anc, height⟩ := s.tree.exists_getAncestor known within.1.2
    have above : b ≠ s.tree.genesis := by
      rintro rfl
      rw [nHeight_genesis] at height
      omega
    obtain ⟨middle, now, holds, unspent⟩ :=
      rollforwardBlock_spec holds unspent (isSome_of_anc anc known) above
    have after : s.connectAt tip coins h = s.connectCoins coins b := by simp [connectAt, found]
    rw [← after] at holds unspent
    obtain ⟨view', later, after⟩ := ih within.2 holds unspent
    refine ⟨view', ?_, after⟩
    simp only [foldlM_cons, Util.bind_eq_ok]
    exact ⟨middle, by simpa [rollforwardAt, found] using now, later⟩

theorem overwrites_connectAt (s : BlockStore) (tip : H256) (nHeight : Nat) :
    Overwrites fun coins => s.connectAt tip coins nHeight := by
  unfold connectAt
  split
  · exact .id
  · unfold connectCoins
    split
    · exact .id
    · exact .foldl (fun tx => CoinsView.overwrites_updateCoins s.computeHash tx _) _

theorem unspent_utxoAt (known : (s.tree.index tip).isSome) : (s.utxoAt tip).Unspent := by
  have within : ∀ h ∈ range' 1 (s.tree.nHeight tip), 0 < h ∧ h ≤ s.tree.nHeight tip := by
    intro h mem
    rw [mem_range'_1] at mem
    omega
  obtain ⟨_, _, _, unspent⟩ := rollforward_spec known within
    (CCoinsViewCache.holds_onBase (fun _ => none) 0) (fun _ _ found => by cases found)
  exact unspent

theorem unspent_utxoOf {tip : Option H256} (known : ∀ b ∈ tip, (s.tree.index b).isSome) :
    (s.utxoOf tip).Unspent := by
  cases tip with
  | none => exact fun _ _ found => by cases found
  | some b => exact unspent_utxoAt (known b rfl)

theorem utxoAt_of_anc {fork : H256} (anc : s.tree.Anc fork tip) :
    (s.newHeights tip (some fork)).foldl (s.connectAt tip) (s.utxoAt fork) = s.utxoAt tip := by
  have le := nHeight_le_of_anc anc
  -- up to the fork both have the same ancestors
  have same : ∀ h ∈ range' 1 (s.tree.nHeight fork), ∀ coins,
      s.connectAt fork coins h = s.connectAt tip coins h := by
    intro h mem coins
    rw [mem_range'_1] at mem
    have ancestors : s.tree.getAncestor fork h = s.tree.getAncestor tip h := by
      ext a
      unfold getAncestor
      rw [ancestorAt_eq_some, ancestorAt_eq_some]
      refine and_congr_left fun height => ⟨fun ancA => ancA.trans anc, fun ancA =>
        ancA.of_height_le anc ?_⟩
      change s.tree.nHeight a = h at height
      change s.tree.nHeight a ≤ s.tree.nHeight fork
      omega
    rw [connectAt, connectAt, ancestors]
  have common : s.utxoAt fork =
      (range' 1 (s.tree.nHeight fork)).foldl (s.connectAt tip) fun _ => none :=
    foldl_ext _ _ _ fun coins h mem => same h mem coins
  have split : range' 1 (s.tree.nHeight tip) = range' 1 (s.tree.nHeight fork) ++
      range' (s.tree.nHeight fork + 1) (s.tree.nHeight tip - s.tree.nHeight fork) := by
    rw [Nat.add_comm (s.tree.nHeight fork) 1, range'_append_1, Nat.add_sub_cancel' le]
  rw [common, utxoAt, split, foldl_append]
  rfl

variable {fork : Option H256} {db : CCoinsViewDB}

/-- Where the blocks from the fork on are applied to a mixture of the unspent outputs of the fork and
of the new tip, those of the new tip are left. -/
theorem rollforward_of_mixture (known : (s.tree.index new).isSome)
    (anc : ∀ b ∈ fork, s.tree.Anc b new) (holds : view.Holds coins)
    (mixture : ∀ outpoint, coins outpoint = s.utxoOf fork outpoint ∨
      coins outpoint = s.utxoAt new outpoint) :
    ∃ view', (s.newHeights new fork).foldlM (s.rollforwardAt new) view = .ok view' ∧
      view'.Holds (s.utxoAt new) := by
  have effect : (s.newHeights new fork).foldl (s.connectAt new) (s.utxoOf fork) = s.utxoAt new := by
    cases fork with
    | none => rfl
    | some f => exact utxoAt_of_anc (anc f rfl)
  have unspent : coins.Unspent := by
    intro outpoint c found
    rcases mixture outpoint with same | same
    · exact unspent_utxoOf (fun b mem => isSome_of_anc (anc b mem) known) outpoint c
        (same ▸ found)
    · exact unspent_utxoAt known outpoint c (same ▸ found)
  have within : ∀ h ∈ s.newHeights new fork, 0 < h ∧ h ≤ s.tree.nHeight new := by
    intro h mem
    rw [newHeights, mem_range'_1] at mem
    omega
  obtain ⟨view', ran, after, _⟩ := rollforward_spec known within holds unspent
  have overwrites := Overwrites.foldl (fun h => overwrites_connectAt s new h) (s.newHeights new fork)
  rw [← effect] at mixture
  have replayed := overwrites.replay mixture
  exact ⟨view', ran, (replayed.trans effect) ▸ after⟩

theorem ne_zero_of_known (known : (s.tree.index b).isSome) : b ≠ 0 := by
  rintro rfl
  rw [s.nonnull] at known
  cases known

theorem replayFork_eq (knownNew : (s.tree.index new).isSome)
    (knownOld : (s.tree.index old).isSome) :
    ∃ fork, s.replayFork new old = .ok (some fork) ∧ s.tree.Anc fork new ∧
      (s.tree.Anc old new → fork = old) := by
  obtain ⟨fork, met, ancOld, ancNew, last⟩ := s.tree.lastCommonAncestor_spec knownOld knownNew
  have isKnown : ¬ (s.tree.index old).isNone := by
    simpa [isNone_iff_eq_none, isSome_iff_ne_none] using knownOld
  refine ⟨fork, ?_, ancNew, fun anc => ancOld.antisymm (last old (.refl old) anc)⟩
  rw [replayFork, if_neg (ne_zero_of_known knownOld), if_neg isKnown, met]

theorem replayBlocks_eq (db : CCoinsViewDB) (known : (s.tree.index new).isSome)
    (heads : db.headBlocks = some [new, old]) :
    s.replayBlocks db = s.replayFork new old >>= s.replayFrom db new old := by
  have isKnown : ¬ (s.tree.index new).isNone := by
    simpa [isNone_iff_eq_none, isSome_iff_ne_none] using known
  rw [replayBlocks, getHeadBlocks, heads]
  exact if_neg isKnown

theorem replayFrom_of_anc (known : (s.tree.index new).isSome)
    (heads : db.headBlocks = some [new, old]) (best : db.bestBlock = none)
    (stays : s.oldBranch old fork = []) (anc : ∀ b ∈ fork, s.tree.Anc b new)
    (mixture : ∀ outpoint, db.coins outpoint = s.utxoOf fork outpoint ∨
      db.coins outpoint = s.utxoAt new outpoint) :
    s.replayFrom db new old fork = .ok ⟨s.utxoAt new, some new, none⟩ := by
  obtain ⟨cache, ran, holds⟩ := rollforward_of_mixture known anc
    (CCoinsViewCache.holds_onBase db.coins db.getBestBlock) mixture
  have tip : db.oldTip new = some old := by
    simp [oldTip, getBestBlock, getHeadBlocks, best, heads]
  have flushed : (cache.setBestBlock new).flush db = some ⟨s.utxoAt new, some new, none⟩ := by
    have back : (cache.setBestBlock new).cacheCoins.writeBack = s.utxoAt new :=
      Util.WriteCache.Holds.writeBack holds
    have atNew : (cache.setBestBlock new).hashBlock = new := rfl
    rw [CCoinsViewCache.flush, back, atNew, if_neg (ne_zero_of_known known), tip]
    rfl
  rw [replayFrom, stays, Util.bind_eq_ok]
  refine ⟨_, rfl, ?_⟩
  rw [Util.bind_eq_ok]
  exact ⟨cache, ran, by rw [flushed]⟩

theorem rollbackBlock_aborts (known : (s.tree.index old).isSome)
    (above : old ≠ s.tree.genesis) (best : db.bestBlock = none) :
    s.rollbackBlock ⟨.onBase db.coins db.getBestBlock, 0, 0⟩ old = .error .aborted := by
  have height : 0 < s.tree.nHeight old := by
    refine Nat.pos_of_ne_zero fun root => above ?_
    exact eq_genesis_of_pprev known
      (parent_of_height_zero (T := s.tree.links) root)
  obtain ⟨block, read⟩ := s.readable old known above
  have elsewhere : (s.tipIndex old).hash ≠
      (CCoinsViewCache.onBase db.coins db.getBestBlock).getBestBlock := by
    rw [getBestBlock, best]
    exact ne_zero_of_known known
  rw [rollbackBlock, if_pos height, read]
  simp only [disconnectBlock, if_pos elsewhere]
  rfl

theorem replayBlocks_of_not_anc (knownNew : (s.tree.index new).isSome)
    (knownOld : (s.tree.index old).isSome) (heads : db.headBlocks = some [new, old])
    (best : db.bestBlock = none) (other : ¬ s.tree.Anc old new) :
    s.replayBlocks db = .error .aborted := by
  obtain ⟨fork, found, anc, _⟩ := replayFork_eq knownNew knownOld
  have differs : old ≠ fork := fun same => other (same ▸ anc)
  have above : old ≠ s.tree.genesis := fun same => other (same ▸ genesis_anc knownNew)
  have first : ∃ rest, s.oldBranch old (some fork) = old :: rest := by
    rw [oldBranch, line_eq, takeWhile_cons_of_pos (by simpa using differs)]
    exact ⟨_, rfl⟩
  obtain ⟨rest, branch⟩ := first
  rw [replayBlocks_eq db knownNew heads, found]
  change s.replayFrom db new old (some fork) = _
  rw [replayFrom, branch, foldlM_cons, rollbackBlock_aborts knownOld above best]
  rfl

/-- `BatchWrite` from the unspent outputs of the old tip to those of the new, stopped after any
number of batches, followed by `ReplayBlocks`: the database is that of the new tip exactly if all
batches were written, nothing had to be, or some were and the old tip is not on another branch. -/
theorem replayBlocks_stopped_iff (s : BlockStore) (full : List DbOp → Bool) {old : Option H256}
    {new : H256} (knownOld : ∀ b ∈ old, (s.tree.index b).isSome = true)
    (knownNew : (s.tree.index new).isSome = true) {mapCoins : CCoinsMap}
    (once : (mapCoins.map Prod.fst).Nodup)
    (turns : mapCoins.foldl applyEntry (s.utxoOf old) = s.utxoAt new) :
    ∃ batches, batchWrite full ⟨s.utxoOf old, old, none⟩ mapCoins new = some batches ∧
      ∀ k, s.replayBlocks (stopped ⟨s.utxoOf old, old, none⟩ batches k) =
          .ok ⟨s.utxoAt new, some new, none⟩ ↔
        batches.length ≤ k ∨ old = some new ∨ (0 < k ∧ ∀ b ∈ old, s.tree.Anc b new) := by
  have tip : oldTip ⟨s.utxoOf old, old, none⟩ new = some (old.getD 0) := by
    cases old with
    | none => rfl
    | some b => exact if_neg (ne_zero_of_known (knownOld b rfl))
  obtain ⟨batches, written⟩ :
      ∃ batches, batchWrite full ⟨s.utxoOf old, old, none⟩ mapCoins new = some batches :=
    exists_batchWrite (ne_zero_of_known knownNew) tip
  refine ⟨batches, written, fun k => ?_⟩
  by_cases all : batches.length ≤ k
  · rw [stopped_of_length_le written all, turns]
    exact iff_of_true rfl (.inl all)
  rcases Nat.eq_zero_or_pos k with rfl | first
  · -- nothing was written
    constructor
    · intro same
      exact .inr (.inl (congrArg bestBlock (Except.ok.inj same)))
    · rintro (absurd | rfl | ⟨absurd, _⟩)
      · exact (all absurd).elim
      · rfl
      · cases absurd
  · obtain ⟨m, stopped⟩ := stopped_of_lt written tip first (Nat.lt_of_not_le all)
    have mixture := foldl_applyEntry_take once m (s.utxoOf old)
    rw [turns] at mixture
    rw [stopped]
    cases old with
    | none =>
      refine iff_of_true ?_ (.inr (.inr ⟨first, by simp⟩))
      rw [replayBlocks_eq _ knownNew rfl]
      have noFork : ∀ b ∈ (none : Option H256), s.tree.Anc b new := by simp
      exact replayFrom_of_anc knownNew rfl rfl rfl noFork mixture
    | some b =>
      by_cases anc : s.tree.Anc b new
      · refine iff_of_true ?_ (.inr (.inr ⟨first, by simpa using anc⟩))
        obtain ⟨fork, found, ancFork, same⟩ := replayFork_eq knownNew (knownOld b rfl)
        obtain rfl := same anc
        have stays : s.oldBranch fork (some fork) = [] := by
          rw [oldBranch, line_eq, takeWhile_cons_of_neg (by simp)]
        rw [replayBlocks_eq _ knownNew rfl, getD_some, found]
        exact replayFrom_of_anc knownNew rfl rfl stays (by simpa using ancFork) mixture
      · rw [replayBlocks_of_not_anc knownNew (knownOld b rfl) rfl rfl anc]
        refine iff_of_false (by simp) ?_
        rintro (absurd | ⟨⟨⟩⟩ | ⟨_, ancestors⟩)
        · exact all absurd
        · exact anc (.refl _)
        · exact anc (ancestors b rfl)

def rewarding (value : CAmount) : CTransaction where
  vin := [⟨⟨0, 0xffffffff⟩, [1, 1], 0⟩]
  vout := [⟨value, CScript.payToPubkeyHash 1⟩]

def forkTree : BlockTree where
  genesis := 1
  index b := if b = 1 then some ⟨none, 0, 1, 0⟩ else if b = 2 ∨ b = 3 then some ⟨some 1, 1, 2, 0⟩ else none
  known := [1, 2, 3]
  mem_known := by
    intro b
    by_cases genesis : b = 1 <;> by_cases child : b = 2 ∨ b = 3 <;> simp [genesis, child]
  root := rfl
  linked := by
    intro b n found
    split at found
    · rename_i genesis
      cases found
      exact genesis ▸ .genesis rfl rfl
    · simp only [ite_none_right_eq_some, some.injEq] at found
      rw [← found.2]
      exact .child rfl rfl rfl (by decide)

def forkStore : BlockStore where
  tree := forkTree
  computeHash := ConnectEnv.undoSample.computeHash
  readBlockFromDisk b :=
    if b = 2 then some (ConnectEnv.undoSample.blockOf [rewarding 10])
    else if b = 3 then some (ConnectEnv.undoSample.blockOf [rewarding 20]) else none
  undoFile _ := []
  hashStateRoot _ := 0
  hashUTXORoot _ := 0
  nMoneySupply _ := 0
  nonnull := rfl
  readable := by
    intro b known above
    have child : b = 2 ∨ b = 3 := by
      by_contra other
      simp [forkTree, other] at known above
      exact above known
    rcases child with rfl | rfl
    · exact ⟨_, rfl⟩
    · exact ⟨_, rfl⟩
  outputs := by
    intro b block read
    split at read
    · cases read
      decide
    · split at read
      · cases read
        decide
      · cases read

def rewardCoin (value : CAmount) : Coin := ⟨⟨value, CScript.payToPubkeyHash 1⟩, true, false, 1⟩

theorem utxoAt_two : forkStore.utxoAt 2 = update (fun _ => none) ⟨10, 0⟩ (some (rewardCoin 10)) :=
  rfl

theorem utxoAt_three : forkStore.utxoAt 3 = update (fun _ => none) ⟨20, 0⟩ (some (rewardCoin 20)) :=
  rfl

def rewardEntries : CCoinsMap := [(⟨20, 0⟩, ⟨some (rewardCoin 20), true, true⟩)]

/-- A flush of these, stopped before its last batch, is finished by `ReplayBlocks`. -/
theorem replayBlocks_from_genesis :
    ∃ batches, batchWrite (fun _ => true) ⟨forkStore.utxoOf (some 1), some 1, none⟩
        rewardEntries 3 = some batches ∧ 1 < batches.length ∧
      forkStore.replayBlocks
          (stopped ⟨forkStore.utxoOf (some 1), some 1, none⟩ batches 1) =
        .ok ⟨forkStore.utxoAt 3, some 3, none⟩ := by
  have known : ∀ b ∈ some 1, (forkStore.tree.index b).isSome := by
    rintro b ⟨⟩
    rfl
  have turns : rewardEntries.foldl applyEntry (forkStore.utxoOf (some 1)) =
      forkStore.utxoAt 3 := rfl
  obtain ⟨batches, written, finished⟩ :=
    forkStore.replayBlocks_stopped_iff (fun _ => true) known rfl (by decide) turns
  have several : 1 < batches.length := by
    cases written
    decide
  exact ⟨batches, written, several, (finished 1).2 (.inr (.inr ⟨Nat.one_pos, by decide⟩))⟩

def forkEntries : CCoinsMap :=
  [(⟨10, 0⟩, ⟨none, true, false⟩), (⟨20, 0⟩, ⟨some (rewardCoin 20), true, true⟩)]

/-- A flush from one of the two blocks to the other, stopped before its last batch, trips the assertion
of `DisconnectBlock`. -/
theorem replayBlocks_other_branch :
    (forkEntries.map Prod.fst).Nodup ∧
      forkEntries.foldl applyEntry (forkStore.utxoAt 2) = forkStore.utxoAt 3 ∧
      ∃ batches, batchWrite (fun batch => decide (2 < batch.length))
          ⟨forkStore.utxoAt 2, some 2, none⟩ forkEntries 3 = some batches ∧ batches.length = 2 ∧
        forkStore.replayBlocks (stopped ⟨forkStore.utxoAt 2, some 2, none⟩ batches 1) =
          .error .aborted := by
  refine ⟨by decide, ?_, _, rfl, rfl, rfl⟩
  have written : forkEntries.foldl applyEntry (forkStore.utxoAt 2) = update
      (update (forkStore.utxoAt 2) ⟨10, 0⟩ none) ⟨20, 0⟩ (some (rewardCoin 20)) := rfl
  rw [written, utxoAt_two, utxoAt_three, update_idem, update_eq_self_iff.2 rfl]

end BlockStore
end Artax
