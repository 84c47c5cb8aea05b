import Artax.Validation.DisconnectBlock

/-!
# Disconnecting undoes connecting

The coins after a block, the undo data written for it and the block itself give back the coins
before. From the last transaction to the first, each leaves its outputs to be found as they are, and
a record for each coin it has spent.
-/

namespace Artax

open Util ConnectEnv CTransaction Function List UInt32 CoinsView

/-- A coin as the blocks up to a height leave it. -/
structure Coin.Stored (nHeight : Nat) (c : Coin) : Prop where
  unspent : c.isSpent = false
  spendable : c.out.scriptPubKey.isUnspendable = false
  positive : 0 < c.nHeight
  bounded : c.nHeight ≤ nHeight

namespace CoinsView

variable {coins : CoinsView} {nHeight : Nat} {txid : H256} {coinOf : CTxOut → Coin}
  {outs : List (CTxOut × Nat)} {outpoint : COutPoint}

/-- The unspent outputs at a height: every coin is one that a block has left. -/
def At (coins : CoinsView) (nHeight : Nat) : Prop := ∀ outpoint c, coins outpoint = some c → c.Stored nHeight

section

variable (set : coins.At nHeight)
include set

theorem At.mono {later : Nat} (le : nHeight ≤ later) : coins.At later :=
  fun outpoint c found =>
    let stored := set outpoint c found
    ⟨stored.unspent, stored.spendable, stored.positive, stored.bounded.trans le⟩

theorem At.spendCoin (outpoint : COutPoint) :
    (coins.spendCoin outpoint).At nHeight := by
  intro other c found
  by_cases same : other = outpoint
  · rw [same, CoinsView.spendCoin, update_self] at found
    cases found
  · rw [CoinsView.spendCoin, update_of_ne same] at found
    exact set other c found

theorem At.addCoin {c : Coin} (stored : c.out.scriptPubKey.isUnspendable = false → c.Stored nHeight)
    (outpoint : COutPoint) :
    (coins.addCoin outpoint c).At nHeight := by
  intro other found isFound
  unfold CoinsView.addCoin at isFound
  split at isFound
  · exact set other found isFound
  · rename_i spendable
    by_cases same : other = outpoint
    · rw [same, update_self] at isFound
      cases isFound
      exact stored (Bool.eq_false_iff.2 spendable)
    · rw [update_of_ne same] at isFound
      exact set other found isFound

theorem At.spendInputs (vin : List CTxIn) :
    (coins.spendInputs vin).1.At nHeight := by
  induction vin generalizing coins with
  | nil => exact set
  | cons txin rest ih => exact ih (set.spendCoin txin.prevout)

theorem At.addOutputs
    (stored : ∀ p ∈ outs, p.1.scriptPubKey.isUnspendable = false → (coinOf p.1).Stored nHeight)
    (same : ∀ txout, (coinOf txout).out = txout) :
    (coins.addOutputs txid coinOf outs).At nHeight := by
  induction outs generalizing coins with
  | nil => exact set
  | cons p rest ih =>
    rw [forall_mem_cons] at stored
    refine ih (set.addCoin (fun spendable => stored.1 ?_) _) stored.2
    rwa [same] at spendable

end

theorem addCoin_of_spendable {c : Coin} (spendable : c.out.scriptPubKey.isUnspendable = false) :
    coins.addCoin outpoint c = update coins outpoint (some c) := by
  rw [addCoin, spendable, if_neg Bool.false_ne_true]

def outpoints (txid : H256) (outs : List (CTxOut × Nat)) : List COutPoint :=
  outs.map fun p => ⟨txid, UInt32.ofNat p.2⟩

theorem update_addOutputs (other : outpoint ∉ outpoints txid outs) (x : Option Coin) :
    update (addOutputs txid coinOf outs coins) outpoint x =
      addOutputs txid coinOf outs (update coins outpoint x) := by
  induction outs generalizing coins with
  | nil => rfl
  | cons p rest ih =>
    rw [outpoints, map_cons, mem_cons, not_or] at other
    rw [addOutputs, addOutputs, ih other.2]
    congr 1
    unfold addCoin
    split
    · rfl
    · exact update_comm (Ne.symm other.1) _ _ _

theorem addOutputs_of_notMem (other : outpoint ∉ outpoints txid outs) :
    addOutputs txid coinOf outs coins outpoint = coins outpoint := by
  have unchanged : update (addOutputs txid coinOf outs coins) outpoint (coins outpoint) = _ :=
    update_addOutputs other _
  rw [update_eq_self] at unchanged
  rw [← unchanged, update_self]

end CoinsView

namespace CCoinsViewCache

variable {view : CCoinsViewCache} {coins : CoinsView} {nHeight : Nat}
  {computeHash : CTransaction → H256} {tx : CTransaction}

/-- The outputs that a transaction has added are found as they are, and spending them leaves the
coins there were before. -/
theorem Holds.spendOutputs {outs : List (CTxOut × Nat)}
    (holds : view.Holds
      (coins.addOutputs (tx.getHash computeHash) (tx.coinOf nHeight) outs))
    (free : coins.Free (tx.getHash computeHash) outs)
    (distinct : (CoinsView.outpoints (tx.getHash computeHash) outs).Nodup)
    (height : nHeight < 2 ^ 30) :
    ∃ view', spendOutputs computeHash nHeight tx outs (view, true) = (view', true) ∧
      view'.Holds coins := by
  induction outs generalizing view coins with
  | nil => exact ⟨view, rfl, holds⟩
  | cons p rest ih =>
    obtain ⟨txout, o⟩ := p
    rw [CoinsView.Free, forall_mem_cons] at free
    rw [CoinsView.outpoints, map_cons, nodup_cons] at distinct
    rw [CCoinsViewCache.spendOutputs]
    cases unspendable : txout.scriptPubKey.isUnspendable with
    | true =>
      rw [if_pos rfl]
      refine ih ?_ free.2 distinct.2
      simpa [CoinsView.addOutputs, CoinsView.addCoin, coinOf, unspendable] using holds
    | false =>
      rw [if_neg Bool.false_ne_true]
      have isFree := free.1 unspendable
      rw [CoinsView.addOutputs, CoinsView.addCoin_of_spendable unspendable] at holds
      obtain ⟨after, moved⟩ := holds.spendCoin ⟨tx.getHash computeHash, ofNat o⟩
      have found := moved (tx.coinOf nHeight txout)
        (by rw [CoinsView.addOutputs_of_notMem distinct.1, update_self])
      have clean : isOutput nHeight tx txout (some (tx.coinOf nHeight txout)) := by
        simp [isOutput, coinOf]
        omega
      rw [CoinsView.spendCoin, CoinsView.update_addOutputs distinct.1, update_idem,
        ← isFree, update_eq_self] at after
      obtain ⟨view', ran, after⟩ := ih after free.2 distinct.2
      refine ⟨view', ?_, after⟩
      change spendOutputs computeHash nHeight tx rest
        ((view.spendCoin _).1, true && isOutput nHeight tx txout (view.spendCoin _).2) = _
      rw [found, clean]
      exact ran

theorem Holds.restoreInput {c : Coin} {txin : CTxIn}
    (holds : view.Holds (coins.spendCoin txin.prevout)) (found : coins txin.prevout = some c)
    (stored : c.Stored nHeight) :
    ∃ view', restoreInput (view, true) (txin, c) = .ok (view', true) ∧ view'.Holds coins := by
  have gone : coins.spendCoin txin.prevout txin.prevout = none := update_self ..
  have missing : (view.haveCoin txin.prevout).2 = false := by
    rw [haveCoin_eq holds, CoinsView.accessCoin, gone]
    rfl
  obtain ⟨view', added, after⟩ := (holds.haveCoin txin.prevout).addCoin stored.unspent
    (fun (_ : false = false) _ => gone)
  have complete : (view.haveCoin txin.prevout).1.completeUndo txin.prevout.hash c = .ok c :=
    if_neg (Nat.pos_iff_ne_zero.1 stored.positive)
  have same : (coins.spendCoin txin.prevout).addCoin txin.prevout c = coins := by
    rw [CoinsView.addCoin_of_spendable stored.spendable, CoinsView.spendCoin, update_idem,
      ← found, update_eq_self]
  refine ⟨view', ?_, same ▸ after⟩
  simp [CCoinsViewCache.restoreInput, applyTxInUndo, missing, complete, added]

theorem Holds.restoreInputs {vin : List CTxIn} (holds : view.Holds (coins.spendInputs vin).1)
    (there : ∀ txin ∈ vin, ∃ c, coins txin.prevout = some c)
    (once : (vin.map CTxIn.prevout).Nodup) (set : coins.At nHeight) :
    ∃ view', (vin.zip (coins.spendInputs vin).2).reverse.foldlM CCoinsViewCache.restoreInput
        (view, true) = .ok (view', true) ∧ view'.Holds coins := by
  induction vin generalizing coins with
  | nil => exact ⟨view, rfl, holds⟩
  | cons txin rest ih =>
    rw [forall_mem_cons] at there
    rw [map_cons, nodup_cons] at once
    obtain ⟨⟨c, found⟩, there⟩ := there
    obtain ⟨middle, ran, holds⟩ := ih holds (fun other mem => by
      have differs : other.prevout ≠ txin.prevout := fun same =>
        once.1 (same ▸ mem_map_of_mem mem)
      obtain ⟨c, found⟩ := there other mem
      exact ⟨c, by rw [CoinsView.spendCoin, update_of_ne differs, found]⟩) once.2
      (set.spendCoin txin.prevout)
    obtain ⟨view', restored, after⟩ := holds.restoreInput found (set _ _ found)
    refine ⟨view', ?_, after⟩
    simp only [CoinsView.spendInputs, zip_cons_cons, reverse_cons, foldlM_append,
      ran, CoinsView.accessCoin, found, Option.getD_some]
    simpa using restored

end CCoinsViewCache

/-- What `CheckTransaction` leaves to be used of the shape of a transaction. -/
structure CTransaction.Shaped (tx : CTransaction) : Prop where
  once : (tx.vin.map CTxIn.prevout).Nodup
  nonneg : ∀ txout ∈ tx.vout, 0 ≤ txout.nValue
  fewInputs : tx.vin.length ≤ maxInputsPerBlock
  fewOutputs : tx.vout.length ≤ 2 ^ 32

namespace CTransaction

theorem length_le_baseSize (tx : CTransaction) :
    41 * tx.vin.length ≤ tx.baseSize ∧ 9 * tx.vout.length ≤ tx.baseSize := by
  have compact (n : Nat) : 1 ≤ compactSizeLength n := by
    unfold compactSizeLength
    split_ifs <;> omega
  have inputs := card_nsmul_le_sum (tx.vin.map fun txin =>
    36 + compactSizeLength txin.scriptSig.length + txin.scriptSig.length + 4) 41 (by
      simp only [mem_map, forall_exists_index, and_imp, forall_apply_eq_imp_iff₂]
      intro txin _
      have := compact txin.scriptSig.length
      omega)
  have outputs := card_nsmul_le_sum (tx.vout.map fun txout =>
    8 + compactSizeLength txout.scriptPubKey.length + txout.scriptPubKey.length) 9 (by
      simp only [mem_map, forall_exists_index, and_imp, forall_apply_eq_imp_iff₂]
      intro txout _
      have := compact txout.scriptPubKey.length
      omega)
  simp only [length_map, nsmul_eq_mul, Nat.cast_id] at inputs outputs
  unfold baseSize
  omega

theorem shaped_of_checkTransaction {weight : Nat} {tx : CTransaction}
    (passed : checkTransaction weight true tx = .ok ()) : tx.Shaped := by
  have outputs := outputsChecked_of_checkTransaction passed
  simp only [checkTransaction, bind_eq_ok, require_eq_ok, Bool.and_eq_true,
    decide_eq_true_eq, Bool.not_true, Bool.false_or] at passed
  obtain ⟨_, _, _, _, _, ⟨size, _⟩, _, _, _, once, _⟩ := passed
  obtain ⟨inputs, outs⟩ := tx.length_le_baseSize
  simp only [maxTransactionBaseSize] at size
  refine ⟨once, outputs.nonneg, ?_, ?_⟩
  · have limit : maxInputsPerBlock = 48780 := rfl
    omega
  · omega

end CTransaction

namespace CCoinsViewCache

variable {tx : CTransaction}

theorem nodup_outpoints (few : tx.vout.length ≤ 2 ^ 32) (txid : H256) :
    (outpoints txid tx.vout.zipIdx).Nodup := by
  have indices : outpoints txid tx.vout.zipIdx =
      (range tx.vout.length).map fun i => ⟨txid, ofNat i⟩ := by
    rw [outpoints, range_eq_range', ← zipIdx_map_snd, map_map]
    rfl
  rw [indices]
  refine List.Nodup.map_on (fun i mem j mem' same => ?_) nodup_range
  rw [mem_range] at mem mem'
  have numbers := congrArg toNat (COutPoint.mk.inj same).2
  rw [toNat_ofNat_of_lt' (by simp [size]; omega),
    toNat_ofNat_of_lt' (by simp [size]; omega)] at numbers
  exact numbers

end CCoinsViewCache

namespace CoinsView

variable {coins after : CoinsView} {nHeight : Nat} {computeHash : CTransaction → H256}
  {tx : CTransaction} {txs : List CTransaction} {undos : List (List Coin)}

/-- Coins to which a transaction can be connected: its inputs are there, and its outputs replace
nothing. -/
structure Takes (computeHash : CTransaction → H256) (coins : CoinsView) (tx : CTransaction) :
    Prop where
  shaped : tx.Shaped
  there : tx.isCoinBase = false → ∀ txin ∈ tx.vin, ∃ c, coins txin.prevout = some c
  free : (if tx.isCoinBase then coins else (coins.spendInputs tx.vin).1).Free
    (tx.getHash computeHash) tx.vout.zipIdx

/-- Transactions that were connected one after the other, with their undo records. -/
inductive Connects (computeHash : CTransaction → H256) (nHeight : Nat) :
    CoinsView → List CTransaction → List (List Coin) → CoinsView → Prop
  | nil (coins : CoinsView) : Connects computeHash nHeight coins [] [] coins
  | cons {coins after : CoinsView} {tx : CTransaction} {rest : List CTransaction}
      {undos : List (List Coin)} (takes : coins.Takes computeHash tx)
      (later : Connects computeHash nHeight (coins.updateCoins computeHash tx nHeight).1 rest undos
        after) :
      Connects computeHash nHeight coins (tx :: rest)
        ((coins.updateCoins computeHash tx nHeight).2 :: undos) after

theorem At.updateCoins (set : coins.At nHeight) (shaped : tx.Shaped) (positive : 0 < nHeight)
    (height : nHeight < 2 ^ 30) : (coins.updateCoins computeHash tx nHeight).1.At nHeight := by
  have outputs : ∀ p ∈ tx.vout.zipIdx, p.1.scriptPubKey.isUnspendable = false →
      (tx.coinOf nHeight p.1).Stored nHeight := by
    intro p mem spendable
    have nonneg := shaped.nonneg p.1 (fst_mem_of_mem_zipIdx mem)
    have stays : (tx.coinOf nHeight p.1).nHeight = nHeight := Nat.mod_eq_of_lt height
    refine ⟨?_, spendable, stays.symm ▸ positive, stays.le⟩
    simp only [Coin.isSpent, coinOf, beq_eq_false_iff_ne, ne_eq]
    intro spent
    rw [spent] at nonneg
    cases nonneg
  unfold CoinsView.updateCoins
  split
  · exact set.addOutputs outputs fun _ => rfl
  · exact (set.spendInputs tx.vin).addOutputs outputs fun _ => rfl

theorem length_spendInputs (coins : CoinsView) (vin : List CTxIn) :
    (coins.spendInputs vin).2.length = vin.length := by
  induction vin generalizing coins with
  | nil => rfl
  | cons txin rest ih => simp [spendInputs, ih]

theorem At.height_spendInputs (set : coins.At nHeight) (vin : List CTxIn) :
    ∀ c ∈ (coins.spendInputs vin).2, c.nHeight ≤ nHeight := by
  induction vin generalizing coins with
  | nil => simp [CoinsView.spendInputs]
  | cons txin rest ih =>
    simp only [CoinsView.spendInputs, forall_mem_cons]
    refine ⟨?_, ih (set.spendCoin txin.prevout)⟩
    unfold accessCoin
    cases found : coins txin.prevout with
    | none => exact Nat.zero_le _
    | some c => exact (set _ c found).bounded

theorem Connects.length_eq (connects : Connects computeHash nHeight coins txs undos after) :
    undos.length = txs.length := by
  induction connects with
  | nil => rfl
  | cons _ _ ih => simp [ih]

theorem Connects.undo_bounded (connects : Connects computeHash nHeight coins txs undos after)
    (set : coins.At nHeight) (positive : 0 < nHeight) (height : nHeight < 2 ^ 30) :
    ∀ undo ∈ undos, undo.length ≤ maxInputsPerBlock ∧ ∀ c ∈ undo, c.nHeight < 2 ^ 30 := by
  induction connects with
  | nil => simp
  | @cons coins _ tx _ _ takes _ ih =>
    rw [forall_mem_cons]
    refine ⟨?_, ih (set.updateCoins takes.shaped positive height)⟩
    unfold updateCoins
    split
    · simp
    · refine ⟨by simpa [length_spendInputs] using takes.shaped.fewInputs, fun c mem => ?_⟩
      exact (set.height_spendInputs tx.vin c mem).trans_lt height

end CoinsView

namespace CCoinsViewCache

variable {view : CCoinsViewCache} {coins after : CoinsView} {nHeight : Nat}
  {computeHash : CTransaction → H256} {tx : CTransaction} {txs : List CTransaction}
  {undos : List (List Coin)}

theorem Holds.disconnectTx (holds : view.Holds (coins.updateCoins computeHash tx nHeight).1)
    (takes : coins.Takes computeHash tx) (set : coins.At nHeight) (height : nHeight < 2 ^ 30) :
    ∃ view', disconnectTx computeHash nHeight (view, true)
        (tx, if tx.isCoinBase then none else some (coins.updateCoins computeHash tx nHeight).2) =
        .ok (view', true) ∧ view'.Holds coins := by
  have distinct := nodup_outpoints takes.shaped.fewOutputs (tx.getHash computeHash)
  have free := takes.free
  unfold CoinsView.updateCoins at holds ⊢
  unfold CCoinsViewCache.disconnectTx
  cases coinbase : tx.isCoinBase with
  | true =>
    rw [coinbase, if_pos rfl] at holds free
    obtain ⟨view', ran, after⟩ := holds.spendOutputs free distinct height
    exact ⟨view', by simp [ran], after⟩
  | false =>
    rw [coinbase, if_neg Bool.false_ne_true] at holds free
    obtain ⟨middle, spent, holds⟩ := holds.spendOutputs free distinct height
    obtain ⟨view', restored, after⟩ := holds.restoreInputs (takes.there coinbase) takes.shaped.once set
    exact ⟨view', by simpa [spent, CoinsView.length_spendInputs] using restored, after⟩

theorem Holds.disconnectTxs (connects : CoinsView.Connects computeHash nHeight coins txs undos after)
    (plain : ∀ tx ∈ txs, tx.isCoinBase = false) (holds : view.Holds after) (set : coins.At nHeight)
    (positive : 0 < nHeight) (height : nHeight < 2 ^ 30) :
    ∃ view', (txs.zip (undos.map some)).reverse.foldlM
        (CCoinsViewCache.disconnectTx computeHash nHeight) (view, true) = .ok (view', true) ∧
      view'.Holds coins := by
  induction connects with
  | nil => exact ⟨view, rfl, holds⟩
  | @cons coins _ tx _ _ takes _ ih =>
    rw [forall_mem_cons] at plain
    obtain ⟨middle, later, holds⟩ :=
      ih plain.2 holds (set.updateCoins takes.shaped positive height)
    obtain ⟨view', undone, after⟩ := holds.disconnectTx takes set height
    refine ⟨view', ?_, after⟩
    rw [plain.1, if_neg Bool.false_ne_true] at undone
    simp only [map_cons, zip_cons_cons, reverse_cons, foldlM_append, later]
    simpa using undone

end CCoinsViewCache

namespace ConnectEnv

variable {env : ConnectEnv} {r : Round} {s s' : Connecting} {tx : CTransaction}
  {txs : List CTransaction} {view view' : CCoinsViewCache} {before : CoinsView}

theorem there_of_checkTxInputs {coins : CoinsView} {nSpendHeight : Nat} {txfee : CAmount}
    (passed : tx.checkTxInputs coins nSpendHeight = .ok txfee) (plain : tx.isCoinBase = false) :
    ∀ txin ∈ tx.vin, ∃ c, coins txin.prevout = some c := by
  simp only [checkTxInputs, bind_eq_ok, require_eq_ok] at passed
  obtain ⟨_, have_, _⟩ := passed
  intro txin mem
  simp only [haveInputs, plain, Bool.false_or, all_eq_true] at have_
  have found := have_ txin mem
  simp only [haveCoin, Option.any_eq_true] at found
  obtain ⟨c, found, _⟩ := found
  exact ⟨c, found⟩

theorem takes_of_connectTx {undo : List Coin} (passed : env.connectTx r s tx = .ok s')
    (ran : view.updateCoins env.computeHash tx r.nHeight = some (view', undo))
    (within : view.Within before s.view) (shaped : tx.Shaped)
    (fresh : before.Free (tx.getHash env.computeHash) tx.vout.zipIdx)
    (first : tx.isCoinBase → s.view = before) :
    s.view.Takes env.computeHash tx ∧ view'.Within before s'.view ∧
      undo = (s.view.updateCoins env.computeHash tx r.nHeight).2 ∧
      s'.vtxundo = s.vtxundo ++ [undo] := by
  have connected := txConnected_of_connectTx passed
  have there : tx.isCoinBase = false → ∀ txin ∈ tx.vin, ∃ c, s.view txin.prevout = some c :=
    fun plain =>
      let ⟨_, inputs⟩ := connected.inputs plain
      there_of_checkTxInputs inputs plain
  obtain ⟨after, rfl, free⟩ := within.updateCoins ran there shaped.once fresh
  refine ⟨⟨shaped, there, ?_⟩, connected.view ▸ after, rfl, connected.undo⟩
  cases coinbase : tx.isCoinBase with
  | true => exact first coinbase ▸ fresh
  | false => exact free coinbase

theorem connects_of_loop {undos : List (List Coin)}
    (loop : txs.foldlM (env.connectTx r) s = .ok s')
    (ran : view.connectCoins env.computeHash r.nHeight txs = some (view', undos))
    (within : view.Within before s.view) (shaped : ∀ tx ∈ txs, tx.Shaped)
    (fresh : ∀ tx ∈ txs, before.Free (tx.getHash env.computeHash) tx.vout.zipIdx)
    (first : ∀ tx ∈ txs.head?, tx.isCoinBase → s.view = before)
    (plain : ∀ tx ∈ txs.tail, tx.isCoinBase = false) :
    CoinsView.Connects env.computeHash r.nHeight s.view txs undos s'.view ∧
      view'.Within before s'.view ∧ s'.vtxundo = s.vtxundo ++ undos := by
  induction txs generalizing s view undos with
  | nil =>
    cases loop
    cases ran
    exact ⟨.nil _, within, by simp⟩
  | cons tx rest ih =>
    rw [forall_mem_cons] at shaped fresh
    simp only [foldlM_cons, bind_eq_ok] at loop
    simp only [CCoinsViewCache.connectCoins, Option.bind_eq_bind, Option.bind_eq_some_iff,
      Prod.exists, Option.some.injEq, Prod.mk.injEq] at ran
    obtain ⟨middle, passed, loop⟩ := loop
    obtain ⟨_, undo, updated, _, later, ran, rfl, rfl⟩ := ran
    -- a coinbase may overwrite, but it is connected to the coins before the block
    obtain ⟨takes, within, rfl, record⟩ := takes_of_connectTx passed updated within shaped.1 fresh.1
      (first tx rfl)
    obtain ⟨connects, within, records⟩ := ih loop ran within shaped.2 fresh.2
      (fun tx mem coinbase => by rw [plain tx (mem_of_mem_head? mem)] at coinbase; cases coinbase)
      fun tx mem => plain tx (mem_of_mem_tail mem)
    rw [(txConnected_of_connectTx passed).view] at connects
    exact ⟨.cons takes connects, within, by rw [records, record, append_assoc]; rfl⟩

end ConnectEnv

variable {env : ConnectEnv} {chain : ActiveChain} {prev : PrevIndex} {coins : CoinsView}
  {state : ArtaxState} {block : CBlock} {s : Connecting} {cache after : CCoinsViewCache}
  {undos : List (List Coin)}

theorem connects_of_connectBlock (honest : env.HonestMark block)
    (accepted : env.connectBlock chain prev coins state block = .ok (some s))
    (fresh : ∀ tx ∈ block.vtx, coins.Free (tx.getHash env.computeHash) tx.vout.zipIdx)
    (holds : cache.Holds coins)
    (through : cache.connectCoins env.computeHash (prev.nHeight + 1) block.vtx =
      some (after, undos)) :
    (∃ rest, block.vtx = block.coinbase :: rest ∧ block.coinbase.isCoinBase ∧
        ∀ tx ∈ rest, tx.isCoinBase = false) ∧
      CoinsView.Connects env.computeHash (prev.nHeight + 1) coins block.vtx undos s.view ∧
      after.Holds s.view ∧ s.vtxundo = undos := by
  obtain ⟨_, _, _, _, absurd⟩ | ⟨r, _, connected, same⟩ :=
    connected_of_connectBlock accepted
  · cases absurd
  cases same
  have checked := env.blockChecked_of_checkBlock honest connected.checked
  obtain ⟨rest, vtx, coinbase, _, _, plain⟩ := checked.vtx_eq
  have shaped : ∀ tx ∈ block.vtx, tx.Shaped := fun tx mem =>
    let ⟨_, passed⟩ := checked.checkTransaction_of_mem mem
    shaped_of_checkTransaction passed
  refine ⟨⟨rest, vtx, coinbase, plain⟩, ?_⟩
  rw [← (block_round connected.round).2] at through ⊢
  obtain ⟨connects, within, records⟩ := connects_of_loop connected.loop through
    (CCoinsViewCache.within_of_holds holds) shaped fresh (fun _ _ _ => rfl) (by rw [vtx]; exact plain)
  exact ⟨connects, within.holds, records⟩

theorem disconnectBlock_of_connects (pindex : TipIndex) {computeHash : CTransaction → H256}
    {after : CoinsView} {c : ChainView} {rest : List CTransaction}
    (vtx : block.vtx = block.coinbase :: rest)
    (coinbase : block.coinbase.isCoinBase) (plain : ∀ tx ∈ rest, tx.isCoinBase = false)
    (connects : CoinsView.Connects computeHash pindex.nHeight coins block.vtx undos after)
    (set : coins.At pindex.nHeight) (positive : 0 < pindex.nHeight)
    (height : pindex.nHeight < 2 ^ 30) (holds : c.view.Holds after)
    (best : c.view.getBestBlock = pindex.hash) :
    ∃ view : CCoinsViewCache, view.Holds coins ∧
      disconnectBlock computeHash block pindex (undoWriteToDisk undos.tail) c =
        .ok (.ok, ⟨view.setBestBlock pindex.pprev.hash, pindex.pprev.hashStateRoot,
          pindex.pprev.hashUTXORoot⟩) := by
  have bounded := connects.undo_bounded set positive height
  have length := connects.length_eq
  rw [vtx] at connects length
  obtain - | ⟨takes, later⟩ := connects
  rw [forall_mem_cons] at bounded
  have read := undoReadFromDisk_write (fun undo mem => (bounded.2 undo mem).1)
    (fun undo mem => (bounded.2 undo mem).2)
  obtain ⟨middle, ran, holds⟩ := holds.disconnectTxs later plain
    (set.updateCoins takes.shaped positive height) positive height
  obtain ⟨view, undone, holds⟩ := holds.disconnectTx takes set height
  rw [coinbase, if_pos rfl] at undone
  refine ⟨view, holds, ?_⟩
  unfold disconnectBlock
  rw [if_neg (not_not.2 best.symm), tail_cons, read]
  simp only [vtx, length_cons] at length ⊢
  rw [if_neg (not_not.2 length)]
  simp only [zip_cons_cons, reverse_cons, foldlM_append, ran]
  simp [undone]

/-- A block that `ConnectBlock` accepted, through the cache and without replacing a coin, is undone
by `DisconnectBlock`: the coins, the best block and the roots are those before. -/
theorem disconnectBlock_of_connectBlock (set : coins.At prev.nHeight) (height : prev.nHeight + 1 < 2 ^ 30)
    (stateRoot : prev.hashStateRoot = env.stateRoot state.trie)
    (utxoRoot : prev.hashUTXORoot = env.utxoRoot state.stateUTXO)
    (honest : env.HonestMark block)
    (accepted : env.connectBlock chain prev coins state block = .ok (some s))
    (fresh : ∀ tx ∈ block.vtx, coins.Free (tx.getHash env.computeHash) tx.vout.zipIdx)
    (holds : cache.Holds coins)
    (through : cache.connectCoins env.computeHash (prev.nHeight + 1) block.vtx =
      some (after, undos)) :
    after.Holds s.view ∧ undos = s.vtxundo ∧
      ∀ c : ChainView, c.view.Holds s.view →
        c.view.getBestBlock = env.hashHeader block.toCBlockHeader →
        ∃ restored, disconnectBlock env.computeHash block
            ⟨prev.nHeight + 1, env.hashHeader block.toCBlockHeader, prev⟩
            (undoWriteToDisk undos.tail) c = .ok (.ok, restored) ∧
          restored.view.Holds coins ∧ restored.view.hashBlock = prev.hash ∧
          restored.hashStateRoot = env.stateRoot state.trie ∧
          restored.hashUTXORoot = env.utxoRoot state.stateUTXO := by
  obtain ⟨⟨rest, vtx, coinbase, plain⟩, connects, holdsAfter, rfl⟩ :=
    connects_of_connectBlock honest accepted fresh holds through
  refine ⟨holdsAfter, rfl, fun c holds best => ?_⟩
  obtain ⟨view, holds, undone⟩ := disconnectBlock_of_connects
    ⟨prev.nHeight + 1, env.hashHeader block.toCBlockHeader, prev⟩ vtx coinbase plain connects
    (set.mono (Nat.le_succ _)) (Nat.succ_pos _) height holds best
  exact ⟨_, undone, holds, rfl, stateRoot, utxoRoot⟩

namespace ConnectEnv

def undoSample : ConnectEnv :=
  { sample with computeHash := fun tx => (tx.vout.map CTxOut.nValue).headD 0 |>.toNat }

def payingTx : CTransaction where
  vin := [⟨⟨1, 0⟩, [], 0⟩]
  vout := [⟨60, CScript.payToPubkeyHash 1⟩, ⟨0, [Op.ret]⟩]

def passingTx : CTransaction where
  vin := [⟨⟨60, 0⟩, [], 0⟩]
  vout := [⟨50, CScript.payToPubkeyHash 2⟩]

def passingBlock : CBlock := undoSample.blockOf [sampleCoinbase, payingTx, passingTx]

def payingCoin : CoinsView := fun outpoint =>
  if outpoint = ⟨1, 0⟩ then some ⟨⟨100, CScript.payToPubkeyHash 1⟩, false, false, 1⟩ else none

/-- The block is undone, with its own coins and the output that was never a coin. -/
theorem passingBlock_undone :
    ∃ after undos restored, (CCoinsViewCache.onBase payingCoin 0).connectCoins undoSample.computeHash 1000
        passingBlock.vtx = some (after, undos) ∧
      disconnectBlock undoSample.computeHash passingBlock
        ⟨1000, undoSample.hashHeader passingBlock.toCBlockHeader, samplePrev⟩
        (undoWriteToDisk undos.tail)
        ⟨after.setBestBlock (undoSample.hashHeader passingBlock.toCBlockHeader), 1, 1⟩ =
        .ok (.ok, restored) ∧ restored.view.Holds payingCoin ∧ restored.view.hashBlock = 0 := by
  have connects : ((undoSample.connectBlock [] samplePrev payingCoin ArtaxState.twoContracts
      passingBlock).toOption.bind id).isSome := by decide +kernel
  have updates : ((CCoinsViewCache.onBase payingCoin 0).connectCoins undoSample.computeHash 1000
      passingBlock.vtx).isSome := by decide +kernel
  obtain ⟨s, accepted⟩ := exists_ok_some connects
  obtain ⟨⟨after, undos⟩, through⟩ := Option.isSome_iff_exists.1 updates
  have set : payingCoin.At 999 := by
    intro outpoint c found
    simp only [payingCoin, Option.ite_none_right_eq_some, Option.some.injEq] at found
    rw [← found.2]
    exact ⟨by decide, by decide, by decide, by decide⟩
  obtain ⟨holds, _, undone⟩ := disconnectBlock_of_connectBlock set (by decide) rfl rfl
    (fun marked => by cases marked) accepted (by unfold CoinsView.Free; decide +kernel)
    (CCoinsViewCache.holds_onBase payingCoin 0) through
  have hash : undoSample.hashHeader passingBlock.toCBlockHeader ≠ 0 := by decide +kernel
  obtain ⟨restored, ran, coins, best, _⟩ := undone
    ⟨after.setBestBlock (undoSample.hashHeader passingBlock.toCBlockHeader), 1, 1⟩ holds
    (if_neg hash)
  exact ⟨after, undos, restored, through, ran, coins, best⟩

def lateSample : ConnectEnv :=
  { undoSample with params := { ConsensusParams.main with nLastPOWBlock := 0x7fffffff } }

def lateBlock : CBlock := lateSample.blockOf [sampleCoinbase]

/-- The coinbase of a block at height `2 ^ 30` is stored with height zero, so it does not match the
block that is disconnected. -/
theorem lateBlock_unclean :
    ∃ s after undos restored, lateSample.connectBlock [] ⟨2 ^ 30 - 1, 0, 0, 0, 0⟩ (fun _ => none)
        ArtaxState.twoContracts lateBlock = .ok (some s) ∧
      (CCoinsViewCache.onBase (fun _ => none) 0).connectCoins lateSample.computeHash (2 ^ 30)
        lateBlock.vtx = some (after, undos) ∧
      disconnectBlock lateSample.computeHash lateBlock
        ⟨2 ^ 30, lateSample.hashHeader lateBlock.toCBlockHeader, ⟨2 ^ 30 - 1, 0, 0, 0, 0⟩⟩
        (undoWriteToDisk undos.tail)
        ⟨after.setBestBlock (lateSample.hashHeader lateBlock.toCBlockHeader), 0, 0⟩ =
        .ok (.unclean, restored) := by
  have connects : ((lateSample.connectBlock [] ⟨2 ^ 30 - 1, 0, 0, 0, 0⟩ (fun _ => none)
      ArtaxState.twoContracts lateBlock).toOption.bind id).isSome := by decide +kernel
  have unclean : ((CCoinsViewCache.onBase (fun _ => none) 0).connectCoins lateSample.computeHash
      (2 ^ 30) lateBlock.vtx).map (fun coins => (disconnectBlock lateSample.computeHash
        lateBlock ⟨2 ^ 30, lateSample.hashHeader lateBlock.toCBlockHeader, ⟨2 ^ 30 - 1, 0, 0, 0, 0⟩⟩
        (undoWriteToDisk coins.2.tail)
        ⟨coins.1.setBestBlock (lateSample.hashHeader lateBlock.toCBlockHeader), 0, 0⟩).toOption.map
        Prod.fst) = some (some .unclean) := by decide +kernel
  obtain ⟨s, accepted⟩ := exists_ok_some connects
  obtain ⟨⟨after, undos⟩, through, result⟩ := Option.map_eq_some_iff.1 unclean
  obtain ⟨⟨_, restored⟩, ran, rfl⟩ := Option.map_eq_some_iff.1 result
  refine ⟨s, after, undos, restored, accepted, through, ?_⟩
  exact toOption_eq_some.1 ran

end ConnectEnv
end Artax
