import Artax.Mining.BlockAssembler
import Artax.Validation.AalBlock

/-!
# What the header of a block fixes

Transactions with witnesses, and `ContextualCheckBlock` with the witness commitment, which has null
in place of the coinbase and, in a proof-of-stake block, of the coinstake, whose witness is therefore
not committed to.
-/

namespace Artax

open Util CScript List
open Util (require)

structure WitnessTx where
  tx : CTransaction
  scriptWitness : List (List Bytes)
  length_eq : scriptWitness.length = tx.vin.length
  deriving DecidableEq

def WitnessTx.hasWitness (tx : WitnessTx) : Bool := tx.scriptWitness.any fun stack => !stack.isEmpty

structure WitnessBlock extends CBlockHeader where
  vtx : List WitnessTx
  fChecked : Bool := false
  deriving DecidableEq

/-- What the hashing of witnesses and the checks ask of the rest of the node. -/
structure WitnessEnv extends CheckEnv where
  fullHash : WitnessTx → H256

structure BlockContext where
  nHeight : Nat
  bip34Height : Nat
  csvActive : Bool
  segwitActive : Bool
  medianTimePast : Int

/-- `push_int64`. -/
def CScript.pushInt64 (n : Int) : CScript :=
  if n = -1 ∨ 1 ≤ n ∧ n ≤ 16 then [UInt8.ofInt (n + 0x50)]
  else if n = 0 then [Op.zero]
  else pushData (CScriptNum.serialize n)

namespace WitnessBlock

variable (block : WitnessBlock)

def base : CBlock :=
  { block.toCBlockHeader with vtx := block.vtx.map WitnessTx.tx, fChecked := block.fChecked }

/-- The output that `GetWitnessCommitmentIndex` finds. -/
def witnessCommitment : Option CTxOut :=
  (block.base.coinbase.vout.filter CBlock.isWitnessCommitment).getLast?

def reservedValue : Option Bytes :=
  match (block.vtx.head?.bind fun tx => tx.scriptWitness.head?) with
  | some [nonce] => if nonce.length = 32 then some nonce else none
  | _ => none

def blanked : Nat := if block.isProofOfStake then 2 else 1

def coinstakeWitness : Option (List (List Bytes)) :=
  (block.vtx[1]?).map WitnessTx.scriptWitness

end WitnessBlock

namespace WitnessEnv

variable (env : WitnessEnv)

/-- `CTransaction::GetWitnessHash`. -/
def getWitnessHash (tx : WitnessTx) : H256 :=
  if tx.hasWitness then env.fullHash tx else tx.tx.getHash env.computeHash

/-- `BlockWitnessMerkleRoot`. -/
def blockWitnessMerkleRoot (block : WitnessBlock) : H256 :=
  (Util.Merkle.computeMerkleRoot env.pairHash 0
    (replicate block.blanked 0 ++ (block.vtx.drop block.blanked).map env.getWitnessHash)).1

def checkWitness (ctx : BlockContext) (block : WitnessBlock) : Except Rejection Unit :=
  match (if ctx.segwitActive then block.witnessCommitment else none) with
  | some txout =>
    match block.reservedValue with
    | none => .error ⟨100, "bad-witness-nonce-size"⟩
    | some nonce =>
      require (env.pairHash (env.blockWitnessMerkleRoot block) (ofLittleEndian nonce) ==
        ofLittleEndian ((txout.scriptPubKey.drop 6).take 32)) ⟨100, "bad-witness-merkle-match"⟩
  | none => require (block.vtx.all fun tx => !tx.hasWitness) ⟨100, "unexpected-witness"⟩

/-- `ContextualCheckBlock`. -/
def contextualCheckBlock (ctx : BlockContext) (block : WitnessBlock) : Except Rejection Unit := do
  let nLockTimeCutoff := if ctx.csvActive then ctx.medianTimePast else (block.nTime.toNat : Int)
  require (block.base.vtx.all fun tx => tx.isFinalTx ctx.nHeight nLockTimeCutoff)
    ⟨10, "bad-txns-nonfinal"⟩
  require (decide (ctx.nHeight < ctx.bip34Height) ||
    (pushInt64 ctx.nHeight).isPrefixOf ((block.base.coinbase.vin.map CTxIn.scriptSig).headD []))
    ⟨100, "bad-cb-height"⟩
  env.checkWitness ctx block

/-- Hashing loses nothing: transactions, with or without witnesses, and pairs can be recovered, and
no two kinds share a hash. -/
structure IdealHashes : Prop where
  transactions : Function.Injective env.computeHash
  full : Function.Injective env.fullHash
  joins : Util.Merkle.Joins env.pairHash
  apart : ∀ tx left right, env.computeHash tx ≠ env.pairHash left right
  marked : ∀ tx tx', env.fullHash tx ≠ env.computeHash tx'

end WitnessEnv

/-! ## Witnesses that are fixed -/

theorem CScript.ofLittleEndian_injective {left right : Bytes} (length : left.length = right.length)
    (same : ofLittleEndian left = ofLittleEndian right) : left = right := by
  rw [← ofBigEndian_reverse, ← ofBigEndian_reverse] at same
  apply reverse_injective
  rw [← bigEndian_ofBigEndian left.reverse, same, length_reverse, length, ← length_reverse,
    bigEndian_ofBigEndian]

namespace WitnessTx

theorem ext_of {tx tx' : WitnessTx} (same : tx.tx = tx'.tx)
    (witness : tx.scriptWitness = tx'.scriptWitness) : tx = tx' := by
  cases tx
  cases tx'
  cases same
  cases witness
  rfl

theorem eq_of_not_hasWitness {tx tx' : WitnessTx} (same : tx.tx = tx'.tx)
    (none : tx.hasWitness = false) (none' : tx'.hasWitness = false) : tx = tx' := by
  have empty {tx : WitnessTx} (none : tx.hasWitness = false) :
      tx.scriptWitness = replicate tx.tx.vin.length [] := by
    rw [eq_replicate_iff]
    refine ⟨tx.length_eq, fun stack mem => ?_⟩
    have isEmpty := any_eq_false.1 none stack mem
    simpa using isEmpty
  refine ext_of same ?_
  rw [empty none, empty none', same]

end WitnessTx

namespace WitnessEnv

variable {env : WitnessEnv}

theorem IdealHashes.eq_of_getWitnessHash (ideal : env.IdealHashes) {tx tx' : WitnessTx}
    (same : tx.tx = tx'.tx) (present : tx.tx.isNull = false)
    (hash : env.getWitnessHash tx = env.getWitnessHash tx') : tx = tx' := by
  have plain {tx : CTransaction} (present : tx.isNull = false) :
      tx.getHash env.computeHash = env.computeHash tx := by
    rw [CTransaction.getHash, present, if_neg Bool.false_ne_true]
  unfold getWitnessHash at hash
  split at hash <;> split at hash
  · exact ideal.full hash
  · rw [plain (same ▸ present)] at hash
    exact absurd hash (ideal.marked _ _)
  · rw [plain present] at hash
    exact absurd hash.symm (ideal.marked _ _)
  · rename_i none none'
    exact WitnessTx.eq_of_not_hasWitness same (Bool.eq_false_iff.2 none) (Bool.eq_false_iff.2 none')

theorem IdealHashes.eq_of_map_getWitnessHash (ideal : env.IdealHashes) {txs txs' : List WitnessTx}
    (same : txs.map WitnessTx.tx = txs'.map WitnessTx.tx)
    (present : ∀ tx ∈ txs, tx.tx.isNull = false)
    (hashes : txs.map env.getWitnessHash = txs'.map env.getWitnessHash) : txs = txs' := by
  induction txs generalizing txs' with
  | nil => exact (map_eq_nil_iff.1 same.symm).symm
  | cons tx rest ih =>
    cases txs' with
    | nil => cases same
    | cons tx' rest' =>
      rw [forall_mem_cons] at present
      obtain ⟨now, later⟩ := cons.inj same
      obtain ⟨hash, rest_hashes⟩ := cons.inj hashes
      rw [ideal.eq_of_getWitnessHash now present.1 hash, ih later present.2 rest_hashes]

theorem IdealHashes.base_vtx (ideal : env.IdealHashes) {block block' : CBlock}
    (headers : block.toCBlockHeader = block'.toCBlockHeader) (checked : env.BlockChecked block)
    (checked' : env.BlockChecked block') : block.vtx = block'.vtx := by
  have nonempty {block : CBlock} (checked : env.BlockChecked block) : block.vtx ≠ [] := by
    obtain ⟨rest, vtx, _⟩ := checked.vtx_eq
    rw [vtx]
    exact cons_ne_nil _ _
  have roots : (blockMerkleRoot env.computeHash env.pairHash block.vtx).1 =
      (blockMerkleRoot env.computeHash env.pairHash block'.vtx).1 := by
    rw [← checked.root, ← checked'.root, headers]
  have begins := (prefix_of_blockMerkleRoot_eq ideal.transactions ideal.joins ideal.apart
    (nonempty checked) (nonempty checked') (fun _ => checked.isNull_of_mem)
    (fun _ => checked'.isNull_of_mem) checked.unmutated roots).1
  have begins' := (prefix_of_blockMerkleRoot_eq ideal.transactions ideal.joins ideal.apart
    (nonempty checked') (nonempty checked) (fun _ => checked'.isNull_of_mem)
    (fun _ => checked.isNull_of_mem) checked'.unmutated roots.symm).1
  exact begins.eq_of_length (Nat.le_antisymm begins.length_le begins'.length_le)

variable {block block' : WitnessBlock}

theorem scriptWitness_of_reservedValue {tx : WitnessTx} {rest : List WitnessTx} {nonce : Bytes}
    (vtx : block.vtx = tx :: rest) (coinbase : tx.tx.isCoinBase)
    (found : block.reservedValue = some nonce) :
    nonce.length = 32 ∧ tx.scriptWitness = [[nonce]] := by
  have length := tx.length_eq
  unfold CTransaction.isCoinBase at coinbase
  split at coinbase
  · rename_i txin single
    rw [single] at length
    obtain ⟨stack, witness⟩ := length_eq_one_iff.1 length
    rw [WitnessBlock.reservedValue, vtx, head?_cons, Option.bind_some, witness, head?_cons] at found
    split at found
    · rename_i only
      cases only
      split at found
      · rename_i size
        cases found
        exact ⟨size, witness⟩
      · cases found
    · cases found
  · cases coinbase

theorem vtx_of_checked (checked : env.BlockChecked block.base) :
    ∃ tx rest, block.vtx = tx :: rest ∧ tx.tx.isCoinBase := by
  obtain ⟨_, vtx, coinbase, _⟩ := checked.vtx_eq
  obtain ⟨tx, rest, split, first, _⟩ := map_eq_cons_iff.1 vtx
  exact ⟨tx, rest, split, first ▸ coinbase⟩

section

variable (ideal : env.IdealHashes) (same : block.vtx.map WitnessTx.tx = block'.vtx.map WitnessTx.tx)
  (blanked : block.blanked = block'.blanked)
include ideal same blanked

/-- What a block that commits to its witnesses fixes: the witness of the coinbase, and all
transactions after those whose witness hash is null. -/
theorem IdealHashes.committed {txout : CTxOut} {nonce nonce' : Bytes}
    (present : ∀ tx ∈ block.vtx, tx.tx.isNull = false) (size : nonce.length = nonce'.length)
    (commits : env.pairHash (env.blockWitnessMerkleRoot block) (ofLittleEndian nonce) = ofLittleEndian ((txout.scriptPubKey.drop 6).take 32))
    (commits' : env.pairHash (env.blockWitnessMerkleRoot block') (ofLittleEndian nonce') = ofLittleEndian ((txout.scriptPubKey.drop 6).take 32)) :
    nonce = nonce' ∧ block.vtx.drop block.blanked = block'.vtx.drop block.blanked := by
  obtain ⟨roots, values⟩ := ideal.joins _ _ _ _ (commits.trans commits'.symm)
  have length : block.vtx.length = block'.vtx.length := by simpa using congrArg length same
  refine ⟨ofLittleEndian_injective size values, ?_⟩
  unfold blockWitnessMerkleRoot at roots
  rw [← blanked] at roots
  have leaves := append_cancel_left (Util.Merkle.eq_of_root_eq ideal.joins (by simp [length]) roots)
  refine ideal.eq_of_map_getWitnessHash ?_ (fun tx mem => present tx (mem_of_mem_drop mem)) leaves
  rw [map_drop, map_drop, same]

/-- The witnesses of the coinbase and of the transactions after the blanked ones are fixed by the
checks of the commitment, or all are empty. -/
theorem IdealHashes.fixed {ctx : BlockContext} (checked : env.BlockChecked block.base)
    (checked' : env.BlockChecked block'.base) (passed : env.checkWitness ctx block = .ok ())
    (passed' : env.checkWitness ctx block' = .ok ()) :
    block.vtx = block'.vtx ∨ block.vtx.head? = block'.vtx.head? ∧
      block.vtx.drop block.blanked = block'.vtx.drop block.blanked := by
  have present : ∀ tx ∈ block.vtx, tx.tx.isNull = false := fun tx mem =>
    checked.isNull_of_mem (mem_map_of_mem mem)
  have commitment : block.witnessCommitment = block'.witnessCommitment := by
    have first : block.base.coinbase = block'.base.coinbase := congrArg (fun vtx => vtx.headD {}) same
    rw [WitnessBlock.witnessCommitment, WitnessBlock.witnessCommitment, first]
  unfold checkWitness at passed passed'
  rw [← commitment] at passed'
  split at passed
  · rename_i txout found
    rw [found] at passed'
    right
    obtain ⟨tx, rest, vtx, coinbase⟩ := vtx_of_checked checked
    obtain ⟨tx', rest', vtx', coinbase'⟩ := vtx_of_checked checked'
    split at passed
    · cases passed
    · rename_i nonce reserved
      dsimp only at passed'
      split at passed'
      · cases passed'
      · rename_i nonce' reserved'
        rw [require_eq_ok, beq_iff_eq] at passed passed'
        obtain ⟨size, witness⟩ := scriptWitness_of_reservedValue vtx coinbase reserved
        obtain ⟨size', witness'⟩ := scriptWitness_of_reservedValue vtx' coinbase' reserved'
        obtain ⟨rfl, later⟩ :=
          ideal.committed same blanked present (size.trans size'.symm) passed passed'
        refine ⟨?_, later⟩
        rw [vtx, vtx'] at same ⊢
        have first : tx = tx' :=
          WitnessTx.ext_of (cons.inj same).1 (witness.trans witness'.symm)
        rw [first]
        rfl
  · rename_i found
    rw [found] at passed'
    rw [require_eq_ok, all_eq_true] at passed passed'
    have plain {block : WitnessBlock} (none : ∀ tx ∈ block.vtx, (!tx.hasWitness)) :
        block.vtx.map env.getWitnessHash =
          (block.vtx.map WitnessTx.tx).map (CTransaction.getHash env.computeHash) := by
      rw [map_map]
      refine map_congr_left fun tx mem => ?_
      rw [getWitnessHash, if_neg (by simpa using none tx mem)]
      rfl
    exact .inl (ideal.eq_of_map_getWitnessHash same present (by rw [plain passed, plain passed', same]))

end

/-- Two blocks with one header that are accepted on top of one block are the same, witnesses
included, if and only if, in the case of proof of stake, their coinstakes have the same witness. -/
theorem block_body_fixed_iff (ideal : env.IdealHashes) {ctx : BlockContext}
    {limits limits' : BlockLimits} {fCheckSig fCheckSig' : Bool} {block block' : WitnessBlock}
    (headers : block.toCBlockHeader = block'.toCBlockHeader)
    (honest : env.HonestMark block.base) (honest' : env.HonestMark block'.base)
    (checked : env.checkBlock limits true true fCheckSig block.base = .ok ())
    (checked' : env.checkBlock limits' true true fCheckSig' block'.base = .ok ())
    (contextual : env.contextualCheckBlock ctx block = .ok ())
    (contextual' : env.contextualCheckBlock ctx block' = .ok ()) :
    block.vtx = block'.vtx ↔
      (block.isProofOfStake = true → block.coinstakeWitness = block'.coinstakeWitness) := by
  have checked := env.blockChecked_of_checkBlock honest checked
  have checked' := env.blockChecked_of_checkBlock honest' checked'
  have same : block.vtx.map WitnessTx.tx = block'.vtx.map WitnessTx.tx :=
    ideal.base_vtx headers checked checked'
  have blanked : block.blanked = block'.blanked := by
    rw [WitnessBlock.blanked, WitnessBlock.blanked, headers]
  simp only [contextualCheckBlock, bind_eq_ok] at contextual contextual'
  obtain ⟨_, _, _, _, passed⟩ := contextual
  obtain ⟨_, _, _, _, passed'⟩ := contextual'
  refine ⟨fun equal _ => by rw [WitnessBlock.coinstakeWitness, WitnessBlock.coinstakeWitness, equal],
    fun stake => ?_⟩
  rcases ideal.fixed same blanked checked checked' passed passed' with equal | ⟨first, later⟩
  · exact equal
  · obtain ⟨tx, rest, vtx, _⟩ := vtx_of_checked checked
    obtain ⟨tx', rest', vtx', _⟩ := vtx_of_checked checked'
    rw [WitnessBlock.coinstakeWitness, WitnessBlock.coinstakeWitness] at stake
    rw [vtx, vtx'] at same first later stake ⊢
    obtain rfl : tx = tx' := Option.some.inj first
    congr 1
    cases proof : block.isProofOfStake with
    | false =>
      rw [WitnessBlock.blanked, proof] at later
      exact later
    | true =>
      rw [WitnessBlock.blanked, proof] at later
      have witness := stake proof
      have others := (cons.inj same).2
      cases rest with
      | nil => exact (map_eq_nil_iff.1 others.symm).symm
      | cons second more =>
        cases rest' with
        | nil => cases others
        | cons second' more' =>
          have equal : second = second' :=
            WitnessTx.ext_of (cons.inj others).1 (Option.some.inj witness)
          rw [equal, show more = more' from later]

def stakedCoinbase : WitnessTx where
  tx := {
    vin := [⟨⟨0, 0xffffffff⟩, pushInt64 1000, 0xffffffff⟩]
    vout := [⟨0, []⟩, ⟨0, [Op.ret, 0x24, 0xaa, 0x21, 0xa9, 0xed] ++ replicate 32 0⟩] }
  scriptWitness := [[replicate 32 0]]
  length_eq := rfl

def stakedCoinstake (witness : List Bytes) : WitnessTx where
  tx := {
    vin := [⟨⟨5, 0⟩, [], 0xffffffff⟩]
    vout := [⟨0, []⟩, ⟨4 * coin, pushData (2 :: replicate 32 7) ++ [Op.checkSig]⟩] }
  scriptWitness := [witness]
  length_eq := rfl

/-- Transactions with witnesses can be numbered. -/
instance WitnessTx.countable : Countable WitnessTx := by
  let encode (tx : WitnessTx) : CTransaction × List (List (List Nat)) :=
    (tx.tx, tx.scriptWitness.map (map (map UInt8.toNat)))
  have bytesInjective : Function.Injective (map (map (map UInt8.toNat))) :=
    Function.Injective.list_map (Function.Injective.list_map
      (Function.Injective.list_map fun _ _ => UInt8.toNat_inj.1))
  refine Function.Injective.countable (f := encode) ?_
  intro tx tx' same
  obtain ⟨txs, witness⟩ := Prod.mk.inj same
  exact WitnessTx.ext_of txs (bytesInjective witness)

noncomputable def sampleHash : CTransaction ⊕ WitnessTx → H256 :=
  idealHash 2 [.inl stakedCoinbase.tx, .inl (stakedCoinstake []).tx]

noncomputable def sample : WitnessEnv where
  toCheckEnv := { ConnectEnv.sample.toCheckEnv with
    computeHash := fun tx => sampleHash (.inl tx)
    pairHash := idealPair }
  fullHash tx := sampleHash (.inr tx)

theorem sampleHash_injective : Function.Injective sampleHash := idealHash_injective _ _

theorem idealHashes_sample : sample.IdealHashes where
  transactions _ _ same := Sum.inl_injective (sampleHash_injective same)
  full _ _ same := Sum.inr_injective (sampleHash_injective same)
  joins := joins_idealPair
  apart _ := idealHash_ne_idealPair _ _ _
  marked _ _ same := Sum.inr_ne_inl (sampleHash_injective same)

noncomputable def stakedBlock (witness : List Bytes) : WitnessBlock where
  nVersion := 1
  hashPrevBlock := 0
  hashMerkleRoot := (blockMerkleRoot sample.computeHash sample.pairHash
    [stakedCoinbase.tx, (stakedCoinstake []).tx]).1
  nTime := 0
  nBits := 0
  nNonce := 0
  hashStateRoot := 0
  hashUTXORoot := 0
  prevoutStake := ⟨5, 0⟩
  vchBlockSig := [1]
  vtx := [stakedCoinbase, stakedCoinstake witness]

def sampleContext : BlockContext := ⟨1000, 1, true, true, 0⟩

theorem stakedBlock_passes (witness : List Bytes) :
    sample.checkBlock (updateBlockSizeParams 2000000) true true true (stakedBlock witness).base = .ok () ∧
      sample.contextualCheckBlock sampleContext (stakedBlock witness) = .ok () := by
  have checked : (sample.checkBlock (updateBlockSizeParams 2000000) true true true
      (stakedBlock []).base).toBool := by decide +kernel
  have contextual : (sample.contextualCheckBlock sampleContext (stakedBlock [])).toBool := by
    decide +kernel
  obtain ⟨_, checked⟩ := exists_ok checked
  obtain ⟨_, contextual⟩ := exists_ok contextual
  exact ⟨checked, contextual⟩

/-- Two blocks that differ at most in the witness of the coinstake. -/
theorem block_body_fixed_iff_staked :
    (stakedBlock []).vtx = (stakedBlock [[1]]).vtx ↔
      ((stakedBlock []).isProofOfStake = true →
        (stakedBlock []).coinstakeWitness = (stakedBlock [[1]]).coinstakeWitness) :=
  block_body_fixed_iff idealHashes_sample rfl (fun marked => by cases marked)
    (fun marked => by cases marked) (stakedBlock_passes []).1 (stakedBlock_passes [[1]]).1
    (stakedBlock_passes []).2 (stakedBlock_passes [[1]]).2

/-- The witness of the coinstake can be replaced without changing the header or failing a check. -/
theorem coinstake_witness_can_change :
    sample.IdealHashes ∧ (stakedBlock []).toCBlockHeader = (stakedBlock [[1]]).toCBlockHeader ∧
      (∀ witness, sample.checkBlock (updateBlockSizeParams 2000000) true true true
          (stakedBlock witness).base = .ok () ∧
        sample.contextualCheckBlock sampleContext (stakedBlock witness) = .ok ()) ∧
      sampleContext.segwitActive = true ∧ (stakedBlock []).vtx ≠ (stakedBlock [[1]]).vtx := by
  refine ⟨idealHashes_sample, rfl, stakedBlock_passes, rfl, fun same => ?_⟩
  have witness := congrArg (fun vtx => vtx.map WitnessTx.scriptWitness) same
  cases witness

end WitnessEnv
end Artax
