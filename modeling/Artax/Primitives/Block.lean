import Artax.Script.Script
import Artax.Util.IdealHash

/-!
# Blocks

Block headers with the proof-of-stake and contract state fields, blocks, and
the merkle root that ties a header to its transactions. The hash functions are
parameters.
-/

namespace Artax

structure CBlockHeader where
  nVersion : Int
  hashPrevBlock : H256
  hashMerkleRoot : H256
  nTime : UInt32
  nBits : UInt32
  nNonce : UInt32
  hashStateRoot : H256
  hashUTXORoot : H256
  prevoutStake : COutPoint
  vchBlockSig : Bytes
  deriving DecidableEq, Repr

namespace CBlockHeader

def isProofOfStake (header : CBlockHeader) : Bool := !header.prevoutStake.isNull

def isProofOfWork (header : CBlockHeader) : Bool := !header.isProofOfStake

end CBlockHeader

structure CBlock extends CBlockHeader where
  vtx : List CTransaction
  fChecked : Bool := false
  deriving DecidableEq, Repr

/-- `BlockMerkleRoot`. -/
def blockMerkleRoot (computeHash : CTransaction → H256) (pairHash : H256 → H256 → H256)
    (vtx : List CTransaction) : H256 × Bool :=
  Util.Merkle.computeMerkleRoot pairHash 0 (vtx.map (CTransaction.getHash computeHash))

/-- A merkle root determines transactions that are not null up to a repeated end, if transaction
hashes are injective and never that of a pair. -/
theorem prefix_of_blockMerkleRoot_eq {computeHash : CTransaction → H256}
    {pairHash : H256 → H256 → H256} (injective : Function.Injective computeHash)
    (joins : Util.Merkle.Joins pairHash) (apart : ∀ tx a b, computeHash tx ≠ pairHash a b)
    {left right : List CTransaction} (someLeft : left ≠ []) (someRight : right ≠ [])
    (present : ∀ tx ∈ left, tx.isNull = false) (present' : ∀ tx ∈ right, tx.isNull = false)
    (unmutated : (blockMerkleRoot computeHash pairHash left).2 = false)
    (same : (blockMerkleRoot computeHash pairHash left).1 =
      (blockMerkleRoot computeHash pairHash right).1) :
    left <+: right ∧ right ⊆ left := by
  have plain {vtx : List CTransaction} (nonnull : ∀ tx ∈ vtx, tx.isNull = false) :
      vtx.map (CTransaction.getHash computeHash) = vtx.map computeHash :=
    List.map_congr_left fun tx member => by
      rw [CTransaction.getHash, nonnull tx member, if_neg Bool.false_ne_true]
  unfold blockMerkleRoot at unmutated same
  rw [plain present] at unmutated same
  rw [plain present'] at same
  have leaves (vtx : List CTransaction) :
      ∀ x ∈ vtx.map computeHash, ∀ a b, x ≠ pairHash a b := by
    intro x member a b
    obtain ⟨tx, _, rfl⟩ := List.mem_map.1 member
    exact apart tx a b
  obtain ⟨begins, repeats⟩ := Util.Merkle.prefix_of_root_eq joins
    (by simpa using someLeft) (by simpa using someRight) (leaves left) (leaves right)
    unmutated same
  refine ⟨?_, fun tx member => ?_⟩
  · obtain ⟨rest, appended⟩ := begins
    obtain ⟨first, second, rfl, head, _⟩ := List.map_eq_append_iff.1 appended.symm
    exact (injective.list_map head) ▸ List.prefix_append first second
  · obtain ⟨other, listed, equal⟩ := List.mem_map.1 (repeats (List.mem_map_of_mem member))
    exact injective equal ▸ listed

/-- Lists of hashes that are not those of pairs have different roots, unless one of the calls sets
its mutated flag. -/
theorem eq_of_computeMerkleRoot_eq {pairHash : H256 → H256 → H256}
    (joins : Util.Merkle.Joins pairHash) {left right : List H256} (someLeft : left ≠ [])
    (someRight : right ≠ []) (leaves : ∀ x ∈ left, ∀ a b, x ≠ pairHash a b)
    (leaves' : ∀ x ∈ right, ∀ a b, x ≠ pairHash a b)
    (unmutated : (Util.Merkle.computeMerkleRoot pairHash 0 left).2 = false)
    (unmutated' : (Util.Merkle.computeMerkleRoot pairHash 0 right).2 = false)
    (same : (Util.Merkle.computeMerkleRoot pairHash 0 left).1 =
      (Util.Merkle.computeMerkleRoot pairHash 0 right).1) :
    left = right := by
  have begins := (Util.Merkle.prefix_of_root_eq joins someLeft someRight leaves leaves'
    unmutated same).1
  have begins' := (Util.Merkle.prefix_of_root_eq joins someRight someLeft leaves' leaves
    unmutated' same.symm).1
  exact begins.eq_of_length (Nat.le_antisymm begins.length_le begins'.length_le)

/-- Three odd hashes, under a pair hash with even values. -/
theorem eq_of_computeMerkleRoot_eq_three : [1, 3, 5] = ([1, 3, 5] : List H256) := by
  have leaves : ∀ x ∈ [1, 3, 5], ∀ a b, x ≠ Util.idealPair a b := by
    intro x member a b
    unfold Util.idealPair
    simp only [List.mem_cons, List.not_mem_nil, or_false] at member
    omega
  exact eq_of_computeMerkleRoot_eq Util.joins_idealPair (by decide) (by decide) leaves leaves
    (by decide +kernel) (by decide +kernel) rfl

end Artax
