import Artax.Consensus.TxVerify
import Artax.Util.Closure

/-!
# The transactions that wait for a block

`CTxMemPool` as the block assembler reads it: the entries in the order in which they are considered,
the links between them, and the sets of ancestors and descendants.
-/

namespace Artax

open List
open Util (Closure.walk Closure.mem_walk)

/-- `GetCreateOrCall`. -/
def CTransaction.getCreateOrCall (tx : CTransaction) : Nat :=
  (if tx.vout.any fun v => CScript.hasOpCall v.scriptPubKey then 1 else 0) +
    (if tx.vout.any fun v => CScript.hasOpCreate v.scriptPubKey then 2 else 0)

structure CTxMemPoolEntry where
  tx : CTransaction
  nFee : CAmount
  nTxWeight : Nat
  sigOpCost : Int
  feeDelta : Int := 0
  nMinGasPrice : CAmount := 0
  nCountWithAncestors : Nat
  nSizeWithAncestors : Int
  nModFeesWithAncestors : CAmount
  nSigOpCostWithAncestors : Int
  deriving DecidableEq, Repr

namespace CTxMemPoolEntry

/-- `GetModifiedFee`. -/
def getModifiedFee (entry : CTxMemPoolEntry) : CAmount := entry.nFee + entry.feeDelta

/-- `GetTxSize`. -/
def getTxSize (nBytesPerSigOp : Nat) (entry : CTxMemPoolEntry) : Int :=
  (max (entry.nTxWeight : Int) (entry.sigOpCost * nBytesPerSigOp) + witnessScaleFactor - 1).tdiv
    witnessScaleFactor

end CTxMemPoolEntry

/-- `CTxMemPool`: the entries, and for each the entries it spends and the entries that spend it. -/
structure CTxMemPool where
  /-- The entries in the order of the index `ancestor_score_or_gas_price`. -/
  mapTx : List H256
  entry : H256 → CTxMemPoolEntry
  computeHash : CTransaction → H256
  getMemPoolParents : H256 → Finset H256
  getMemPoolChildren : H256 → Finset H256
  nodup : mapTx.Nodup
  hash_eq : ∀ id ∈ mapTx, computeHash (entry id).tx = id
  mem_parents : ∀ child ∈ mapTx, ∀ parent,
    parent ∈ getMemPoolParents child ↔
      parent ∈ mapTx ∧ ∃ txin ∈ (entry child).tx.vin, txin.prevout.hash = parent
  mem_children : ∀ parent child,
    child ∈ getMemPoolChildren parent ↔ child ∈ mapTx ∧ parent ∈ getMemPoolParents child
  acyclic : ∃ order : H256 → Nat, ∀ child ∈ mapTx, ∀ parent ∈ getMemPoolParents child,
    order parent < order child

namespace CTxMemPool

variable (pool : CTxMemPool)

def Spends (child parent : H256) : Prop := child ∈ pool.mapTx ∧ parent ∈ pool.getMemPoolParents child

/-- An entry is an ancestor of another: it is spent, or an ancestor of one that is spent. -/
def IsAncestor (ancestor id : H256) : Prop := Relation.TransGen pool.Spends id ancestor

/-- `CalculateMemPoolAncestors`. -/
def calculateMemPoolAncestors (id : H256) : Finset H256 :=
  Closure.walk pool.getMemPoolParents pool.mapTx.length (pool.getMemPoolParents id) ∅

/-- `CalculateDescendants`. -/
def calculateDescendants (id : H256) : Finset H256 :=
  Closure.walk pool.getMemPoolChildren pool.mapTx.length {id} ∅

def CountsCorrect : Prop :=
  ∀ id ∈ pool.mapTx,
    (pool.entry id).nCountWithAncestors = (pool.calculateMemPoolAncestors id).card + 1

variable {pool} {child parent ancestor id : H256}

theorem Spends.mem (spends : pool.Spends child parent) : parent ∈ pool.mapTx :=
  ((pool.mem_parents child spends.1 parent).1 spends.2).1

theorem IsAncestor.mem (above : pool.IsAncestor ancestor id) : ancestor ∈ pool.mapTx := by
  obtain ⟨_, _, spends⟩ := Relation.TransGen.tail'_iff.1 above
  exact spends.mem

theorem not_isAncestor_self (id : H256) : ¬pool.IsAncestor id id := by
  obtain ⟨order, increases⟩ := pool.acyclic
  have below {a b : H256} (above : pool.IsAncestor a b) : order a < order b := by
    induction above with
    | single spends => exact increases _ spends.1 _ spends.2
    | tail _ spends ih => exact (increases _ spends.1 _ spends.2).trans ih
  exact fun above => (below above).false

section

variable (member : id ∈ pool.mapTx)
include member

theorem mem_calculateMemPoolAncestors :
    ancestor ∈ pool.calculateMemPoolAncestors id ↔ pool.IsAncestor ancestor id := by
  have stays : ∀ x ∈ pool.mapTx.toFinset, pool.getMemPoolParents x ⊆ pool.mapTx.toFinset := by
    intro x listed y isParent
    exact mem_toFinset.2 ((pool.mem_parents x (mem_toFinset.1 listed) y).1 isParent).1
  rw [calculateMemPoolAncestors,
    Closure.mem_walk stays (stays id (mem_toFinset.2 member)) (toFinset_card_le _),
    IsAncestor, Relation.TransGen.head'_iff]
  -- a step up from an entry of the pool is the same in both relations
  have agree {s : H256} (listed : s ∈ pool.mapTx) :
      Relation.ReflTransGen (fun a b => b ∈ pool.getMemPoolParents a) s ancestor ↔
        Relation.ReflTransGen pool.Spends s ancestor := by
    refine ⟨fun path => ?_, fun path => path.lift (fun x => x) fun _ _ spends => spends.2⟩
    induction path using Relation.ReflTransGen.head_induction_on with
    | refl => exact .refl
    | head isParent _ ih =>
      exact .head ⟨listed, isParent⟩ (ih ((pool.mem_parents _ listed _).1 isParent).1)
  constructor
  · rintro ⟨s, isParent, path⟩
    have spends : pool.Spends id s := ⟨member, isParent⟩
    exact ⟨s, spends, (agree spends.mem).1 path⟩
  · rintro ⟨s, spends, path⟩
    exact ⟨s, spends.2, (agree spends.mem).2 path⟩

theorem mem_calculateDescendants {descendant : H256} :
    descendant ∈ pool.calculateDescendants id ↔ Relation.ReflTransGen pool.Spends descendant id := by
  have stays : ∀ x ∈ pool.mapTx.toFinset, pool.getMemPoolChildren x ⊆ pool.mapTx.toFinset := by
    intro x _ y isChild
    exact mem_toFinset.2 ((pool.mem_children x y).1 isChild).1
  rw [calculateDescendants,
    Closure.mem_walk stays (by simpa using member) (toFinset_card_le _)]
  simp only [pool.mem_children, Finset.mem_singleton, exists_eq_left]
  exact Relation.reflTransGen_swap

theorem mem_of_mem_calculateDescendants {descendant : H256}
    (below : descendant ∈ pool.calculateDescendants id) : descendant ∈ pool.mapTx := by
  obtain rfl | ⟨_, spends, _⟩ :=
    Relation.ReflTransGen.cases_head ((mem_calculateDescendants member).1 below)
  · exact member
  · exact spends.1

end

theorem count_lt_of_isAncestor (correct : pool.CountsCorrect) (above : pool.IsAncestor ancestor id)
    (member : id ∈ pool.mapTx) :
    (pool.entry ancestor).nCountWithAncestors < (pool.entry id).nCountWithAncestors := by
  have listed : ancestor ∈ pool.mapTx := above.mem
  rw [correct ancestor listed, correct id member, Nat.add_lt_add_iff_right]
  refine Finset.card_lt_card ((Finset.ssubset_iff_of_subset ?_).2 ⟨ancestor, ?_, ?_⟩)
  · intro x higher
    rw [mem_calculateMemPoolAncestors listed] at higher
    exact (mem_calculateMemPoolAncestors member).2 (Relation.TransGen.trans above higher)
  · exact (mem_calculateMemPoolAncestors member).2 above
  · rw [mem_calculateMemPoolAncestors listed]
    exact not_isAncestor_self ancestor

section OfEntries

variable (computeHash : CTransaction → H256) (default : CTxMemPoolEntry)
  (entries : List CTxMemPoolEntry)

def entryOf (id : H256) : CTxMemPoolEntry :=
  (entries.find? fun e => computeHash e.tx == id).getD default

def parentsOf (id : H256) : Finset H256 :=
  (((entryOf computeHash default entries id).tx.vin.map fun txin => txin.prevout.hash).toFinset).filter
    (· ∈ entries.map fun e => computeHash e.tx)

variable {computeHash default entries}

theorem entryOf_of_mem (listed : id ∈ entries.map fun e => computeHash e.tx) :
    entryOf computeHash default entries id ∈ entries ∧
      computeHash (entryOf computeHash default entries id).tx = id := by
  obtain ⟨e, member, same⟩ := mem_map.1 listed
  unfold entryOf
  cases search : entries.find? fun e => computeHash e.tx == id with
  | none => exact absurd same (by simpa using find?_eq_none.1 search e member)
  | some e' => exact ⟨mem_of_find?_eq_some search, by simpa using find?_some search⟩

theorem mem_parentsOf :
    parent ∈ parentsOf computeHash default entries child ↔
      parent ∈ (entries.map fun e => computeHash e.tx) ∧
        ∃ txin ∈ (entryOf computeHash default entries child).tx.vin, txin.prevout.hash = parent := by
  simp only [parentsOf, Finset.mem_filter, mem_toFinset, mem_map]
  exact and_comm

def ofEntries (computeHash : CTransaction → H256) (default : CTxMemPoolEntry)
    (entries : List CTxMemPoolEntry) (order : H256 → Nat)
    (nodup : (entries.map fun e => computeHash e.tx).Nodup)
    (acyclic : ∀ e ∈ entries, ∀ txin ∈ e.tx.vin,
      order txin.prevout.hash < order (computeHash e.tx)) : CTxMemPool where
  mapTx := entries.map fun e => computeHash e.tx
  entry := entryOf computeHash default entries
  computeHash
  getMemPoolParents := parentsOf computeHash default entries
  getMemPoolChildren := fun id => (entries.map fun e => computeHash e.tx).toFinset.filter fun child =>
    id ∈ parentsOf computeHash default entries child
  nodup
  hash_eq := fun _ listed => (entryOf_of_mem listed).2
  mem_parents := fun _ _ _ => mem_parentsOf
  mem_children := by
    intro parent child
    simp only [Finset.mem_filter, List.mem_toFinset]
  acyclic := by
    refine ⟨order, fun child listed parent isParent => ?_⟩
    obtain ⟨_, txin, spent, rfl⟩ := mem_parentsOf.1 isParent
    have := acyclic _ (entryOf_of_mem listed).1 txin spent
    rwa [(entryOf_of_mem listed).2] at this

end OfEntries

end CTxMemPool
end Artax
