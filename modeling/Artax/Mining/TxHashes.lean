import Artax.Primitives.Transaction

/-!
# The hash vector of the pool

`vTxHashes` lists the witness hashes of the pool with iterators to their entries, and every entry knows
its place in it. It mirrors the pool until an entry is added once more, or `clear` empties a pool with
entries: the vector then keeps iterators to what is gone.
-/

namespace Artax
open Function Option

structure HashedEntry where
  witnessHash : H256
  node : Nat
  vTxHashesIdx : Nat
  deriving DecidableEq, Repr

/-- An iterator of `mapTx`: a transaction hash, and the node allocated for its entry. -/
structure TxIter where
  hash : H256
  node : Nat
  deriving DecidableEq, Repr

/-- What `CTxMemPool` keeps for compact blocks, and how many nodes it has allocated. -/
structure HashedPool where
  mapTx : H256 → Option HashedEntry := fun _ => none
  vTxHashes : List (H256 × TxIter) := []
  nodes : Nat := 0

inductive PoolCall
  | addUnchecked (hash witnessHash : H256)
  | removeUnchecked (hash : H256)
  | clear
  deriving DecidableEq, Repr

namespace HashedPool

variable (p : HashedPool)

def deref (it : TxIter) : Option HashedEntry :=
  (p.mapTx it.hash).filter fun entry => entry.node == it.node

/-- `CTxMemPool::addUnchecked`. -/
def addUnchecked (hash witnessHash : H256) (p : HashedPool) : HashedPool :=
  -- `insert` gives the entry that is there already, if there is one
  let entry := (p.mapTx hash).getD ⟨witnessHash, p.nodes, 0⟩
  { mapTx := update p.mapTx hash (some { entry with vTxHashesIdx := p.vTxHashes.length })
    vTxHashes := p.vTxHashes ++ [(entry.witnessHash, ⟨hash, entry.node⟩)]
    nodes := p.nodes + 1 }

/-- `removeUnchecked`, with `none` where there is no entry, or a place or an iterator is not valid. -/
def removeUnchecked (hash : H256) (p : HashedPool) : Option HashedPool :=
  (p.mapTx hash).bind fun it =>
    if 1 < p.vTxHashes.length then
      p.vTxHashes.getLast?.bind fun back =>
        (p.deref back.2).bind fun moved =>
          if it.vTxHashesIdx < p.vTxHashes.length then
            let mapTx := update p.mapTx back.2.hash
              (some { moved with vTxHashesIdx := it.vTxHashesIdx })
            some { p with
              mapTx := update mapTx hash none
              vTxHashes := (p.vTxHashes.set it.vTxHashesIdx back).dropLast }
          else none
    else some { p with mapTx := update p.mapTx hash none, vTxHashes := [] }

/-- `CTxMemPool::_clear`. -/
def clear : HashedPool := { p with mapTx := fun _ => none }

def perform : PoolCall → Option HashedPool
  | .addUnchecked hash witnessHash => some (p.addUnchecked hash witnessHash)
  | .removeUnchecked hash => p.removeUnchecked hash
  | .clear => some p.clear

/-- A place of the vector has a pair exactly if it is that of an entry which knows the place. -/
def Mirrors : Prop :=
  ∀ (i : Nat) w hash node, p.vTxHashes[i]? = some (w, ⟨hash, node⟩) ↔ p.mapTx hash = some ⟨w, node, i⟩

/-- Only new transactions are added, entries removed, and empty pools cleared. -/
def Regular : PoolCall → Prop
  | .addUnchecked hash _ => p.mapTx hash = none
  | .removeUnchecked hash => (p.mapTx hash).isSome
  | .clear => ∀ hash, p.mapTx hash = none

def MirroredThroughout : HashedPool → List PoolCall → Prop
  | _, [] => True
  | p, call :: rest => ∃ p', p.perform call = some p' ∧ p'.Mirrors ∧ p'.MirroredThroughout rest

def RegularThroughout : HashedPool → List PoolCall → Prop
  | _, [] => True
  | p, call :: rest =>
    p.Regular call ∧ ∀ p', p.perform call = some p' → p'.RegularThroughout rest

namespace Mirrors

variable {p : HashedPool} (mirrors : p.Mirrors) {hash : H256}
include mirrors

theorem addUnchecked_iff (witnessHash : H256) :
    (p.addUnchecked hash witnessHash).Mirrors ↔ p.mapTx hash = none := by
  unfold HashedPool.addUnchecked
  constructor
  · intro twice
    cases present : p.mapTx hash with
    | none => rfl
    | some entry =>
      -- the old place still has the pair, which the entry does not know any more
      have own := (mirrors _ _ _ _).2 present
      have within := (List.getElem?_eq_some_iff.1 own).1
      rw [present] at twice
      have known := (twice entry.vTxHashesIdx entry.witnessHash hash entry.node).1
        ((List.getElem?_append_left within).trans own)
      simp only [update_self, getD_some, some.injEq, HashedEntry.mk.injEq] at known
      omega
  · intro fresh i w other node
    have old := mirrors i w other node
    rw [fresh, List.getElem?_append, List.getElem?_singleton]
    simp only [getD_none, update_apply]
    grind

theorem removeUnchecked (present : (p.mapTx hash).isSome) :
    ∃ p', p.removeUnchecked hash = some p' ∧ p'.Mirrors := by
  obtain ⟨entry, found⟩ := isSome_iff_exists.1 present
  have own := (mirrors _ _ _ _).2 found
  have within := (List.getElem?_eq_some_iff.1 own).1
  rw [HashedPool.removeUnchecked, found, bind_some]
  by_cases many : 1 < p.vTxHashes.length
  · obtain ⟨⟨w, hash', node'⟩, last⟩ : ∃ back, p.vTxHashes[p.vTxHashes.length - 1]? = some back :=
      ⟨_, List.getElem?_eq_getElem (by omega)⟩
    have moved := (mirrors _ _ _ _).1 last
    have points : p.deref ⟨hash', node'⟩ = some ⟨w, node', p.vTxHashes.length - 1⟩ := by
      simp [deref, moved]
    rw [if_pos many, List.getLast?_eq_getElem?, last, bind_some, points, bind_some, if_pos within]
    refine ⟨_, rfl, fun i w' other node => ?_⟩
    have old := mirrors i w' other node
    rw [List.getElem?_dropLast, List.length_set, List.getElem?_set]
    dsimp only
    simp only [update_apply]
    grind
  · rw [if_neg many]
    refine ⟨_, rfl, fun i w other node => ?_⟩
    have old := mirrors i w other node
    simp only [update_apply]
    grind

theorem clear_iff : p.clear.Mirrors ↔ ∀ hash, p.mapTx hash = none := by
  constructor
  · intro cleared hash
    cases present : p.mapTx hash with
    | none => rfl
    | some entry => cases (cleared _ _ _ _).1 ((mirrors _ _ _ _).2 present)
  · intro empty i w hash node
    have same := mirrors i w hash node
    rwa [empty] at same

theorem step_iff (call : PoolCall) :
    (∃ p', p.perform call = some p' ∧ p'.Mirrors) ↔ p.Regular call := by
  cases call with
  | addUnchecked hash witnessHash =>
    simp only [perform, some.injEq, exists_eq_left']
    exact mirrors.addUnchecked_iff witnessHash
  | removeUnchecked hash =>
    refine ⟨fun ⟨p', removed, _⟩ => ?_, mirrors.removeUnchecked⟩
    obtain ⟨entry, found, _⟩ := bind_eq_some_iff.1 removed
    exact isSome_of_eq_some found
  | clear =>
    simp only [perform, some.injEq, exists_eq_left']
    exact mirrors.clear_iff

theorem throughout_iff (calls : List PoolCall) :
    p.MirroredThroughout calls ↔ p.RegularThroughout calls := by
  induction calls generalizing p with
  | nil => exact Iff.rfl
  | cons call rest ih =>
    constructor
    · rintro ⟨p', performed, still, later⟩
      refine ⟨(mirrors.step_iff call).1 ⟨p', performed, still⟩, fun other again => ?_⟩
      cases performed.symm.trans again
      exact (ih still).1 later
    · rintro ⟨regular, later⟩
      obtain ⟨p', performed, still⟩ := (mirrors.step_iff call).2 regular
      exact ⟨p', performed, still, (ih still).2 (later p' performed)⟩

end Mirrors

theorem mirrors_empty : Mirrors {} := by simp [Mirrors]

/-- The vector mirrors the pool after each of a sequence of calls from an empty pool exactly when all
of them are regular. -/
theorem hash_vector_mirrors_iff (calls : List PoolCall) :
    MirroredThroughout {} calls ↔ RegularThroughout {} calls :=
  mirrors_empty.throughout_iff calls

/-- After `clear` the vector still has the pair of an entry that is gone. -/
theorem cleared_vector_dangles : ¬MirroredThroughout {} [.addUnchecked 1 2, .clear] := by
  rw [mirrors_empty.throughout_iff]
  rintro ⟨_, later⟩
  cases (later _ rfl).1 1

end HashedPool

end Artax
