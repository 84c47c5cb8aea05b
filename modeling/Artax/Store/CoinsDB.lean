import Artax.Store.CoinsCache

/-!
# The coins database

`CCoinsViewDB` and the batches of `BatchWrite`, between which the process may stop: the first names
the tips the database moves between, the last removes that mark. In between every coin is as it was
or as it is to be.
-/

namespace Artax

open List
open Util (CacheEntry)

inductive DbOp
  | eraseBestBlock
  | writeBestBlock (hash : H256)
  | eraseHeadBlocks
  | writeHeadBlocks (hashes : List H256)
  | erase (outpoint : COutPoint)
  | write (outpoint : COutPoint) (c : Coin)
  deriving DecidableEq, Repr

abbrev CCoinsMap := List (COutPoint × CacheEntry Coin)

/-- `CCoinsViewDB`: the records of the coins, `DB_BEST_BLOCK` and `DB_HEAD_BLOCKS`. -/
structure CCoinsViewDB where
  coins : CoinsView
  bestBlock : Option H256
  headBlocks : Option (List H256)

namespace CCoinsViewDB

variable (db : CCoinsViewDB)

/-- `CCoinsViewDB::GetBestBlock`. -/
def getBestBlock : H256 := db.bestBlock.getD 0

/-- `CCoinsViewDB::GetHeadBlocks`. -/
def getHeadBlocks : List H256 := db.headBlocks.getD []

def apply : DbOp → CCoinsViewDB
  | .eraseBestBlock => { db with bestBlock := none }
  | .writeBestBlock hash => { db with bestBlock := some hash }
  | .eraseHeadBlocks => { db with headBlocks := none }
  | .writeHeadBlocks hashes => { db with headBlocks := some hashes }
  | .erase outpoint => { db with coins := Function.update db.coins outpoint none }
  | .write outpoint c => { db with coins := Function.update db.coins outpoint (some c) }

def writeBatch (batch : List DbOp) : CCoinsViewDB := batch.foldl apply db

def stopped (batches : List (List DbOp)) (k : Nat) : CCoinsViewDB :=
  (batches.take k).foldl writeBatch db

def entryOps (p : COutPoint × CacheEntry Coin) : List DbOp :=
  if p.2.dirty then
    let c := p.2.value.getD .empty
    if c.isSpent then [.erase p.1] else [.write p.1 c]
  else []

/-- The loop of `BatchWrite` over the entries. A batch is written when its size estimate is over the
limit, and what is left is written last. -/
def writeEntries (full : List DbOp → Bool) (hashBlock : H256) :
    CCoinsMap → List DbOp → List (List DbOp)
  | [], batch => [batch ++ [.eraseHeadBlocks, .writeBestBlock hashBlock]]
  | p :: rest, batch =>
    let batch := batch ++ entryOps p
    if full batch then batch :: writeEntries full hashBlock rest []
    else writeEntries full hashBlock rest batch

/-- The tip that `BatchWrite` moves from, or the one an unfinished move began at; no result if that
was to another tip. -/
def oldTip (hashBlock : H256) : Option H256 :=
  if db.getBestBlock = 0 then
    match db.getHeadBlocks with
    | [head, old] => if head = hashBlock then some old else none
    | _ => some 0
  else some db.getBestBlock

/-- `CCoinsViewDB::BatchWrite`. -/
def batchWrite (full : List DbOp → Bool) (db : CCoinsViewDB) (mapCoins : CCoinsMap)
    (hashBlock : H256) : Option (List (List DbOp)) :=
  if hashBlock = 0 then none
  else (db.oldTip hashBlock).map fun old =>
    writeEntries full hashBlock mapCoins [.eraseBestBlock, .writeHeadBlocks [hashBlock, old]]

def applyEntry (coins : CoinsView) (p : COutPoint × CacheEntry Coin) : CoinsView :=
  if p.2.dirty then Function.update coins p.1 (p.2.value.filter fun c => !c.isSpent) else coins

variable {db : CCoinsViewDB} {full : List DbOp → Bool} {mapCoins : CCoinsMap} {hashBlock old : H256}
  {batch : List DbOp} {batches : List (List DbOp)} {coins : CoinsView}

theorem stopped_eq (db : CCoinsViewDB) (batches : List (List DbOp)) (k : Nat) :
    db.stopped batches k = (batches.take k).flatten.foldl apply db := by
  rw [foldl_flatten]
  rfl

theorem foldl_entryOps (db : CCoinsViewDB) (p : COutPoint × CacheEntry Coin) :
    (entryOps p).foldl apply db = { db with coins := applyEntry db.coins p } := by
  obtain ⟨outpoint, value, dirty, fresh⟩ := p
  cases dirty with
  | false => rfl
  | true =>
    cases value with
    | none => rfl
    | some c => cases spent : c.isSpent <;> simp [entryOps, applyEntry, apply, spent, Option.filter]

theorem foldl_flatMap_entryOps (db : CCoinsViewDB) (mapCoins : CCoinsMap) :
    (mapCoins.flatMap entryOps).foldl apply db =
      { db with coins := mapCoins.foldl applyEntry db.coins } := by
  induction mapCoins generalizing db with
  | nil => rfl
  | cons p rest ih => rw [flatMap_cons, foldl_append, foldl_entryOps, ih, foldl_cons]

theorem flatten_writeEntries : (writeEntries full hashBlock mapCoins batch).flatten =
    batch ++ mapCoins.flatMap entryOps ++ [.eraseHeadBlocks, .writeBestBlock hashBlock] := by
  induction mapCoins generalizing batch with
  | nil => simp [writeEntries]
  | cons p rest ih =>
    rw [writeEntries]
    split
    · rw [flatten_cons, ih]
      simp
    · rw [ih]
      simp

theorem flatten_take_writeEntries {k : Nat} (some : 0 < k)
    (short : k < (writeEntries full hashBlock mapCoins batch).length) :
    ∃ m, ((writeEntries full hashBlock mapCoins batch).take k).flatten =
      batch ++ (mapCoins.take m).flatMap entryOps := by
  induction mapCoins generalizing batch k with
  | nil =>
    simp [writeEntries] at short
    omega
  | cons p rest ih =>
    rw [writeEntries] at short ⊢
    split at short
    · obtain ⟨k, rfl⟩ := Nat.exists_eq_add_of_lt some
      rw [Nat.zero_add] at *
      rw [if_pos ‹_›, take_succ_cons, flatten_cons]
      rw [length_cons, Nat.add_lt_add_iff_right] at short
      rcases Nat.eq_zero_or_pos k with rfl | more
      · exact ⟨1, by simp⟩
      · obtain ⟨m, taken⟩ := ih more short
        exact ⟨m + 1, by simp [taken]⟩
    · obtain ⟨m, taken⟩ := ih some short
      rw [if_neg ‹_›, taken]
      exact ⟨m + 1, by simp⟩

theorem foldl_applyEntry_of_notMem {outpoint : COutPoint}
    (other : outpoint ∉ mapCoins.map Prod.fst) : mapCoins.foldl applyEntry coins outpoint = coins outpoint := by
  induction mapCoins generalizing coins with
  | nil => rfl
  | cons p rest ih =>
    rw [map_cons, mem_cons, not_or] at other
    rw [foldl_cons, ih other.2]
    unfold applyEntry
    split
    · exact Function.update_of_ne other.1 ..
    · rfl

theorem foldl_applyEntry_take (once : (mapCoins.map Prod.fst).Nodup) (m : Nat) (coins : CoinsView)
    (outpoint : COutPoint) :
    (mapCoins.take m).foldl applyEntry coins outpoint = coins outpoint ∨
      (mapCoins.take m).foldl applyEntry coins outpoint = mapCoins.foldl applyEntry coins outpoint := by
  by_cases written : outpoint ∈ (mapCoins.take m).map Prod.fst
  · right
    rw [← take_append_drop m mapCoins, map_append] at once
    have notLater := (nodup_append'.1 once).2.2 written
    conv_rhs => rw [← take_append_drop m mapCoins, foldl_append]
    exact (foldl_applyEntry_of_notMem notLater).symm
  · exact .inl (foldl_applyEntry_of_notMem written)

theorem stopped_of_length_le (written : db.batchWrite full mapCoins hashBlock = some batches) {k : Nat}
    (all : batches.length ≤ k) :
    db.stopped batches k = ⟨mapCoins.foldl applyEntry db.coins, some hashBlock, none⟩ := by
  unfold batchWrite at written
  split at written
  · cases written
  · obtain ⟨old, _, rfl⟩ := Option.map_eq_some_iff.1 written
    rw [stopped_eq, take_of_length_le all, flatten_writeEntries, foldl_append,
      foldl_append, foldl_flatMap_entryOps]
    rfl

theorem stopped_of_lt (written : db.batchWrite full mapCoins hashBlock = some batches)
    (tip : db.oldTip hashBlock = some old) {k : Nat} (first : 0 < k) (short : k < batches.length) :
    ∃ m, db.stopped batches k =
      ⟨(mapCoins.take m).foldl applyEntry db.coins, none, some [hashBlock, old]⟩ := by
  unfold batchWrite at written
  split at written
  · cases written
  · obtain ⟨_, found, rfl⟩ := Option.map_eq_some_iff.1 written
    obtain rfl := Option.some.inj (found.symm.trans tip)
    obtain ⟨m, taken⟩ := flatten_take_writeEntries first short
    refine ⟨m, ?_⟩
    rw [stopped_eq, taken, foldl_append, foldl_flatMap_entryOps]
    rfl

theorem exists_batchWrite (nonnull : hashBlock ≠ 0) (tip : db.oldTip hashBlock = some old) :
    ∃ batches, db.batchWrite full mapCoins hashBlock = some batches := by
  rw [batchWrite, if_neg nonnull, tip]
  exact ⟨_, rfl⟩

end CCoinsViewDB

namespace CCoinsViewCache

/-- `Flush`. -/
def flush (view : CCoinsViewCache) (db : CCoinsViewDB) : Option CCoinsViewDB :=
  if view.hashBlock = 0 then none
  else (db.oldTip view.hashBlock).map fun _ =>
    ⟨view.cacheCoins.writeBack, some view.hashBlock, none⟩

end CCoinsViewCache
end Artax
