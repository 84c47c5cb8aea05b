import Mathlib.Algebra.Order.BigOperators.Group.List
import Artax.Store.BlockIndexDB

/-!
# The height index

With `fLogEvents` on, `ConnectBlock` records under a key of height and address the transactions that
touched the address, and `DisconnectBlock` erases the keys of the height. The scan of
`ReadHeightIndex` sees what is recorded for the active chain and nothing else.
-/

namespace Artax

open Address List Prod
open Util (OrderedMap)
open Util.OrderedMap Util.Serial

def writeHashes (hashes : List H256) : Bytes :=
  writeCompactSize hashes.length ++ hashes.flatMap (CScript.littleEndian 32)

def readHashList : Nat → Reader (List H256)
  | 0 => pure []
  | size + 1 => do
    let hash ← readNumber 32
    let rest ← readHashList size
    return hash :: rest

def readHashes : Reader (List H256) := do
  let size ← (BlockTreeDB.readCompactSize : Reader Nat)
  readHashList size

theorem reads_hashList {hashes : List H256} (fits : ∀ hash ∈ hashes, hash < 2 ^ 256) :
    Reads (readHashList hashes.length) (hashes.flatMap (CScript.littleEndian 32)) hashes := by
  induction hashes with
  | nil => exact reads_pure []
  | cons hash rest ih =>
    rw [forall_mem_cons] at fits
    rw [length_cons, readHashList, flatMap_cons]
    have later : Reads (readHashList rest.length >>= fun rest => pure (hash :: rest))
        (rest.flatMap (CScript.littleEndian 32) ++ []) (hash :: rest) :=
      (ih fits.2).bind (reads_pure _)
    rw [append_nil] at later
    exact (reads_hash fits.1).bind later

theorem reads_hashes {hashes : List H256} (fits : ∀ hash ∈ hashes, hash < 2 ^ 256)
    (small : hashes.length ≤ 0x10000000) : Reads readHashes (writeHashes hashes) hashes :=
  (reads_compactSize small).bind (reads_hashList fits)

namespace BlockTreeDB

/-- `CHeightTxIndexKey::Serialize`. -/
def heightKey (height : UInt32) (address : Address) : Bytes :=
  HeightIndexKey.bytes ⟨heightIndexTag, height, address⟩

/-- `CHeightTxIndexIteratorKey`. -/
def heightSeek (height : UInt32) : Bytes := heightIndexTag :: bigEndian 4 height.toNat

variable (db : BlockTreeDB)

/-- `WriteHeightIndex`. -/
def writeHeightIndex (height : UInt32) (address : Address) (hash : List H256) : BlockTreeDB :=
  db.insert (heightKey height address) (writeHashes hash)

def readEntries (nChainHeight high minconf : Int) (addresses : List Address) :
    List (Bytes × Bytes) → Int → Int × List (List H256)
  | [], curheight => (curheight, [])
  | (bytes, value) :: rest, curheight =>
    match readHeightIndexKey bytes with
    | none => (curheight, [])
    | some key =>
      let nextHeight : Int := key.height.toNat
      if key.tag ≠ heightIndexTag then (curheight, [])
      else if -1 < high ∧ high < nextHeight then (curheight, [])
      else if 0 < minconf ∧ nChainHeight - nextHeight < minconf then (curheight, [])
      else if addresses ≠ [] ∧ key.address ∉ addresses then
        readEntries nChainHeight high minconf addresses rest nextHeight
      else match readHashes value with
        | none => (nextHeight, [])
        | some (hashesTx, _) =>
          let later := readEntries nChainHeight high minconf addresses rest nextHeight
          (later.1, hashesTx :: later.2)

/-- `ReadHeightIndex`. -/
def readHeightIndex (nChainHeight low high minconf : Int) (addresses : List Address) :
    Int × List (List H256) :=
  if (high < low ∧ -1 < high) ∨ (high = 0 ∧ low = 0) ∨ high < -1 ∨ low < 0 then (-1, [])
  else readEntries nChainHeight high minconf addresses
    (db.iterate (heightSeek (UInt32.ofNat low.toNat))) 0

def heightKeysToErase (height : UInt32) (entries : List (Bytes × Bytes)) : List Bytes :=
  (entries.takeWhile fun entry => (readHeightIndexKey entry.1).any fun key =>
    decide (key.tag = heightIndexTag) && decide (key.height = height)).filterMap fun entry =>
      (readHeightIndexKey entry.1).map HeightIndexKey.bytes

/-- `EraseHeightIndex`. -/
def eraseHeightIndex (height : UInt32) : BlockTreeDB :=
  (heightKeysToErase height (db.iterate (heightSeek height))).foldl erase db

/-! ## Keys in order -/

variable {height height' low : UInt32} {address address' : Address} {db : BlockTreeDB}
  {nChainHeight high minconf : Int}

theorem heightKey_lt_iff :
    heightKey height address < heightKey height' address' ↔
      height < height' ∨ height = height' ∧ address < address' := by
  have heights : bigEndian 4 height.toNat < bigEndian 4 height'.toNat ↔ height < height' := by
    rw [bigEndian_lt_iff height.toNat_lt height'.toNat_lt, UInt32.lt_iff_toNat_lt]
  have addresses : asBytes address < asBytes address' ↔ address < address' :=
    bigEndian_lt_iff address.isLt address'.isLt
  have same : bigEndian 4 height.toNat = bigEndian 4 height'.toNat ↔ height = height' := by
    constructor
    · intro equal
      have decoded := congrArg ofBigEndian equal
      rw [ofBigEndian_bigEndian _ _ height.toNat_lt, ofBigEndian_bigEndian _ _ height'.toNat_lt]
        at decoded
      exact UInt32.toNat_inj.1 decoded
    · rintro rfl
      rfl
  change heightIndexTag :: (bigEndian 4 height.toNat ++ 20 :: asBytes address) <
    heightIndexTag :: (bigEndian 4 height'.toNat ++ 20 :: asBytes address') ↔ _
  rw [cons_lt_cons_iff, Util.append_lt_append_iff (by simp), cons_lt_cons_iff, heights,
    addresses, same]
  simp

theorem heightSeek_le_iff :
    heightSeek low ≤ heightKey height address ↔ low ≤ height := by
  rw [← not_lt, ← UInt32.not_lt, not_iff_not]
  change heightIndexTag :: (bigEndian 4 height.toNat ++ 20 :: asBytes address) <
    heightIndexTag :: bigEndian 4 low.toNat ↔ _
  rw [← append_nil (bigEndian 4 low.toNat), cons_lt_cons_iff,
    Util.append_lt_append_iff (by simp), bigEndian_lt_iff height.toNat_lt low.toNat_lt,
    UInt32.lt_iff_toNat_lt]
  simp

theorem readHeightIndexKey_heightKey (height : UInt32) (address : Address) :
    readHeightIndexKey (heightKey height address) = some ⟨heightIndexTag, height, address⟩ := by
  have four : (bigEndian 4 height.toNat).length = 4 := bigEndian_length 4 _
  change readHeightIndexKey
    (heightIndexTag :: (bigEndian 4 height.toNat ++ 20 :: asBytes address)) = _
  rw [readHeightIndexKey, if_neg (by simp), drop_left' four, take_left' four,
    ofBigEndian_bigEndian _ _ height.toNat_lt, UInt32.ofNat_toNat]
  have twenty : (asBytes address).take 20 = asBytes address :=
    take_of_length_le (Nat.le_of_eq (asBytes_length address))
  simp [readCompactSize, twenty, ofBytes_asBytes]

theorem heightKey_injective (same : heightKey height address = heightKey height' address') :
    height = height' ∧ address = address' := by
  have read := readHeightIndexKey_heightKey height address
  rw [same, readHeightIndexKey_heightKey, Option.some.injEq, HeightIndexKey.mk.injEq] at read
  exact ⟨read.2.1.symm, read.2.2.symm⟩

/-! ## Scans -/

structure HeightEntry where
  height : UInt32
  address : Address
  hashes : List H256

def HeightEntry.stored (entry : HeightEntry) : Bytes × Bytes :=
  (heightKey entry.height entry.address, writeHashes entry.hashes)

/-- The height index in the store is a list of entries. -/
def HoldsEntries (db : BlockTreeDB) (rows : List HeightEntry) : Prop :=
  ∀ key value, key.head? = some heightIndexTag →
    (db.find? key = some value ↔ ∃ row ∈ rows, row.stored = (key, value))

def keyPasses (pass : UInt32 → Bool) (entry : Bytes × Bytes) : Bool :=
  (readHeightIndexKey entry.1).any fun key => decide (key.tag = heightIndexTag) && pass key.height

theorem keyPasses_stored (pass : UInt32 → Bool) (row : HeightEntry) :
    keyPasses pass row.stored = pass row.height := by
  simp [keyPasses, HeightEntry.stored, readHeightIndexKey_heightKey]

variable {rows : List HeightEntry}

/-- A scan that stops at the first height that does not pass sees the entries of those that pass, if
they reach down to where it starts. -/
theorem HoldsEntries.mem_scan_iff (holds : HoldsEntries db rows) {pass : UInt32 → Bool}
    (closed : ∀ height below, low ≤ below → below ≤ height → pass height → pass below)
    (entry : Bytes × Bytes) :
    entry ∈ (db.iterate (heightSeek low)).takeWhile (keyPasses pass) ↔
      ∃ row ∈ rows, row.stored = entry ∧ low ≤ row.height ∧ pass row.height := by
  obtain ⟨key, value⟩ := entry
  rw [mem_takeWhile_iterate_iff, mem_entries_iff]
  constructor
  · rintro ⟨stored, reached, passes⟩
    have good := passes (key, value) ((db.mem_entries_iff _ _).2 stored) reached (le_refl _)
    obtain ⟨found, read, tests⟩ := (Option.any_eq_true _ _).1 good
    rw [Bool.and_eq_true, decide_eq_true_eq] at tests
    have tagged := head?_of_readHeightIndexKey read
    rw [tests.1] at tagged
    obtain ⟨row, member, same⟩ := (holds key value tagged).1 stored
    refine ⟨row, member, same, ?_, ?_⟩
    · rw [← congrArg fst same] at reached
      exact heightSeek_le_iff.1 reached
    · rwa [← same, keyPasses_stored] at good
  · rintro ⟨row, member, same, reached, passes⟩
    obtain ⟨rfl, rfl⟩ := mk.inj same
    refine ⟨(holds _ _ rfl).2 ⟨row, member, rfl⟩, heightSeek_le_iff.2 reached, ?_⟩
    rintro ⟨key, value⟩ listed above below
    -- between two keys of the index lie only keys of the index
    have tagged : key.head? = some heightIndexTag := Util.head?_of_between above below
    obtain ⟨other, otherMember, same⟩ :=
      (holds key value tagged).1 ((db.mem_entries_iff _ _).1 listed)
    obtain ⟨rfl, rfl⟩ := mk.inj same
    change keyPasses pass other.stored = true
    rw [keyPasses_stored]
    refine closed row.height _ (heightSeek_le_iff.1 above) ?_ passes
    rw [← not_lt, heightKey_lt_iff, not_or] at below
    exact UInt32.not_lt.1 below.1

/-- Entries by increasing height, and by increasing address at one height. -/
def InOrder (left right : HeightEntry) : Prop :=
  left.height < right.height ∨ left.height = right.height ∧ left.address < right.address

section

variable (holds : HoldsEntries db rows)
include holds

theorem HoldsEntries.scan_eq (ordered : rows.Pairwise InOrder) (low : UInt32) (pass : UInt32 → Bool)
    (closed : ∀ height below, low ≤ below → below ≤ height → pass height → pass below) :
    (db.iterate (heightSeek low)).takeWhile (keyPasses pass) =
      (rows.filter fun row => decide (low ≤ row.height) && pass row.height).map HeightEntry.stored := by
  have irreflexive : Std.Irrefl fun left right : Bytes × Bytes => left.1 < right.1 :=
    ⟨fun entry => lt_irrefl entry.1⟩
  have antisymmetric : Std.Antisymm fun left right : Bytes × Bytes => left.1 < right.1 :=
    ⟨fun _ _ less greater => absurd less (lt_asymm greater)⟩
  refine List.Pairwise.eq_of_mem_iff (r := fun left right => left.1 < right.1) ?_ ?_ fun entry => ?_
  · exact (db.sorted.sublist (dropWhile_sublist _)).sublist (takeWhile_sublist _)
  · exact (ordered.filter _).map _ fun left right => heightKey_lt_iff.2
  · rw [holds.mem_scan_iff closed]
    simp only [mem_map, mem_filter, Bool.and_eq_true, decide_eq_true_eq]
    constructor
    · rintro ⟨row, member, same, passes⟩
      exact ⟨row, ⟨member, passes⟩, same⟩
    · rintro ⟨row, ⟨member, passes⟩, same⟩
      exact ⟨row, member, same, passes⟩

theorem HoldsEntries.eraseHeightIndex (height : UInt32) :
    HoldsEntries (db.eraseHeightIndex height) (rows.filter fun row => decide (row.height ≠ height)) := by
  have closed : ∀ above below : UInt32, height ≤ below → below ≤ above →
      decide (above = height) → decide (below = height) := by
    intro above below low high same
    rw [decide_eq_true_eq] at same ⊢
    subst same
    exact UInt32.le_antisymm high low
  have erased (key : Bytes) : key ∈ heightKeysToErase height (db.iterate (heightSeek height)) ↔
      ∃ row ∈ rows, row.stored.1 = key ∧ row.height = height := by
    rw [heightKeysToErase, mem_filterMap]
    constructor
    · rintro ⟨entry, member, decoded⟩
      obtain ⟨row, listed, rfl, _, same⟩ := (holds.mem_scan_iff closed entry).1 member
      rw [HeightEntry.stored, readHeightIndexKey_heightKey] at decoded
      exact ⟨row, listed, Option.some.inj decoded, of_decide_eq_true same⟩
    · rintro ⟨row, listed, rfl, rfl⟩
      refine ⟨row.stored, (holds.mem_scan_iff closed _).2
        ⟨row, listed, rfl, UInt32.le_refl _, decide_eq_true rfl⟩, ?_⟩
      rw [HeightEntry.stored, readHeightIndexKey_heightKey]
      rfl
  intro key value tagged
  rw [BlockTreeDB.eraseHeightIndex, find?_foldl_erase]
  simp only [mem_filter, decide_eq_true_eq]
  split_ifs with gone
  · obtain ⟨row, _, rfl, same⟩ := (erased key).1 gone
    refine iff_of_false (by simp) ?_
    rintro ⟨other, ⟨_, different⟩, stored⟩
    have heights := (heightKey_injective (congrArg fst stored)).1
    exact different (heights.trans same)
  · rw [holds key value tagged]
    constructor
    · rintro ⟨row, member, stored⟩
      refine ⟨row, ⟨member, fun same => gone ?_⟩, stored⟩
      exact (erased key).2 ⟨row, member, congrArg fst stored, same⟩
    · rintro ⟨row, ⟨member, _⟩, stored⟩
      exact ⟨row, member, stored⟩

theorem HoldsEntries.writeHeightIndex {new : List HeightEntry}
    (distinct : (new.map fun row => row.stored.1).Nodup)
    (fresh : ∀ row ∈ new, ∀ old ∈ rows, old.stored.1 ≠ row.stored.1) :
    HoldsEntries (new.foldl (fun db row => db.writeHeightIndex row.height row.address row.hashes) db)
      (rows ++ new) := by
  intro key value tagged
  change (new.foldl (fun db row => db.insert row.stored.1 row.stored.2) db).find? key = _ ↔ _
  simp only [mem_append]
  by_cases written : key ∈ new.map fun row => row.stored.1
  · obtain ⟨row, member, rfl⟩ := mem_map.1 written
    rw [find?_foldl_insert_of_mem (fun row : HeightEntry => row.stored.1)
      (fun row => row.stored.2) new distinct db member, Option.some.injEq]
    constructor
    · rintro rfl
      exact ⟨row, .inr member, rfl⟩
    · rintro ⟨other, old | listed, stored⟩
      · exact absurd (congrArg fst stored) (fresh row member other old)
      · have keys : other.stored.1 = row.stored.1 := by rw [stored]
        have same : other = row := inj_on_of_nodup_map distinct listed member keys
        rw [same] at stored
        exact congrArg snd stored
  · rw [find?_foldl_insert_of_not_mem _ _ new db key written, holds key value tagged]
    constructor
    · rintro ⟨row, member, stored⟩
      exact ⟨row, .inl member, stored⟩
    · rintro ⟨row, member | listed, stored⟩
      · exact ⟨row, member, stored⟩
      · exact absurd (mem_map.2 ⟨row, listed, congrArg fst stored⟩) written

theorem HoldsEntries.writeStakeIndex (height : UInt32) (address : Address) :
    HoldsEntries (db.writeStakeIndex height address) rows := by
  intro key value tagged
  rw [BlockTreeDB.writeStakeIndex, find?_insert, if_neg]
  · exact holds key value tagged
  · rintro rfl
    rw [stakeKey, head?_cons] at tagged
    exact absurd tagged (by decide)

end

def heightPasses (nChainHeight high minconf : Int) (height : UInt32) : Bool :=
  !(decide (-1 < high ∧ high < (height.toNat : Int)) ||
    decide (0 < minconf ∧ nChainHeight - (height.toNat : Int) < minconf))

def addressPasses (addresses : List Address) (address : Address) : Bool :=
  !decide (addresses ≠ [] ∧ address ∉ addresses)

/-- The loop of `ReadHeightIndex` collects the values of the entries with an address it reports, up
to the first where it stops. -/
theorem readEntries_eq {addresses : List Address} {entries : List (Bytes × Bytes)} {curheight : Int}
    (scanned : entries.takeWhile (keyPasses (heightPasses nChainHeight high minconf)) =
      rows.map HeightEntry.stored)
    (readable : ∀ row ∈ rows, readHashes (writeHashes row.hashes) = some (row.hashes, [])) :
    (readEntries nChainHeight high minconf addresses entries curheight).2 =
      (rows.filter fun row => addressPasses addresses row.address).map HeightEntry.hashes := by
  induction entries generalizing rows curheight with
  | nil =>
    obtain rfl : rows = [] := map_eq_nil_iff.1 scanned.symm
    rfl
  | cons entry rest ih =>
    cases passes : keyPasses (heightPasses nChainHeight high minconf) entry with
    | false =>
      rw [takeWhile_cons_of_neg (by simp [passes])] at scanned
      obtain rfl : rows = [] := map_eq_nil_iff.1 scanned.symm
      obtain ⟨bytes, value⟩ := entry
      simp only [readEntries]
      cases read : readHeightIndexKey bytes with
      | none => rfl
      | some key =>
        simp only [keyPasses, read, Option.any_some, Bool.and_eq_false_iff, decide_eq_false_iff_not,
          heightPasses, Bool.not_eq_false', Bool.or_eq_true, decide_eq_true_eq] at passes
        dsimp only
        by_cases tagged : key.tag = heightIndexTag
        · rw [if_neg (not_not.2 tagged)]
          rcases passes.resolve_left (not_not.2 tagged) with above | recent
          · rw [if_pos above]
            rfl
          · rw [if_pos recent]
            split_ifs <;> rfl
        · rw [if_pos tagged]
          rfl
    | true =>
      rw [takeWhile_cons_of_pos passes] at scanned
      obtain ⟨row, rows, rfl⟩ : ∃ row rows', rows = row :: rows' := by
        cases rows with
        | nil => cases scanned
        | cons row rows => exact ⟨row, rows, rfl⟩
      rw [map_cons, cons.injEq] at scanned
      obtain ⟨rfl, scanned⟩ := scanned
      rw [forall_mem_cons] at readable
      rw [keyPasses_stored, heightPasses, Bool.not_eq_true', Bool.or_eq_false_iff,
        decide_eq_false_iff_not, decide_eq_false_iff_not] at passes
      simp only [HeightEntry.stored, readEntries, readHeightIndexKey_heightKey, readable.1,
        if_neg passes.1, if_neg passes.2, ih scanned readable.2]
      rw [if_neg (by simp)]
      by_cases wanted : addresses ≠ [] ∧ row.address ∉ addresses
      · rw [if_pos wanted, filter_cons_of_neg (by simp [addressPasses, wanted])]
        exact ih scanned readable.2
      · rw [if_neg wanted, filter_cons_of_pos (by simp only [addressPasses, wanted]; rfl),
          map_cons]

theorem heightPasses_of_le {below : UInt32} (lower : below ≤ height)
    (passes : heightPasses nChainHeight high minconf height) :
    heightPasses nChainHeight high minconf below := by
  rw [UInt32.le_iff_toNat_le] at lower
  simp only [heightPasses, Bool.not_eq_true', Bool.or_eq_false_iff, decide_eq_false_iff_not]
    at passes ⊢
  omega

end BlockTreeDB

/-! ## The index of the active chain -/

/-- What `ConnectBlock` sees of a transaction with contract outputs: its hash and the address each
execution reports. -/
structure TxExecutions where
  hash : H256
  newAddresses : List Address

def recordHashes (indexes : OrderedMap Address (List H256)) (hash : H256)
    (newAddresses : List Address) : OrderedMap Address (List H256) :=
  newAddresses.foldl (fun indexes key =>
    indexes.insert key ((indexes.find? key).getD [] ++ [hash])) indexes

def heightIndexes (txs : List TxExecutions) : OrderedMap Address (List H256) :=
  txs.foldl (fun indexes tx => recordHashes indexes tx.hash tx.newAddresses) OrderedMap.empty

def hashesFor (txs : List TxExecutions) (address : Address) : List H256 :=
  txs.flatMap fun tx => List.replicate (tx.newAddresses.count address) tx.hash

theorem getD_find?_recordHashes (indexes : OrderedMap Address (List H256)) (hash : H256)
    (newAddresses : List Address) (address : Address) :
    ((recordHashes indexes hash newAddresses).find? address).getD [] =
      (indexes.find? address).getD [] ++ replicate (newAddresses.count address) hash := by
  induction newAddresses generalizing indexes with
  | nil => simp [recordHashes]
  | cons key rest ih =>
    rw [recordHashes, foldl_cons]
    refine (ih _).trans ?_
    rw [find?_insert]
    by_cases same : address = key
    · subst same
      rw [if_pos rfl, count_cons_self, Option.getD_some, append_assoc]
      rfl
    · rw [if_neg same, count_cons_of_ne (Ne.symm same)]

theorem getD_find?_heightIndexes (txs : List TxExecutions) (address : Address) :
    ((heightIndexes txs).find? address).getD [] = hashesFor txs address := by
  have all (indexes : OrderedMap Address (List H256)) :
      ((txs.foldl (fun indexes tx => recordHashes indexes tx.hash tx.newAddresses) indexes).find?
        address).getD [] = (indexes.find? address).getD [] ++ hashesFor txs address := by
    induction txs generalizing indexes with
    | nil => simp [hashesFor]
    | cons tx rest ih =>
      rw [foldl_cons, ih, getD_find?_recordHashes, append_assoc]
      rfl
  simpa [heightIndexes] using all OrderedMap.empty

/-- What `ConnectBlock` records of a block: its transactions with contract outputs, far fewer than a
vector may have entries, and its staker. -/
structure LoggedBlock where
  txs : List TxExecutions
  staker : Address
  hashes : ∀ tx ∈ txs, tx.hash < 2 ^ 256
  small : (txs.map fun tx => tx.newAddresses.length).sum ≤ 0x10000000

namespace LoggedBlock

open BlockTreeDB

def entriesAt (block : LoggedBlock) (height : UInt32) : List HeightEntry :=
  (heightIndexes block.txs).entries.map fun entry => ⟨height, entry.1, entry.2⟩

theorem entriesAt_inOrder (block : LoggedBlock) (height : UInt32) :
    (block.entriesAt height).Pairwise InOrder :=
  (heightIndexes block.txs).sorted.map _ fun _ _ less => .inr ⟨rfl, less⟩

variable {block : LoggedBlock} {height : UInt32} {row : HeightEntry}

section

variable (member : row ∈ block.entriesAt height)
include member

theorem height_of_mem_entriesAt : row.height = height := by
  obtain ⟨entry, _, rfl⟩ := mem_map.1 member
  rfl

theorem hashes_of_mem_entriesAt :
    row.hashes = hashesFor block.txs row.address := by
  obtain ⟨entry, listed, rfl⟩ := mem_map.1 member
  rw [← getD_find?_heightIndexes, ((heightIndexes block.txs).mem_entries_iff _ _).1 listed]
  rfl

theorem readHashes_of_mem_entriesAt :
    readHashes (writeHashes row.hashes) = some (row.hashes, []) := by
  rw [hashes_of_mem_entriesAt member]
  have fits : ∀ hash ∈ hashesFor block.txs row.address, hash < 2 ^ 256 := by
    intro hash listed
    obtain ⟨tx, inBlock, repeated⟩ := mem_flatMap.1 listed
    rw [(mem_replicate.1 repeated).2]
    exact block.hashes tx inBlock
  have short : (hashesFor block.txs row.address).length ≤ 0x10000000 := by
    refine Nat.le_trans ?_ block.small
    rw [hashesFor, length_flatMap]
    refine sum_le_sum fun tx _ => ?_
    rw [length_replicate]
    exact count_le_length
  have read := reads_hashes fits short []
  rwa [append_nil] at read

end

end LoggedBlock

/-- The blocks of the active chain above the genesis block, and the store. -/
structure LoggedChain where
  chain : List LoggedBlock
  db : BlockTreeDB

namespace LoggedChain

open BlockTreeDB LoggedBlock

def connect (s : LoggedChain) (block : LoggedBlock) : LoggedChain where
  chain := s.chain ++ [block]
  db :=
    let height := UInt32.ofNat (s.chain.length + 1)
    ((block.entriesAt height).foldl (fun db entry =>
      db.writeHeightIndex entry.height entry.address entry.hashes) s.db).writeStakeIndex height block.staker

def disconnect (s : LoggedChain) : LoggedChain where
  chain := s.chain.dropLast
  db :=
    let height := UInt32.ofNat s.chain.length
    (s.db.eraseHeightIndex height).eraseStakeIndex height

/-- The runs from an empty index on top of the genesis block. Heights are `int`. -/
inductive Reaches : LoggedChain → Prop
  | start {db : BlockTreeDB} (empty : ∀ key, key.head? = some heightIndexTag → db.find? key = none) :
      Reaches ⟨[], db⟩
  | connect {s : LoggedChain} (before : Reaches s) (block : LoggedBlock)
      (bound : s.chain.length + 1 < 2 ^ 31) : Reaches (s.connect block)
  | disconnect {s : LoggedChain} (before : Reaches s) (above : s.chain ≠ []) : Reaches s.disconnect

def recorded (chain : List LoggedBlock) : List HeightEntry :=
  chain.zipIdx.flatMap fun block => block.1.entriesAt (UInt32.ofNat (block.2 + 1))

theorem recorded_append (chain : List LoggedBlock) (block : LoggedBlock) :
    recorded (chain ++ [block]) =
      recorded chain ++ block.entriesAt (UInt32.ofNat (chain.length + 1)) := by
  simp [recorded, zipIdx_append]

variable {chain : List LoggedBlock} {row : HeightEntry} {s : LoggedChain}

theorem height_of_mem_recorded (member : row ∈ recorded chain) :
    row.height.toNat ≤ chain.length := by
  obtain ⟨⟨block, k⟩, listed, inBlock⟩ := mem_flatMap.1 member
  have inside := snd_lt_of_mem_zipIdx listed
  rw [height_of_mem_entriesAt inBlock, UInt32.toNat_ofNat']
  have := Nat.mod_le (k + 1) (2 ^ 32)
  omega

theorem lt_of_mem_recorded {old : HeightEntry} (bound : chain.length + 1 < 2 ^ 31)
    (member : old ∈ recorded chain) :
    old.height < UInt32.ofNat (chain.length + 1) := by
  rw [UInt32.lt_iff_toNat_lt, UInt32.toNat_ofNat_of_lt' (Nat.lt_trans bound (by decide))]
  exact Nat.lt_succ_of_le (height_of_mem_recorded member)

theorem recorded_inOrder (bound : chain.length < 2 ^ 31) :
    (recorded chain).Pairwise InOrder := by
  induction chain using reverseRecOn with
  | nil => exact List.Pairwise.nil
  | append_singleton chain block ih =>
    rw [length_append, length_singleton] at bound
    rw [recorded_append, pairwise_append]
    refine ⟨ih (Nat.lt_of_succ_lt bound), block.entriesAt_inOrder _, fun old listed new inBlock => ?_⟩
    refine .inl ?_
    rw [height_of_mem_entriesAt inBlock]
    exact lt_of_mem_recorded bound listed

theorem readHashes_of_mem_recorded (member : row ∈ recorded chain) :
    readHashes (writeHashes row.hashes) = some (row.hashes, []) := by
  obtain ⟨_, _, inBlock⟩ := mem_flatMap.1 member
  exact readHashes_of_mem_entriesAt inBlock

/-- What holds along every run: the store has the entries recorded for the active chain. -/
structure Indexed (s : LoggedChain) : Prop where
  bound : s.chain.length < 2 ^ 31
  holds : HoldsEntries s.db (recorded s.chain)

theorem Indexed.connect (indexed : Indexed s) (block : LoggedBlock)
    (bound : s.chain.length + 1 < 2 ^ 31) : Indexed (s.connect block) := by
  refine ⟨by simpa [LoggedChain.connect] using bound, ?_⟩
  rw [LoggedChain.connect, recorded_append]
  refine (indexed.holds.writeHeightIndex ?_ ?_).writeStakeIndex _ _
  · refine List.Pairwise.map _ (fun left right ordered => ?_) (block.entriesAt_inOrder _)
    exact ne_of_lt (heightKey_lt_iff.2 ordered)
  · intro row inBlock old listed same
    have heights := (heightKey_injective same).1
    rw [height_of_mem_entriesAt inBlock] at heights
    exact absurd heights (UInt32.ne_of_lt (lt_of_mem_recorded bound listed))

theorem Indexed.disconnect (indexed : Indexed s) (above : s.chain ≠ []) : Indexed s.disconnect := by
  obtain ⟨chain, db⟩ := s
  obtain ⟨chain, block, rfl⟩ := (eq_nil_or_concat' chain).resolve_left above
  have bound : chain.length + 1 < 2 ^ 31 := by simpa using indexed.bound
  have erased := indexed.holds.eraseHeightIndex (UInt32.ofNat (chain.length + 1))
  have kept : (recorded chain).filter
      (fun row => decide (row.height ≠ UInt32.ofNat (chain.length + 1))) = recorded chain :=
    filter_eq_self.2 fun row member =>
      decide_eq_true (UInt32.ne_of_lt (lt_of_mem_recorded bound member))
  have gone : (block.entriesAt (UInt32.ofNat (chain.length + 1))).filter
      (fun row => decide (row.height ≠ UInt32.ofNat (chain.length + 1))) = [] :=
    filter_eq_nil_iff.2 fun row member => by simp [height_of_mem_entriesAt member]
  rw [recorded_append, filter_append, kept, gone, append_nil] at erased
  refine ⟨?_, ?_⟩
  · rw [LoggedChain.disconnect, dropLast_concat]
    exact Nat.lt_of_succ_lt bound
  · simp only [LoggedChain.disconnect, dropLast_concat, eraseStakeIndex_eq, length_append,
      length_singleton]
    exact erased

theorem indexed_of_reaches (run : Reaches s) : Indexed s := by
  induction run with
  | start empty =>
    refine ⟨show 0 < 2 ^ 31 by decide, fun key value tagged => ?_⟩
    rw [empty key tagged]
    exact iff_of_false (by simp) (by simp [recorded])
  | connect _ block bound ih => exact ih.connect block bound
  | disconnect _ above ih => exact ih.disconnect above

/-- Whether an entry is asked for: its height is at least `low`, at most `high` unless that is `-1`,
with `minconf` blocks above it, and its address is one of `addresses` if there are any. -/
def Requested (nChainHeight low high minconf : Int) (addresses : List Address) (row : HeightEntry) :
    Prop :=
  low ≤ row.height.toNat ∧ (-1 < high → row.height.toNat ≤ high) ∧
    (0 < minconf → minconf ≤ nChainHeight - row.height.toNat) ∧
    (addresses ≠ [] → row.address ∈ addresses)

instance Requested.decidable (nChainHeight low high minconf : Int) (addresses : List Address)
    (row : HeightEntry) : Decidable (Requested nChainHeight low high minconf addresses row) :=
  inferInstanceAs (Decidable (_ ∧ _ ∧ _ ∧ _))

/-- On every run `ReadHeightIndex` returns what is recorded for the active chain and asked for, by
height and by address at one height. -/
theorem readHeightIndex_exact {s : LoggedChain} (run : Reaches s) {low high : Int} (minconf : Int)
    (addresses : List Address) (start : 0 ≤ low) (int : low < 2 ^ 31)
    (range : high = -1 ∨ max low 1 ≤ high) :
    (recorded s.chain).Pairwise InOrder ∧
      (s.db.readHeightIndex s.chain.length low high minconf addresses).2 =
        ((recorded s.chain).filter fun row =>
          decide (Requested s.chain.length low high minconf addresses row)).map HeightEntry.hashes := by
  have indexed := indexed_of_reaches run
  have ordered := recorded_inOrder indexed.bound
  refine ⟨ordered, ?_⟩
  have accepted : ¬((high < low ∧ -1 < high) ∨ (high = 0 ∧ low = 0) ∨ high < -1 ∨ low < 0) := by
    omega
  have scanned := indexed.holds.scan_eq ordered (UInt32.ofNat low.toNat)
    (heightPasses s.chain.length high minconf) fun _ _ _ lower => heightPasses_of_le lower
  rw [readHeightIndex, if_neg accepted,
    readEntries_eq scanned fun row member => readHashes_of_mem_recorded (mem_filter.1 member).1,
    filter_filter]
  congr 1
  refine filter_congr fun row _ => ?_
  rw [Bool.eq_iff_iff]
  have seek : UInt32.ofNat low.toNat ≤ row.height ↔ low ≤ row.height.toNat := by
    have fits : low.toNat < 2 ^ 32 := by omega
    rw [UInt32.le_iff_toNat_le, UInt32.toNat_ofNat_of_lt' fits]
    omega
  simp only [Bool.and_eq_true, decide_eq_true_eq]
  simp only [seek, addressPasses, heightPasses, Requested, Bool.not_eq_true', Bool.or_eq_false_iff,
    decide_eq_false_iff_not, not_and, not_lt, not_not]
  constructor
  · rintro ⟨address, low, high, recent⟩
    exact ⟨low, high, recent, address⟩
  · rintro ⟨low, high, recent, address⟩
    exact ⟨address, low, high, recent⟩

def threeCalls : LoggedBlock where
  txs := [⟨1, [7, 3]⟩, ⟨2, [7]⟩]
  staker := 5
  hashes := by decide
  small := by decide

/-- Of three blocks the last is disconnected; a read up to height two for address 7 returns one
vector for each of the two left. -/
theorem readHeightIndex_exact_reorganised :
    let s := (((LoggedChain.mk [] OrderedMap.empty).connect threeCalls).connect threeCalls).connect
      threeCalls |>.disconnect
    s.chain.length = 2 ∧
      (s.db.readHeightIndex s.chain.length 0 2 0 [7]).2 =
        ((recorded s.chain).filter fun row =>
          decide (Requested s.chain.length 0 2 0 [7] row)).map HeightEntry.hashes ∧
      (s.db.readHeightIndex s.chain.length 0 2 0 [7]).2 = [[1, 2], [1, 2]] := by
  refine ⟨rfl, (readHeightIndex_exact ?_ 0 [7] (by decide) (by decide) (by decide)).2,
    by decide +kernel⟩
  refine .disconnect (.connect (.connect (.connect (.start fun _ _ => rfl) _ ?_) _ ?_) _ ?_) ?_
  all_goals decide

end LoggedChain
end Artax
