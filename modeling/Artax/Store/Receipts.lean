import Artax.Aal.Execute
import Artax.Util.Rlp

/-!
# Receipts of contract executions

`StorageResults` keeps the receipts of contract transactions in a cache until their block is
connected and writes them column by column. A query returns a receipt for a transaction of the active
chain, and for no other.
-/

namespace Artax

open Util List Rlp OrderedMap

structure TransactionReceiptInfo where
  blockHash : H256
  blockNumber : UInt32
  transactionHash : H256
  transactionIndex : UInt32
  sender : Address
  receiver : Address
  cumulativeGasUsed : UInt64
  gasUsed : UInt64
  contractAddress : Address
  logs : List LogEntry
  excepted : TransactionException
  blockHash_lt : blockHash < 2 ^ 256
  transactionHash_lt : transactionHash < 2 ^ 256
  deriving DecidableEq

namespace TransactionException

def all : List TransactionException :=
  [.none, .unknown, .badRLP, .invalidFormat, .outOfGasIntrinsic, .invalidSignature, .invalidNonce,
    .notEnoughCash, .outOfGasBase, .blockGasLimitReached, .badInstruction, .badJumpDestination,
    .outOfGas, .outOfStack, .stackUnderflow, .createWithValue, .noInformation]

variable (excepted : TransactionException)

def code : Nat := all.idxOf excepted

def ofCode (value : Nat) : TransactionException := all.getD value .noInformation

theorem ofCode_code : ofCode excepted.code = excepted := by
  cases excepted <;> rfl

theorem code_lt : excepted.code < 2 ^ 32 := by
  cases excepted <;> decide

end TransactionException

/-! ## The columns of a stored result -/

/-- `TransactionReceiptInfoSerialized`; a result of an older version has no last column. -/
structure TransactionReceiptInfoSerialized where
  blockHashes : List H256
  blockNumbers : List Nat
  transactionHashes : List H256
  transactionIndexes : List Nat
  senders : List Address
  receivers : List Address
  cumulativeGasUsed : List Nat
  gasUsed : List Nat
  contractAddresses : List Address
  logs : List (List LogEntry)
  excepted : Option (List Nat)

namespace TransactionReceiptInfoSerialized

def ofReceipts (result : List TransactionReceiptInfo) : TransactionReceiptInfoSerialized where
  blockHashes := result.map fun r => r.blockHash
  blockNumbers := result.map fun r => r.blockNumber.toNat
  transactionHashes := result.map fun r => r.transactionHash
  transactionIndexes := result.map fun r => r.transactionIndex.toNat
  senders := result.map fun r => r.sender
  receivers := result.map fun r => r.receiver
  cumulativeGasUsed := result.map fun r => r.cumulativeGasUsed.toNat
  gasUsed := result.map fun r => r.gasUsed.toNat
  contractAddresses := result.map fun r => r.contractAddress
  logs := result.map fun r => r.logs
  excepted := some (result.map fun r => r.excepted.code)

variable (tris : TransactionReceiptInfoSerialized)

def row (j : Nat) : TransactionReceiptInfo where
  blockHash := tris.blockHashes.getD j 0 % 2 ^ 256
  blockNumber := UInt32.ofNat (tris.blockNumbers.getD j 0)
  transactionHash := tris.transactionHashes.getD j 0 % 2 ^ 256
  transactionIndex := UInt32.ofNat (tris.transactionIndexes.getD j 0)
  sender := tris.senders.getD j 0
  receiver := tris.receivers.getD j 0
  cumulativeGasUsed := UInt64.ofNat (tris.cumulativeGasUsed.getD j 0)
  gasUsed := UInt64.ofNat (tris.gasUsed.getD j 0)
  contractAddress := tris.contractAddresses.getD j 0
  logs := tris.logs.getD j []
  excepted := match tris.excepted with
    | some excepted => .ofCode (excepted.getD j 0)
    | none => .noInformation
  blockHash_lt := Nat.mod_lt _ (Nat.two_pow_pos 256)
  transactionHash_lt := Nat.mod_lt _ (Nat.two_pow_pos 256)

def receipts : List TransactionReceiptInfo :=
  (List.range tris.blockHashes.length).map tris.row

theorem receipts_ofReceipts (result : List TransactionReceiptInfo) :
    (ofReceipts result).receipts = result := by
  refine ext_getElem (by simp [receipts, ofReceipts]) fun j _ inside => ?_
  have cell {β : Type} (f : TransactionReceiptInfo → β) (d : β) :
      (result.map f).getD j d = f result[j] := by
    simp [getD_eq_getElem?_getD, inside]
  simp only [receipts, getElem_map, getElem_range, row, ofReceipts, cell, Nat.mod_eq_of_lt result[j].blockHash_lt,
    Nat.mod_eq_of_lt result[j].transactionHash_lt, UInt32.ofNat_toNat, UInt64.ofNat_toNat,
    TransactionException.ofCode_code]

def writeHash (hash : Nat) : Bytes := data (bigEndian 32 hash)

def writeAddress (address : Address) : Bytes := data (Address.asBytes address)

def writeLog (log : LogEntry) : Bytes :=
  list [writeAddress log.address,
    list [list (log.topics.map fun topic => writeHash topic.toNat), data log.data]]

def writeLogs (logs : List LogEntry) : Bytes := list (logs.map writeLog)

def columns : List Bytes :=
  [list (tris.blockHashes.map writeHash),
    list (tris.blockNumbers.map number),
    list (tris.transactionHashes.map writeHash),
    list (tris.transactionIndexes.map number),
    list (tris.senders.map writeAddress),
    list (tris.receivers.map writeAddress),
    list (tris.cumulativeGasUsed.map number),
    list (tris.gasUsed.map number),
    list (tris.contractAddresses.map writeAddress),
    list (tris.logs.map writeLogs),
    list ((tris.excepted.getD []).map number)]

def write : Bytes := list tris.columns

def readHash : Bytes → Option Nat := toHash 32

def readAddress (item : Bytes) : Option Address := (toHash 20 item).map (Fin.ofNat (2 ^ 160))

def readLog (item : Bytes) : Option LogEntry :=
  (toPair readAddress (toPair
    (toVector fun item => (readHash item).map (BitVec.ofNat 256)) toBytes) item).map
      fun entry => ⟨entry.1, entry.2.1, entry.2.2⟩

def readLogs : Bytes → Option (List LogEntry) := toVector readLog

def read (value : Bytes) : Option TransactionReceiptInfoSerialized := do
  let whole ← split value
  if whole.2 ≠ [] then none
  let blockHashes ← toVector readHash (← child value 0)
  let blockNumbers ← toVector (toInt 32) (← child value 1)
  let transactionHashes ← toVector readHash (← child value 2)
  let transactionIndexes ← toVector (toInt 32) (← child value 3)
  let senders ← toVector readAddress (← child value 4)
  let receivers ← toVector readAddress (← child value 5)
  let cumulativeGasUsed ← toVector (toInt 256) (← child value 6)
  let gasUsed ← toVector (toInt 256) (← child value 7)
  let contractAddresses ← toVector readAddress (← child value 8)
  let logs ← toVector readLogs (← child value 9)
  let items ← children value
  let excepted ← if items.length = 11
    then (child value 10).bind fun item => (toVector (toInt 32) item).map some
    else some none
  return ⟨blockHashes, blockNumbers, transactionHashes, transactionIndexes, senders, receivers,
    cumulativeGasUsed, gasUsed, contractAddresses, logs, excepted⟩

theorem encodes_hash {hash : Nat} (small : hash < 2 ^ 256) :
    Rlp.Encodes readHash (writeHash hash) hash :=
  Rlp.encodes_hash (n := hash) (lt_of_lt_of_eq small (by decide)) (Nat.le_refl 32)

theorem encodes_address (address : Address) :
    Rlp.Encodes readAddress (writeAddress address) address := by
  have small : address.val < 256 ^ 20 := lt_of_lt_of_eq address.isLt (by decide)
  have read := (Rlp.encodes_hash small (by decide)).map (Fin.ofNat (2 ^ 160))
  rwa [Fin.ofNat_val_eq_self] at read

theorem encodes_topic (topic : U256) :
    Rlp.Encodes (fun item => (readHash item).map (BitVec.ofNat 256)) (writeHash topic.toNat) topic := by
  have read := (encodes_hash topic.isLt).map (BitVec.ofNat 256)
  rwa [BitVec.ofNat_toNat, BitVec.setWidth_eq] at read

theorem encodes_log {log : LogEntry} (fits : Rlp.Fits (writeLog log).length) :
    Rlp.Encodes readLog (writeLog log) log := by
  have outer := fits.of_list
  have inner := (outer.of_mem (.tail _ (.head _))).of_list
  have topics := (inner.of_mem (.head _)).of_list
  have data := (inner.of_mem (.tail _ (.head _))).of_data
  exact ((encodes_address log.address).pair
    ((Rlp.Encodes.vector (fun topic _ => encodes_topic topic) topics).pair
      (encodes_bytes data) inner) outer).map fun entry => LogEntry.mk entry.1 entry.2.1 entry.2.2

theorem encodes_logs {logs : List LogEntry} (fits : Rlp.Fits (writeLogs logs).length) :
    Rlp.Encodes readLogs (writeLogs logs) logs :=
  Rlp.Encodes.vector (fun _ member => encodes_log (fits.of_list.of_mem (mem_map_of_mem member)))
    fits.of_list

variable {result : List TransactionReceiptInfo}

theorem encodes_column {α : Type} {read : Bytes → Option α} {write : α → Bytes}
    {f : TransactionReceiptInfo → α} (each : ∀ r ∈ result, Rlp.Encodes read (write (f r)) (f r))
    (fits : Rlp.Fits (list ((result.map f).map write)).length) :
    Rlp.Encodes (toVector read) (list ((result.map f).map write)) (result.map f) := by
  refine Rlp.Encodes.vector (fun value member => ?_) fits.of_list
  obtain ⟨r, listed, rfl⟩ := mem_map.1 member
  exact each r listed

theorem read_write (fits : Rlp.Fits (ofReceipts result).write.length) :
    read (ofReceipts result).write = some (ofReceipts result) := by
  have whole := fits.of_list
  have column (i : Nat) {item : Bytes} (found : (ofReceipts result).columns[i]? = some item) :
      Rlp.Fits item.length := whole.of_mem (mem_of_getElem? found)
  have numbers (n : TransactionReceiptInfo → Nat) {width : Nat} (small : ∀ r, n r < 2 ^ width)
      (le : width ≤ 256) (fits : Rlp.Fits (Rlp.list ((result.map n).map Rlp.number)).length) :
      Rlp.Encodes (Rlp.toVector (Rlp.toInt width)) (Rlp.list ((result.map n).map Rlp.number))
        (result.map n) := encodes_column (fun r _ => Rlp.encodes_number (small r) le) fits
  have addresses (a : TransactionReceiptInfo → Address)
      (fits : Rlp.Fits (Rlp.list ((result.map a).map writeAddress)).length) :
      Rlp.Encodes (Rlp.toVector readAddress) (Rlp.list ((result.map a).map writeAddress))
        (result.map a) := encodes_column (fun r _ => encodes_address (a r)) fits
  have wide {n : Nat} (small : n < 2 ^ 64) : n < 2 ^ 256 := Nat.lt_trans small (by decide)
  have c0 : Rlp.Encodes _ _ (ofReceipts result).blockHashes :=
    encodes_column (fun r _ => encodes_hash r.blockHash_lt) (column 0 rfl)
  have c1 := numbers (fun r => r.blockNumber.toNat) (fun r => r.blockNumber.toNat_lt) (by decide)
    (column 1 rfl)
  have c2 : Rlp.Encodes _ _ (ofReceipts result).transactionHashes :=
    encodes_column (fun r _ => encodes_hash r.transactionHash_lt) (column 2 rfl)
  have c3 := numbers (fun r => r.transactionIndex.toNat) (fun r => r.transactionIndex.toNat_lt)
    (by decide) (column 3 rfl)
  have c4 := addresses (fun r => r.sender) (column 4 rfl)
  have c5 := addresses (fun r => r.receiver) (column 5 rfl)
  have c6 := numbers (fun r => r.cumulativeGasUsed.toNat)
    (fun r => wide r.cumulativeGasUsed.toNat_lt) (Nat.le_refl 256) (column 6 rfl)
  have c7 := numbers (fun r => r.gasUsed.toNat) (fun r => wide r.gasUsed.toNat_lt)
    (Nat.le_refl 256) (column 7 rfl)
  have c8 := addresses (fun r => r.contractAddress) (column 8 rfl)
  have c9 : Rlp.Encodes _ _ (ofReceipts result).logs :=
    encodes_column (fun r member => encodes_logs ((column 9 rfl).of_list.of_mem
      (mem_map_of_mem (mem_map_of_mem member)))) (column 9 rfl)
  have c10 := numbers (fun r => r.excepted.code) (fun r => r.excepted.code_lt) (by decide)
    (column 10 rfl)
  have each : ∀ item ∈ (ofReceipts result).columns, Rlp.IsItem item := by
    simp only [columns, forall_mem_cons, not_mem_nil, false_implies, implies_true, and_true]
    exact ⟨c0.isItem, c1.isItem, c2.isItem, c3.isItem, c4.isItem, c5.isItem, c6.isItem, c7.isItem,
      c8.isItem, c9.isItem, c10.isItem⟩
  have child (i : Nat) {item : Bytes} (found : (ofReceipts result).columns[i]? = some item) :
      Rlp.child (ofReceipts result).write i = some item := Rlp.child_list each whole found
  have front := (Rlp.isItem_list whole).split_append []
  rw [append_nil] at front
  have children : Rlp.children (ofReceipts result).write = some (ofReceipts result).columns :=
    Rlp.children_list each whole
  have step {α β : Type} {x : Option α} {a : α} {next : α → Option β} (done : x = some a) :
      (x >>= next) = next a := by
    rw [done]
    rfl
  refine (step front).trans ?_
  refine (step (child 0 rfl)).trans ((step c0.read_eq).trans ?_)
  refine (step (child 1 rfl)).trans ((step c1.read_eq).trans ?_)
  refine (step (child 2 rfl)).trans ((step c2.read_eq).trans ?_)
  refine (step (child 3 rfl)).trans ((step c3.read_eq).trans ?_)
  refine (step (child 4 rfl)).trans ((step c4.read_eq).trans ?_)
  refine (step (child 5 rfl)).trans ((step c5.read_eq).trans ?_)
  refine (step (child 6 rfl)).trans ((step c6.read_eq).trans ?_)
  refine (step (child 7 rfl)).trans ((step c7.read_eq).trans ?_)
  refine (step (child 8 rfl)).trans ((step c8.read_eq).trans ?_)
  refine (step (child 9 rfl)).trans ((step c9.read_eq).trans ?_)
  refine (step children).trans ?_
  have excepted : ((Rlp.child (ofReceipts result).write 10).bind fun item =>
      (Rlp.toVector (Rlp.toInt 32) item).map some) = some (ofReceipts result).excepted := by
    rw [child 10 rfl]
    exact congrArg (Option.map some) c10.read_eq
  exact step excepted

end TransactionReceiptInfoSerialized

/-! ## The cache and the store -/

/-- `StorageResults`: `m_cache_result` and the store, whose keys are the digits of the hashes. -/
structure StorageResults where
  m_cache_result : OrderedMap H256 (List TransactionReceiptInfo)
  db : OrderedMap H256 Bytes

namespace StorageResults

open TransactionReceiptInfoSerialized (ofReceipts receipts_ofReceipts read_write)

variable (s : StorageResults)

/-- `StorageResults::addResult`. -/
def addResult (hashTx : H256) (result : List TransactionReceiptInfo) : StorageResults :=
  if s.m_cache_result.contains hashTx then s
  else { s with m_cache_result := s.m_cache_result.insert hashTx result }

/-- `clearCacheResult`. -/
def clearCacheResult : StorageResults := { s with m_cache_result := .empty }

/-- `deleteResults`. -/
def deleteResults (txs : List H256) : StorageResults where
  m_cache_result := txs.foldl erase s.m_cache_result
  db := txs.foldl erase s.db

/-- `readResult`: `none` where it throws, and `some none` where it returns false. -/
def readResult (hashTx : H256) : Option (Option (List TransactionReceiptInfo)) :=
  match s.db.find? hashTx with
  | none => some none
  | some value =>
    (TransactionReceiptInfoSerialized.read value).map fun tris => some tris.receipts

/-- `getResult`. -/
def getResult (hashTx : H256) : Option (List TransactionReceiptInfo × StorageResults) :=
  match s.m_cache_result.find? hashTx with
  | some result => some (result, s)
  | none => (s.readResult hashTx).map fun found =>
    match found with
    | some result => (result, { s with m_cache_result := s.m_cache_result.insert hashTx result })
    | none => ([], s)

def commitResult (db : OrderedMap H256 Bytes) (entry : H256 × List TransactionReceiptInfo) :
    OrderedMap H256 Bytes :=
  if db.contains entry.1 then db else db.insert entry.1 (ofReceipts entry.2).write

/-- `commitResults`. -/
def commitResults : StorageResults where
  m_cache_result := .empty
  db := s.m_cache_result.entries.foldl commitResult s.db

def addResults (added : List (H256 × List TransactionReceiptInfo)) : StorageResults :=
  added.foldl (fun s entry => s.addResult entry.1 entry.2) s

theorem find?_addResult (hashTx other : H256) (result : List TransactionReceiptInfo) :
    (s.addResult hashTx result).m_cache_result.find? other =
      (s.m_cache_result.find? other).or (if other = hashTx then some result else none) := by
  unfold addResult OrderedMap.contains
  by_cases same : other = hashTx
  · subst same
    cases found : s.m_cache_result.find? other <;> simp [found]
  · split <;> simp [same]

@[simp] theorem db_addResults (added : List (H256 × List TransactionReceiptInfo)) :
    (s.addResults added).db = s.db := by
  induction added generalizing s with
  | nil => rfl
  | cons entry rest ih =>
    rw [addResults, List.foldl_cons]
    refine (ih _).trans ?_
    unfold addResult
    split <;> rfl

theorem find?_addResults (added : List (H256 × List TransactionReceiptInfo)) (hashTx : H256) :
    (s.addResults added).m_cache_result.find? hashTx =
      (s.m_cache_result.find? hashTx).or (added.lookup hashTx) := by
  induction added generalizing s with
  | nil => simp [addResults]
  | cons entry rest ih =>
    rw [addResults, foldl_cons]
    refine (ih _).trans ?_
    rw [find?_addResult, Option.or_assoc, lookup_cons]
    congr 1
    by_cases same : hashTx = entry.1
    · simp [same]
    · simp [same, beq_eq_false_iff_ne.2 same]

theorem find?_commitResults (hashTx : H256) :
    s.commitResults.db.find? hashTx =
      (s.db.find? hashTx).or ((s.m_cache_result.find? hashTx).map fun r => (ofReceipts r).write) := by
  have rounds (entries : List (H256 × List TransactionReceiptInfo)) (db : OrderedMap H256 Bytes) :
      (entries.foldl commitResult db).find? hashTx =
        (db.find? hashTx).or ((OrderedMap.findEntries hashTx entries).map fun r =>
          (ofReceipts r).write) := by
    induction entries generalizing db with
    | nil => simp [OrderedMap.findEntries]
    | cons entry rest ih =>
      rw [foldl_cons, ih, OrderedMap.findEntries]
      unfold commitResult OrderedMap.contains
      by_cases same : hashTx = entry.1
      · rw [if_pos same, same]
        cases found : db.find? entry.1 <;> simp [found]
      · rw [if_neg same]
        split <;> simp [same]
  exact rounds _ _

end StorageResults

/-! ## Receipts of the active chain -/

/-- A contract transaction as `ConnectBlock` has executed it: its place, the gas used, and for each
execution who sent it, where to, and the result. -/
structure ExecutedTx where
  hash : H256
  i : UInt32
  usedGas : UInt64
  executions : List (Address × Address × ResultExecute)
  hash_lt : hash < 2 ^ 256

def ExecutedTx.receipts {blockHash : H256} (blockHash_lt : blockHash < 2 ^ 256) (nHeight : UInt32)
    (countCumulativeGasUsed : UInt64) (tx : ExecutedTx) : List TransactionReceiptInfo :=
  tx.executions.map fun execution =>
    { blockHash, blockNumber := nHeight, transactionHash := tx.hash, transactionIndex := tx.i
      sender := execution.1, receiver := execution.2.1
      cumulativeGasUsed := countCumulativeGasUsed
      gasUsed := UInt64.ofBitVec (execution.2.2.execRes.gasUsed.setWidth 64)
      contractAddress := execution.2.2.execRes.newAddress
      logs := execution.2.2.logs, excepted := execution.2.2.execRes.excepted
      blockHash_lt, transactionHash_lt := tx.hash_lt }

def blockReceipts {blockHash : H256} (blockHash_lt : blockHash < 2 ^ 256) (nHeight : UInt32) :
    UInt64 → List ExecutedTx → List (H256 × List TransactionReceiptInfo)
  | _, [] => []
  | countCumulativeGasUsed, tx :: rest =>
    let countCumulativeGasUsed := countCumulativeGasUsed + tx.usedGas
    (tx.hash, tx.receipts blockHash_lt nHeight countCumulativeGasUsed) ::
      blockReceipts blockHash_lt nHeight countCumulativeGasUsed rest

theorem map_fst_blockReceipts {blockHash : H256} (blockHash_lt : blockHash < 2 ^ 256)
    (nHeight : UInt32) (count : UInt64) (txs : List ExecutedTx) :
    (blockReceipts blockHash_lt nHeight count txs).map Prod.fst = txs.map ExecutedTx.hash := by
  induction txs generalizing count with
  | nil => rfl
  | cons tx rest ih => rw [blockReceipts, map_cons, map_cons, ih]

/-- A block that was connected, with what it executed. No transaction is in it twice, and its receipts
fit into memory. -/
structure ReceiptBlock where
  blockHash : H256
  nHeight : UInt32
  vtx : List H256
  executed : List ExecutedTx
  blockHash_lt : blockHash < 2 ^ 256
  nodup : vtx.Nodup
  listed : (executed.map ExecutedTx.hash).Sublist vtx
  fits : ∀ entry ∈ blockReceipts blockHash_lt nHeight 0 executed,
    Rlp.Fits (TransactionReceiptInfoSerialized.ofReceipts entry.2).write.length

namespace ReceiptBlock

def added (block : ReceiptBlock) : List (H256 × List TransactionReceiptInfo) :=
  blockReceipts block.blockHash_lt block.nHeight 0 block.executed

variable {block : ReceiptBlock} {result : List TransactionReceiptInfo} {hashTx : H256}

theorem mem_added_of_lookup (found : block.added.lookup hashTx = some result) :
    (hashTx, result) ∈ block.added := by
  obtain ⟨front, back, split, _⟩ := lookup_eq_some_iff.1 found
  rw [split]
  exact mem_append_right _ mem_cons_self

theorem mem_vtx_of_lookup (found : block.added.lookup hashTx = some result) :
    hashTx ∈ block.vtx := by
  have member := mem_map_of_mem (f := Prod.fst) (mem_added_of_lookup found)
  rw [added, map_fst_blockReceipts] at member
  exact block.listed.subset member

end ReceiptBlock

structure ReceiptChain where
  active : List ReceiptBlock
  results : StorageResults

namespace ReceiptChain

open TransactionReceiptInfoSerialized (ofReceipts receipts_ofReceipts read_write)

/-- The runs from an empty chain and an empty store. Of a `ConnectBlock` that fails only what it
added so far matters; its caller clears the cache. -/
inductive Reaches : ReceiptChain → Prop
  | start : Reaches ⟨[], ⟨.empty, .empty⟩⟩
  | connect {s : ReceiptChain} (before : Reaches s) (block : ReceiptBlock)
      (fresh : ∀ other ∈ s.active, other.vtx.Disjoint block.vtx) :
      Reaches ⟨s.active ++ [block], (s.results.addResults block.added).commitResults⟩
  | failed {s : ReceiptChain} (before : Reaches s)
      (added : List (H256 × List TransactionReceiptInfo)) :
      Reaches ⟨s.active, (s.results.addResults added).clearCacheResult⟩
  | disconnect {active : List ReceiptBlock} {block : ReceiptBlock} {results : StorageResults}
      (before : Reaches ⟨active ++ [block], results⟩) :
      Reaches ⟨active, results.deleteResults block.vtx⟩
  | query {s : ReceiptChain} (before : Reaches s) {hashTx : H256} {results : StorageResults}
      {result : List TransactionReceiptInfo}
      (asked : s.results.getResult hashTx = some (result, results)) : Reaches ⟨s.active, results⟩

def receiptsOf (active : List ReceiptBlock) (hashTx : H256) : Option (List TransactionReceiptInfo) :=
  active.findSome? fun block => block.added.lookup hashTx

/-- What holds along every run: no transaction is in two blocks, the store has the receipts of the
active chain, and the cache no others. -/
structure Coherent (s : ReceiptChain) : Prop where
  once : s.active.Pairwise fun block other => block.vtx.Disjoint other.vtx
  stored : ∀ hashTx, s.results.db.find? hashTx =
    (receiptsOf s.active hashTx).map fun result => (ofReceipts result).write
  cached : ∀ hashTx result, s.results.m_cache_result.find? hashTx = some result →
    receiptsOf s.active hashTx = some result

theorem receiptsOf_append (active : List ReceiptBlock) (block : ReceiptBlock) (hashTx : H256) :
    receiptsOf (active ++ [block]) hashTx =
      (receiptsOf active hashTx).or (block.added.lookup hashTx) := by
  rw [receiptsOf, findSome?_append]
  congr 1
  cases found : block.added.lookup hashTx <;> simp [found]

variable {active : List ReceiptBlock} {hashTx : H256} {s : ReceiptChain} {block : ReceiptBlock}

theorem mem_of_receiptsOf {result : List TransactionReceiptInfo}
    (found : receiptsOf active hashTx = some result) :
    ∃ block ∈ active, block.added.lookup hashTx = some result ∧ hashTx ∈ block.vtx := by
  obtain ⟨block, member, looked⟩ := exists_of_findSome?_eq_some found
  exact ⟨block, member, looked, ReceiptBlock.mem_vtx_of_lookup looked⟩

theorem receiptsOf_eq_none (absent : ∀ block ∈ active, hashTx ∉ block.vtx) :
    receiptsOf active hashTx = none := by
  cases found : receiptsOf active hashTx with
  | none => rfl
  | some result =>
    obtain ⟨block, member, _, inBlock⟩ := mem_of_receiptsOf found
    exact absurd inBlock (absent block member)

theorem Coherent.connect {s : ReceiptChain} (coherent : Coherent s) (block : ReceiptBlock)
    (fresh : ∀ other ∈ s.active, other.vtx.Disjoint block.vtx) :
    Coherent ⟨s.active ++ [block], (s.results.addResults block.added).commitResults⟩ := by
  refine ⟨?_, fun hashTx => ?_, fun hashTx result found => ?_⟩
  · rw [pairwise_append]
    refine ⟨coherent.once, pairwise_singleton _ _, fun other member last isBlock => ?_⟩
    rw [mem_singleton.1 isBlock]
    exact fresh other member
  · rw [StorageResults.find?_commitResults, StorageResults.db_addResults,
      StorageResults.find?_addResults, coherent.stored, receiptsOf_append]
    cases cached : s.results.m_cache_result.find? hashTx with
    | some result => simp [coherent.cached hashTx result cached]
    | none => cases receiptsOf s.active hashTx <;> simp
  · cases found

theorem Coherent.disconnect {active : List ReceiptBlock} {results : StorageResults}
    (coherent : Coherent ⟨active ++ [block], results⟩) :
    Coherent ⟨active, results.deleteResults block.vtx⟩ := by
  obtain ⟨once, _, apart⟩ := pairwise_append.1 coherent.once
  have others {hashTx : H256} (inBlock : hashTx ∈ block.vtx) : receiptsOf active hashTx = none :=
    receiptsOf_eq_none fun other member inOther =>
      apart other member block mem_cons_self inOther inBlock
  have kept {hashTx : H256} (outside : hashTx ∉ block.vtx) :
      receiptsOf (active ++ [block]) hashTx = receiptsOf active hashTx := by
    rw [receiptsOf_append]
    cases found : block.added.lookup hashTx with
    | none => simp
    | some result => exact absurd (ReceiptBlock.mem_vtx_of_lookup found) outside
  refine ⟨once, fun hashTx => ?_, fun hashTx result found => ?_⟩
  · simp only [StorageResults.deleteResults, find?_foldl_erase]
    split_ifs with inBlock
    · rw [others inBlock]
      rfl
    · rw [← kept inBlock]
      exact coherent.stored hashTx
  · simp only [StorageResults.deleteResults, find?_foldl_erase] at found
    split_ifs at found with inBlock
    rw [← kept inBlock]
    exact coherent.cached hashTx result found

theorem Coherent.receiptsOf_eq (coherent : Coherent s) (member : block ∈ s.active)
    (inBlock : hashTx ∈ block.vtx) : receiptsOf s.active hashTx = block.added.lookup hashTx := by
  cases found : receiptsOf s.active hashTx with
  | none => exact (findSome?_eq_none_iff.1 found block member).symm
  | some result =>
    obtain ⟨other, otherMember, looked, inOther⟩ := mem_of_receiptsOf found
    by_cases same : other = block
    · rw [← same, looked]
    · have symmetric : Std.Symm fun block other : ReceiptBlock => block.vtx.Disjoint other.vtx :=
        ⟨fun _ _ => List.Disjoint.symm⟩
      exact absurd inBlock (coherent.once.forall otherMember member same inOther)

theorem Coherent.getResult (coherent : Coherent s) (hashTx : H256) :
    ∃ results, s.results.getResult hashTx = some ((receiptsOf s.active hashTx).getD [], results) ∧
      Coherent ⟨s.active, results⟩ := by
  unfold StorageResults.getResult
  cases cached : s.results.m_cache_result.find? hashTx with
  | some result =>
    refine ⟨s.results, ?_, coherent⟩
    rw [coherent.cached hashTx result cached]
    rfl
  | none =>
    simp only [StorageResults.readResult, coherent.stored]
    cases found : receiptsOf s.active hashTx with
    | none => exact ⟨s.results, rfl, coherent⟩
    | some result =>
      obtain ⟨block, _, looked, _⟩ := mem_of_receiptsOf found
      have fits := block.fits _ (ReceiptBlock.mem_added_of_lookup looked)
      refine ⟨{ s.results with m_cache_result := s.results.m_cache_result.insert hashTx result }, ?_,
        coherent.once, coherent.stored, fun other result' held => ?_⟩
      · simp only [Option.map_some, read_write fits, receipts_ofReceipts]
        rfl
      · simp only [find?_insert] at held
        split_ifs at held with same
        · rw [same, found, Option.some.inj held]
        · exact coherent.cached other result' held

theorem coherent_of_reaches (run : Reaches s) : Coherent s := by
  induction run with
  | start => exact ⟨List.Pairwise.nil, fun _ => rfl, fun _ _ found => by cases found⟩
  | connect _ block fresh ih => exact ih.connect block fresh
  | @failed s _ added ih =>
    refine ⟨ih.once, fun hashTx => ?_, fun _ _ found => by cases found⟩
    simp only [StorageResults.clearCacheResult, StorageResults.db_addResults]
    exact ih.stored hashTx
  | disconnect _ ih => exact ih.disconnect
  | @query s _ hashTx results result asked ih =>
    obtain ⟨results', answered, coherent⟩ := ih.getResult hashTx
    obtain ⟨_, rfl⟩ := Prod.mk.inj (Option.some.inj (asked.symm.trans answered))
    exact coherent

/-- On every run `getResult` returns, for a transaction of an active block, the receipts that the
block produced for it, and none for any other. -/
theorem getResult_follows_chain {s : ReceiptChain} (run : Reaches s) (hashTx : H256) :
    (∀ block ∈ s.active, hashTx ∈ block.vtx →
      (s.results.getResult hashTx).map Prod.fst = some ((block.added.lookup hashTx).getD [])) ∧
    ((∀ block ∈ s.active, hashTx ∉ block.vtx) →
      (s.results.getResult hashTx).map Prod.fst = some []) := by
  have coherent := coherent_of_reaches run
  obtain ⟨results, answered, _⟩ := coherent.getResult hashTx
  rw [answered]
  refine ⟨fun block member inBlock => ?_, fun absent => ?_⟩
  · rw [coherent.receiptsOf_eq member inBlock]
    rfl
  · rw [receiptsOf_eq_none absent]
    rfl

/-- One of two blocks at height 1 whose only contract transaction, with hash 7, calls a contract. -/
def callBlock (second : Bool) : ReceiptBlock where
  blockHash := if second then 12 else 11
  nHeight := 1
  vtx := [5, 7]
  executed := [⟨7, 1, 30000, [(2, 3, ⟨{ gasUsed := 30000#256, excepted := .none, newAddress := 3 },
    [⟨3, [4#256], [1, 2]⟩], {}⟩)], by decide⟩]
  blockHash_lt := by cases second <;> decide
  nodup := by decide
  listed := .cons _ (.cons_cons _ .slnil)
  fits := by cases second <;> decide +kernel

/-- Another block with the same transaction takes the place of the first after a query: then the
receipt names the second block. -/
theorem getResult_follows_chain_reorganised :
    ∃ results : StorageResults, Reaches ⟨[callBlock true], results⟩ ∧
      (results.getResult 7).map Prod.fst = some (((callBlock true).added.lookup 7).getD []) ∧
      (((callBlock true).added.lookup 7).getD []).map TransactionReceiptInfo.blockHash = [12] := by
  have connected := Reaches.start.connect (callBlock false) fun _ none => by cases none
  obtain ⟨_, asked, _⟩ := (coherent_of_reaches connected).getResult 7
  have disconnected : Reaches ⟨[], _⟩ := .disconnect (connected.query asked)
  have again := disconnected.connect (callBlock true) fun _ none => by cases none
  exact ⟨_, again, (getResult_follows_chain again 7).1 _ (.head _) (by decide), by decide +kernel⟩

end ReceiptChain
end Artax
