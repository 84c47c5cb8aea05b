import Artax.Consensus.Pow
import Artax.Store.StakeIndex
import Artax.Util.Serial

/-!
# The block index on disk

`CDiskBlockIndex`, the form in which an entry of the block index is stored. `LoadBlockIndexGuts`
loads entries under the hash of the header rebuilt from the stored fields and copies them field by
field.
-/

namespace Artax

open BlockTreeDB CScript Util.Serial COutPoint

/-! ## Numbers and vectors in a stream -/

def intMax : Nat := 2 ^ 31 - 1

def readNumber (width : Nat) : Reader Nat := ofLittleEndian <$> readBytes width

def writeInt32 (n : Int) : Bytes := littleEndian 4 (n % 2 ^ 32).toNat

def readInt32 : Reader Int :=
  (fun n : Nat => if n < 2 ^ 31 then (n : Int) else n - 2 ^ 32) <$> readNumber 4

def writeCompactSize (size : Nat) : Bytes :=
  if size < 253 then [UInt8.ofNat size]
  else if size ≤ 0xffff then 253 :: littleEndian 2 size
  else if size ≤ 0xffffffff then 254 :: littleEndian 4 size
  else 255 :: littleEndian 8 size

def writeVector (bytes : Bytes) : Bytes := writeCompactSize bytes.length ++ bytes

def readVector : Reader Bytes := do
  let size ← (readCompactSize : Reader Nat)
  readBytes size

def COutPoint.serialize (prevout : COutPoint) : Bytes :=
  littleEndian 32 prevout.hash ++ littleEndian 4 prevout.n.toNat

def COutPoint.unserialize : Reader COutPoint := do
  let hash ← readNumber 32
  let n ← readNumber 4
  return ⟨hash, UInt32.ofNat n⟩

def CBlockHeader.serialize (header : CBlockHeader) : Bytes :=
  writeInt32 header.nVersion ++ littleEndian 32 header.hashPrevBlock ++
    littleEndian 32 header.hashMerkleRoot ++ littleEndian 4 header.nTime.toNat ++
    littleEndian 4 header.nBits.toNat ++ littleEndian 4 header.nNonce.toNat ++
    littleEndian 32 header.hashStateRoot ++ littleEndian 32 header.hashUTXORoot ++
    header.prevoutStake.serialize ++ writeVector header.vchBlockSig

/-! ## Entries -/

namespace BlockStatus

def validTree : UInt32 := 2
def validTransactions : UInt32 := 3
def validScripts : UInt32 := 5
def validMask : UInt32 := 7
def haveData : UInt32 := 8
def haveUndo : UInt32 := 16
def failedMask : UInt32 := 96
def optWitness : UInt32 := 128

end BlockStatus

/-- `CBlockIndex`, the fields that are stored; the predecessor by its hash. -/
structure IndexEntry where
  pprev : Option H256 := none
  nHeight : Nat := 0
  nFile : Nat := 0
  nDataPos : UInt32 := 0
  nUndoPos : UInt32 := 0
  nTx : UInt32 := 0
  nStatus : UInt32 := 0
  nVersion : Int := 0
  hashMerkleRoot : H256 := 0
  nTime : UInt32 := 0
  nBits : UInt32 := 0
  nNonce : UInt32 := 0
  hashStateRoot : H256 := 0
  hashUTXORoot : H256 := 0
  vchBlockSig : Bytes := []
  nStakeModifier : H256 := 0
  prevoutStake : COutPoint := ⟨0, 0xffffffff⟩
  hashProof : H256 := 0
  nMoneySupply : UInt64 := 0
  deriving DecidableEq, Repr

namespace IndexEntry

def ofHeader (block : CBlockHeader) : IndexEntry where
  nVersion := block.nVersion
  hashMerkleRoot := block.hashMerkleRoot
  nTime := block.nTime
  nBits := block.nBits
  nNonce := block.nNonce
  hashStateRoot := block.hashStateRoot
  hashUTXORoot := block.hashUTXORoot
  prevoutStake := block.prevoutStake
  vchBlockSig := block.vchBlockSig

variable (entry : IndexEntry)

def isProofOfStake : Bool := !entry.prevoutStake.isNull

def has (flag : UInt32) : Bool := entry.nStatus &&& flag != 0

def raiseValidity (nUpTo : UInt32) : IndexEntry :=
  if entry.has BlockStatus.failedMask then entry
  else if entry.nStatus &&& BlockStatus.validMask < nUpTo then
    { entry with nStatus := (entry.nStatus &&& ~~~BlockStatus.validMask) ||| nUpTo }
  else entry

end IndexEntry

abbrev IndexMap := H256 → Option IndexEntry

structure CDiskBlockIndex extends IndexEntry where
  hashPrev : H256 := 0
  deriving DecidableEq, Repr

namespace CDiskBlockIndex

def ofIndex (entry : IndexEntry) : CDiskBlockIndex :=
  { entry with hashPrev := entry.pprev.getD 0 }

def header (disk : CDiskBlockIndex) : CBlockHeader where
  nVersion := disk.nVersion
  hashPrevBlock := disk.hashPrev
  hashMerkleRoot := disk.hashMerkleRoot
  nTime := disk.nTime
  nBits := disk.nBits
  nNonce := disk.nNonce
  hashStateRoot := disk.hashStateRoot
  hashUTXORoot := disk.hashUTXORoot
  vchBlockSig := disk.vchBlockSig
  prevoutStake := disk.prevoutStake

def clientVersion : Nat := 1010000

@[irreducible] def serialize (disk : CDiskBlockIndex) : Bytes :=
  let haveData := disk.has BlockStatus.haveData
  let haveUndo := disk.has BlockStatus.haveUndo
  writeVarInt 32 clientVersion ++ writeVarInt 32 disk.nHeight ++ writeVarInt 32 disk.nStatus.toNat ++
    writeVarInt 32 disk.nTx.toNat ++
    (if haveData || haveUndo then writeVarInt 32 disk.nFile else []) ++
    (if haveData then writeVarInt 32 disk.nDataPos.toNat else []) ++
    (if haveUndo then writeVarInt 32 disk.nUndoPos.toNat else []) ++
    writeVarInt 64 disk.nMoneySupply.toNat ++
    writeInt32 disk.nVersion ++ littleEndian 32 disk.hashPrev ++
    littleEndian 32 disk.hashMerkleRoot ++ littleEndian 4 disk.nTime.toNat ++
    littleEndian 4 disk.nBits.toNat ++ littleEndian 4 disk.nNonce.toNat ++
    littleEndian 32 disk.hashStateRoot ++ littleEndian 32 disk.hashUTXORoot ++
    littleEndian 32 disk.nStakeModifier ++ disk.prevoutStake.serialize ++
    littleEndian 32 disk.hashProof ++ writeVector disk.vchBlockSig

def unserialize : Reader CDiskBlockIndex := do
  let _ ← readVarInt intMax
  let nHeight ← readVarInt intMax
  let nStatus ← UInt32.ofNat <$> readVarInt (2 ^ 32 - 1)
  let nTx ← UInt32.ofNat <$> readVarInt (2 ^ 32 - 1)
  let haveData := nStatus &&& BlockStatus.haveData != 0
  let haveUndo := nStatus &&& BlockStatus.haveUndo != 0
  let nFile ← readIf (haveData || haveUndo) (readVarInt intMax) 0
  let nDataPos ← readIf haveData (UInt32.ofNat <$> readVarInt (2 ^ 32 - 1)) 0
  let nUndoPos ← readIf haveUndo (UInt32.ofNat <$> readVarInt (2 ^ 32 - 1)) 0
  let nMoneySupply ← UInt64.ofNat <$> readVarInt (2 ^ 64 - 1)
  let nVersion ← readInt32
  let hashPrev ← readNumber 32
  let hashMerkleRoot ← readNumber 32
  let nTime ← UInt32.ofNat <$> readNumber 4
  let nBits ← UInt32.ofNat <$> readNumber 4
  let nNonce ← UInt32.ofNat <$> readNumber 4
  let hashStateRoot ← readNumber 32
  let hashUTXORoot ← readNumber 32
  let nStakeModifier ← readNumber 32
  let prevoutStake ← COutPoint.unserialize
  let hashProof ← readNumber 32
  let vchBlockSig ← readVector
  return {
    nHeight := nHeight, nStatus, nTx, nFile, nDataPos, nUndoPos, nMoneySupply
    nVersion, hashPrev, hashMerkleRoot, nTime, nBits, nNonce, hashStateRoot, hashUTXORoot
    nStakeModifier, prevoutStake, hashProof, vchBlockSig }

/-- What the stored form keeps of an entry: the positions only where the status has their flags, and
no pointer to the predecessor. -/
def kept (disk : CDiskBlockIndex) : CDiskBlockIndex :=
  { disk with
    pprev := none
    nFile := if disk.has BlockStatus.haveData || disk.has BlockStatus.haveUndo then disk.nFile else 0
    nDataPos := if disk.has BlockStatus.haveData then disk.nDataPos else 0
    nUndoPos := if disk.has BlockStatus.haveUndo then disk.nUndoPos else 0 }

structure InRange (disk : CDiskBlockIndex) : Prop where
  nHeight : disk.nHeight ≤ intMax
  nFile : disk.nFile ≤ intMax
  nVersion : -2 ^ 31 ≤ disk.nVersion ∧ disk.nVersion < 2 ^ 31
  hashPrev : disk.hashPrev < 2 ^ 256
  hashMerkleRoot : disk.hashMerkleRoot < 2 ^ 256
  hashStateRoot : disk.hashStateRoot < 2 ^ 256
  hashUTXORoot : disk.hashUTXORoot < 2 ^ 256
  nStakeModifier : disk.nStakeModifier < 2 ^ 256
  prevoutStake : disk.prevoutStake.hash < 2 ^ 256
  hashProof : disk.hashProof < 2 ^ 256
  vchBlockSig : disk.vchBlockSig.length ≤ 0x10000000

end CDiskBlockIndex

/-! ## Reading back -/

theorem length_littleEndian (width value : Nat) :
    (littleEndian width value).length = width := by
  rw [← List.length_reverse, reverse_littleEndian, bigEndian_length]

theorem reads_number {width value : Nat} (fits : value < 256 ^ width) :
    Reads (readNumber width) (littleEndian width value) value := by
  have bytes := reads_bytes (littleEndian width value)
  rw [length_littleEndian] at bytes
  have number := bytes.map ofLittleEndian
  rwa [ofLittleEndian_littleEndian fits] at number

theorem reads_hash {value : H256} (fits : value < 2 ^ 256) :
    Reads (readNumber 32) (littleEndian 32 value) value :=
  reads_number (lt_of_lt_of_eq fits (by decide))

theorem reads_uint32 (value : UInt32) :
    Reads (UInt32.ofNat <$> readNumber 4) (littleEndian 4 value.toNat) value := by
  have fits : value.toNat < 256 ^ 4 := value.toNat_lt
  have number := (reads_number fits).map UInt32.ofNat
  rwa [UInt32.ofNat_toNat] at number

theorem reads_int32 {value : Int} (fits : -2 ^ 31 ≤ value ∧ value < 2 ^ 31) :
    Reads readInt32 (writeInt32 value) value := by
  obtain ⟨low, high⟩ := fits
  have bits : (value % 2 ^ 32).toNat < 256 ^ 4 := by omega
  have number := (reads_number bits).map
    (fun n : Nat => if n < 2 ^ 31 then (n : Int) else n - 2 ^ 32)
  have signed : (if (value % 2 ^ 32).toNat < 2 ^ 31 then ((value % 2 ^ 32).toNat : Int)
      else (value % 2 ^ 32).toNat - 2 ^ 32) = value := by
    split_ifs <;> omega
  rwa [signed] at number

theorem reads_varUInt32 (value : UInt32) :
    Reads (UInt32.ofNat <$> readVarInt (2 ^ 32 - 1)) (writeVarInt 32 value.toNat) value := by
  have number := (reads_varInt (by decide) value.toNat_lt
    (Nat.le_sub_one_of_lt value.toNat_lt)).map UInt32.ofNat
  rwa [UInt32.ofNat_toNat] at number

theorem reads_varUInt64 (value : UInt64) :
    Reads (UInt64.ofNat <$> readVarInt (2 ^ 64 - 1)) (writeVarInt 64 value.toNat) value := by
  have number := (reads_varInt (by decide) value.toNat_lt
    (Nat.le_sub_one_of_lt value.toNat_lt)).map UInt64.ofNat
  rwa [UInt64.ofNat_toNat] at number

theorem reads_varInt32 {value : Nat} (fits : value ≤ intMax) :
    Reads (readVarInt intMax) (writeVarInt 32 value) value :=
  reads_varInt (by decide) (lt_of_le_of_lt fits (by decide)) fits

theorem reads_compactSize {size : Nat} (fits : size ≤ 0x10000000) :
    Reads (readCompactSize : Reader Nat) (writeCompactSize size) size := by
  -- a size of several bytes follows the byte that gives their number
  have wide (first : UInt8) (width least : Nat) (bytes : ¬ first < 253)
      (form : (if first < 253 then 0 else if first = 253 then 2 else if first = 254 then 4 else 8) = width)
      (bound : (if first < 253 then 0 else if first = 253 then 253 else if first = 254 then 0x10000
        else 0x100000000) = least)
      (holds : size < 256 ^ width) (minimal : least ≤ size) :
      Reads (readCompactSize : Reader Nat) (first :: littleEndian width size)
        size := by
    intro rest
    have length := length_littleEndian width size
    change readCompactSize (first :: (littleEndian width size ++ rest)) = _
    rw [readCompactSize]
    simp only [form, bound, List.take_left' length, List.drop_left' length, reverse_littleEndian,
      ofBigEndian_bigEndian _ _ holds]
    rw [if_neg (by simp [length]), if_neg bytes, if_neg (by omega)]
  unfold writeCompactSize
  split_ifs with one two four
  · intro rest
    have byte : (UInt8.ofNat size).toNat = size := by
      rw [UInt8.toNat_ofNat']
      omega
    have low : UInt8.ofNat size < 253 := by
      rw [UInt8.lt_iff_toNat_lt, byte]
      exact one
    change readCompactSize (UInt8.ofNat size :: rest) = _
    rw [readCompactSize]
    simp only [if_pos low, byte]
    rw [if_neg (by simp), if_neg (by omega)]
    rfl
  · exact wide 253 2 253 (by decide) rfl rfl (by omega) (by omega)
  · exact wide 254 4 0x10000 (by decide) rfl rfl (by omega) (by omega)
  · exact absurd fits (by omega)

theorem reads_vector {bytes : Bytes} (fits : bytes.length ≤ 0x10000000) :
    Reads readVector (writeVector bytes) bytes :=
  (reads_compactSize fits).bind (reads_bytes bytes)

theorem reads_outPoint {prevout : COutPoint} (fits : prevout.hash < 2 ^ 256) :
    Reads unserialize prevout.serialize prevout := by
  have n : prevout.n.toNat < 256 ^ 4 := prevout.n.toNat_lt
  have same : mk prevout.hash (UInt32.ofNat prevout.n.toNat) = prevout := by
    rw [UInt32.ofNat_toNat]
  unfold unserialize serialize
  refine (reads_hash fits).bind ?_
  rw [← List.append_nil (littleEndian 4 prevout.n.toNat)]
  refine (reads_number n).bind ?_
  rw [same]
  exact reads_pure prevout

theorem CDiskBlockIndex.reads_serialize {disk : CDiskBlockIndex} (range : disk.InRange) :
    Reads unserialize disk.serialize disk.kept := by
  have version : Reads (readVarInt intMax) (writeVarInt 32 clientVersion) clientVersion :=
    reads_varInt32 (by unfold clientVersion intMax; omega)
  rw [← List.append_nil disk.serialize]
  unfold serialize
  -- a closed term, which the simplifier would evaluate
  generalize writeVarInt 32 clientVersion = written at version ⊢
  simp only [List.append_assoc]
  unfold unserialize
  refine version.bind ?_
  refine (reads_varInt32 range.nHeight).bind ?_
  refine (reads_varUInt32 disk.nStatus).bind ?_
  refine (reads_varUInt32 disk.nTx).bind ?_
  refine (reads_if _ 0 (reads_varInt32 range.nFile)).bind ?_
  refine (reads_if _ 0 (reads_varUInt32 disk.nDataPos)).bind ?_
  refine (reads_if _ 0 (reads_varUInt32 disk.nUndoPos)).bind ?_
  refine (reads_varUInt64 disk.nMoneySupply).bind ?_
  refine (reads_int32 range.nVersion).bind ?_
  refine (reads_hash range.hashPrev).bind ?_
  refine (reads_hash range.hashMerkleRoot).bind ?_
  refine (reads_uint32 disk.nTime).bind ?_
  refine (reads_uint32 disk.nBits).bind ?_
  refine (reads_uint32 disk.nNonce).bind ?_
  refine (reads_hash range.hashStateRoot).bind ?_
  refine (reads_hash range.hashUTXORoot).bind ?_
  refine (reads_hash range.nStakeModifier).bind ?_
  refine (reads_outPoint range.prevoutStake).bind ?_
  refine (reads_hash range.hashProof).bind ?_
  refine (reads_vector range.vchBlockSig).bind ?_
  exact reads_pure disk.kept

/-! ## The database -/

def ArithUint256.setCompactFlags (nCompact : UInt32) : Bool × Bool :=
  let nSize := (nCompact >>> 24).toNat
  let nWord := (nCompact &&& 0x007fffff).toNat
  let nWord := if nSize ≤ 3 then nWord >>> (8 * (3 - nSize)) else nWord
  (nWord ≠ 0 && nCompact &&& 0x00800000 != 0,
    nWord ≠ 0 && (34 < nSize || (0xff < nWord && 33 < nSize) || (0xffff < nWord && 32 < nSize)))

/-- `CheckProofOfWork`. -/
def checkProofOfWork (hash : H256) (nBits : UInt32) (params : ConsensusParams) : Bool :=
  let bnTarget := ArithUint256.setCompact nBits
  let (fNegative, fOverflow) := ArithUint256.setCompactFlags nBits
  !(fNegative || bnTarget == 0#256 || fOverflow || decide (getLimit params false < bnTarget)) &&
    !decide (bnTarget.toNat < hash)

namespace BlockTreeDB

def blockIndexTag : UInt8 := 0x62

def blockFilesTag : UInt8 := 0x66

def lastBlockTag : UInt8 := 0x6c

def blockKey (hash : H256) : Bytes := blockIndexTag :: littleEndian 32 hash

/-- `CBlockTreeDB::WriteBatchSync`. -/
def writeBatchSync (db : BlockTreeDB) (fileInfo : List (UInt32 × Bytes)) (nLastFile : UInt32)
    (blockinfo : List (H256 × IndexEntry)) : BlockTreeDB :=
  let db := fileInfo.foldl (fun (db : BlockTreeDB) info =>
    db.insert (blockFilesTag :: littleEndian 4 info.1.toNat) info.2) db
  let db := db.insert [lastBlockTag] (littleEndian 4 nLastFile.toNat)
  blockinfo.foldl (fun (db : BlockTreeDB) block =>
    db.insert (blockKey block.1) (CDiskBlockIndex.ofIndex block.2).serialize) db

/-- Reading a key as `std::pair<char, uint256>`; the loop uses only its first byte. -/
def readBlockKey (key : Bytes) : Option UInt8 := if key.length < 33 then none else key.head?

/-- `InsertBlockIndex`: the index with an entry for a hash, which is empty if it is new. The zero hash
gets none. -/
def insertBlockIndex (index : IndexMap) (hash : H256) : IndexMap :=
  if hash = 0 then index
  else if (index hash).isSome then index
  else Function.update index hash (some {})

def copyStored (entry : IndexEntry) (disk : CDiskBlockIndex) : IndexEntry :=
  { entry with
    pprev := if disk.hashPrev = 0 then none else some disk.hashPrev
    nHeight := disk.nHeight
    nFile := disk.nFile
    nDataPos := disk.nDataPos
    nUndoPos := disk.nUndoPos
    nVersion := disk.nVersion
    hashMerkleRoot := disk.hashMerkleRoot
    nTime := disk.nTime
    nBits := disk.nBits
    nNonce := disk.nNonce
    nMoneySupply := disk.nMoneySupply
    nStatus := disk.nStatus
    nTx := disk.nTx
    hashStateRoot := disk.hashStateRoot
    hashUTXORoot := disk.hashUTXORoot
    nStakeModifier := disk.nStakeModifier
    prevoutStake := disk.prevoutStake
    vchBlockSig := disk.vchBlockSig }

end BlockTreeDB
end Artax
