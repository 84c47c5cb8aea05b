import Artax.Store.BlockIndexDB

/-!
# The block index across a restart

The operations that change stored fields of block index entries, interleaved with writes to the
database. A loaded entry has the fields that were written, except for the proof hash, which is read
but not copied into the index.
-/

namespace Artax

open CScript CBlockHeader Util.OrderedMap Function BlockStatus CDiskBlockIndex List Option BlockTreeDB

structure CBlockHeader.InRange (header : CBlockHeader) : Prop where
  nVersion : -2 ^ 31 ≤ header.nVersion ∧ header.nVersion < 2 ^ 31
  hashPrevBlock : header.hashPrevBlock < 2 ^ 256
  hashMerkleRoot : header.hashMerkleRoot < 2 ^ 256
  hashStateRoot : header.hashStateRoot < 2 ^ 256
  hashUTXORoot : header.hashUTXORoot < 2 ^ 256
  prevoutStake : header.prevoutStake.hash < 2 ^ 256

def isDERSignature (sig : Bytes) : Bool :=
  let byte := fun i => sig.getD i 0
  let lenR := (byte 3).toNat
  let lenS := (byte (5 + lenR)).toNat
  9 ≤ sig.length && sig.length ≤ 73 && byte 0 == 0x30 && (byte 1).toNat == sig.length - 2 &&
    5 + lenR < sig.length && lenR + lenS + 6 == sig.length &&
    byte 2 == 0x02 && lenR ≠ 0 && byte 4 &&& 0x80 == 0 &&
    !(1 < lenR && byte 4 == 0 && byte 5 &&& 0x80 == 0) &&
    byte (lenR + 4) == 0x02 && lenS ≠ 0 && byte (lenR + 6) &&& 0x80 == 0 &&
    !(1 < lenS && byte (lenR + 6) == 0 && byte (lenR + 7) &&& 0x80 == 0)

structure CDiskBlockPos where
  nFile : Nat
  nPos : UInt32
  nFile_le : nFile ≤ intMax

structure IndexEnv where
  hash : Bytes → H256
  hash_lt : ∀ bytes, hash bytes < 2 ^ 256
  hash_ne_zero : ∀ bytes, hash bytes ≠ 0
  params : ConsensusParams
  checkLowS : Bytes → Bool
  isWitnessEnabled : IndexMap → Option H256 → Bool
  headerChecks : IndexMap → CBlockHeader → Bool
  genesis : CBlockHeader
  genesis_inRange : genesis.InRange
  genesis_prev : genesis.hashPrevBlock = 0
  genesis_sig : genesis.vchBlockSig = []
  genesis_work : genesis.isProofOfStake = false
  genesis_hash : hash genesis.serialize = params.hashGenesisBlock
  genesis_proof : checkProofOfWork params.hashGenesisBlock genesis.nBits params = true

namespace IndexEnv

variable (env : IndexEnv)

def getHash (header : CBlockHeader) : H256 := env.hash header.serialize

/-- `CheckCanonicalBlockSignature`. -/
def checkCanonicalBlockSignature (header : CBlockHeader) : Bool :=
  if header.isProofOfStake then isDERSignature header.vchBlockSig && env.checkLowS header.vchBlockSig
  else header.vchBlockSig.isEmpty

/-- `ComputeStakeModifier`. -/
def computeStakeModifier (prev : Option IndexEntry) (kernel : H256) : H256 :=
  match prev with
  | none => 0
  | some prev => env.hash (littleEndian 32 kernel ++ littleEndian 32 prev.nStakeModifier)

def addToBlockIndex (index : IndexMap) (block : CBlockHeader) : IndexMap :=
  let hash := env.getHash block
  if (index hash).isSome then index
  else
    let pindexNew := IndexEntry.ofHeader block
    -- the parent is sought after the new entry is in the map
    let prev := update index hash (some pindexNew) block.hashPrevBlock
    let pindexNew := match prev with
      | some prev => { pindexNew with pprev := some block.hashPrevBlock, nHeight := prev.nHeight + 1 }
      | none => pindexNew
    let kernel := if block.isProofOfStake then block.prevoutStake.hash else hash
    let pindexNew := { pindexNew with nStakeModifier := env.computeStakeModifier prev kernel }
    update index hash (some (pindexNew.raiseValidity validTree))

def acceptBlockHeader (index : IndexMap) (block : CBlockHeader) : Option IndexMap :=
  let hash := env.getHash block
  if hash ≠ env.params.hashGenesisBlock then
    if (index hash).isSome then some index
    else if !env.checkCanonicalBlockSignature block then none
    else if (index block.hashPrevBlock).isNone then none
    else if !env.headerChecks index block then none
    else if !block.isProofOfStake && !checkProofOfWork hash block.nBits env.params then none
    else some (env.addToBlockIndex index block)
  else some (env.addToBlockIndex index block)

def receivedBlockTransactions (index : IndexMap) (entry : IndexEntry) (nTx : UInt32)
    (pos : CDiskBlockPos) : IndexEntry :=
  let entry := { entry with nTx, nFile := pos.nFile, nDataPos := pos.nPos, nUndoPos := 0 }
  let entry := { entry with nStatus := entry.nStatus ||| haveData }
  let entry := if env.isWitnessEnabled index entry.pprev then
    { entry with nStatus := entry.nStatus ||| optWitness } else entry
  entry.raiseValidity validTransactions

/-- How far a run of `ConnectBlock` gets with what it changes of the entry. -/
inductive ConnectReach
  | proofHash
  | moneySupply
  | undoData
  | validity
  deriving DecidableEq, Repr

/-- What `ConnectBlock` reads of the block and its coins for the entry. -/
structure ConnectData where
  blockFromTime : UInt32
  prevout : COutPoint
  nValueOut : CAmount
  nValueIn : CAmount
  undoPos : UInt32

def updateHashProof (index : IndexMap) (hash : H256) (entry : IndexEntry) (data : ConnectData) :
    IndexEntry :=
  let nStakeModifier := ((entry.pprev.bind index).map IndexEntry.nStakeModifier).getD 0
  { entry with
    hashProof := if entry.isProofOfStake then
        env.hash (littleEndian 32 nStakeModifier ++
          littleEndian 4 data.blockFromTime.toNat ++ data.prevout.serialize ++
          littleEndian 4 entry.nTime.toNat)
      else hash }

def updateMoneySupply (index : IndexMap) (entry : IndexEntry) (data : ConnectData) : IndexEntry :=
  let before := ((entry.pprev.bind index).map IndexEntry.nMoneySupply).getD 0
  { entry with nMoneySupply := before + UInt64.ofInt data.nValueOut - UInt64.ofInt data.nValueIn }

/-- `WriteUndoDataForBlock`. -/
def writeUndoDataForBlock (entry : IndexEntry) (data : ConnectData) : IndexEntry :=
  if entry.has haveUndo then entry
  else { entry with nUndoPos := data.undoPos, nStatus := entry.nStatus ||| haveUndo }

def connectBlock (index : IndexMap) (hash : H256) (entry : IndexEntry) (data : ConnectData) :
    ConnectReach → IndexEntry
  | .proofHash => env.updateHashProof index hash entry data
  | .moneySupply => updateMoneySupply index (env.updateHashProof index hash entry data) data
  | .undoData =>
    writeUndoDataForBlock (updateMoneySupply index (env.updateHashProof index hash entry data) data) data
  | .validity =>
    (writeUndoDataForBlock (updateMoneySupply index (env.updateHashProof index hash entry data) data)
      data).raiseValidity validScripts

/-- `LoadGenesisBlock`. -/
def loadGenesisBlock (nTx : UInt32) (pos : CDiskBlockPos) : IndexMap :=
  let index := env.addToBlockIndex (fun _ => none) env.genesis
  let hash := env.getHash env.genesis
  match index hash with
  | none => index
  | some pindex => update index hash (some (env.receivedBlockTransactions index
      { pindex with hashProof := env.params.hashGenesisBlock } nTx pos))

/-- `CheckIndexProof`. -/
def checkIndexProof (hash : H256) (entry : IndexEntry) : Bool :=
  if entry.isProofOfStake then true else checkProofOfWork hash entry.nBits env.params

/-- The body of the loop of `LoadBlockIndexGuts`. A stored entry whose header hashes to zero would be
written through a null pointer. -/
def loadEntry (index : IndexMap) (disk : CDiskBlockIndex) : Option IndexMap :=
  let hash := env.getHash disk.header
  if hash = 0 then none
  else
    let index := insertBlockIndex (insertBlockIndex index hash) disk.hashPrev
    let pindexNew := copyStored ((index hash).getD {}) disk
    if !env.checkIndexProof hash pindexNew then none
    else some (update index hash (some pindexNew))

def loadEntries : List (Bytes × Bytes) → IndexMap → Option IndexMap
  | [], index => some index
  | (key, value) :: rest, index =>
    if readBlockKey key = some blockIndexTag then
      match unserialize.run value with
      | some (diskindex, _) =>
        match env.loadEntry index diskindex with
        | some index => loadEntries rest index
        | none => none
      | none => none
    else some index

/-- `CBlockTreeDB::LoadBlockIndexGuts`. -/
def loadBlockIndexGuts (db : BlockTreeDB) : Option IndexMap :=
  env.loadEntries (db.iterate (blockKey 0)) (fun _ => none)

structure Node where
  mapBlockIndex : IndexMap
  blocktree : BlockTreeDB

def Node.setEntry (s : Node) (hash : H256) (entry : IndexEntry) : Node :=
  { s with mapBlockIndex := update s.mapBlockIndex hash (some entry) }

/-- The operations on the index and the database. The height of a block is an `int`, whose overflow is
undefined. -/
inductive Step : Node → Node → Prop
  | acceptBlockHeader {s : Node} {block : CBlockHeader} {index : IndexMap} (typed : block.InRange)
      (height : ∀ prev, s.mapBlockIndex block.hashPrevBlock = some prev → prev.nHeight + 1 ≤ intMax)
      (accepted : env.acceptBlockHeader s.mapBlockIndex block = some index) :
      Step s { s with mapBlockIndex := index }
  | receivedBlockTransactions {s : Node} {hash : H256} {entry : IndexEntry}
      (found : s.mapBlockIndex hash = some entry) (nTx : UInt32) (pos : CDiskBlockPos) :
      Step s (s.setEntry hash (env.receivedBlockTransactions s.mapBlockIndex entry nTx pos))
  | connectBlock {s : Node} {hash : H256} {entry : IndexEntry}
      (found : s.mapBlockIndex hash = some entry) (data : ConnectData) (reach : ConnectReach) :
      Step s (s.setEntry hash (env.connectBlock s.mapBlockIndex hash entry data reach))
  | writeBatchSync {s : Node} (fileInfo : List (UInt32 × Bytes)) (nLastFile : UInt32)
      {blockinfo : List (H256 × IndexEntry)}
      (listed : ∀ block ∈ blockinfo, s.mapBlockIndex block.1 = some block.2) :
      Step s { s with blocktree := s.blocktree.writeBatchSync fileInfo nLastFile blockinfo }
  | writeOther {s : Node} {db : BlockTreeDB}
      (same : ∀ key, key.head? = some blockIndexTag → db.find? key = s.blocktree.find? key) :
      Step s { s with blocktree := db }

inductive Reachable : Node → Prop
  | loadGenesisBlock (nTx : UInt32) (pos : CDiskBlockPos) :
      Reachable ⟨env.loadGenesisBlock nTx pos, empty⟩
  | step {s s' : Node} (before : Reachable s) (next : env.Step s s') : Reachable s'

/-! ## What holds of every entry -/

/-- An entry is stored in the range of its form, under the hash of the header that is rebuilt from it,
and its proof of work passes. -/
structure Sound (hash : H256) (entry : IndexEntry) : Prop where
  inRange : (ofIndex entry).InRange
  rebuilt : env.getHash (ofIndex entry).header = hash
  linked : entry.pprev ≠ some 0
  proof : env.checkIndexProof hash entry = true

variable {env}

variable {hash other : H256} {entry : IndexEntry} {index index' : IndexMap} {block : CBlockHeader}
  {db : BlockTreeDB} {blockinfo : List (H256 × IndexEntry)}

theorem Sound.ne_zero (sound : env.Sound hash entry) : hash ≠ 0 :=
  sound.rebuilt ▸ env.hash_ne_zero _

theorem Sound.lt (sound : env.Sound hash entry) : hash < 2 ^ 256 :=
  sound.rebuilt ▸ env.hash_lt _

/-- Two entries that agree in what stays as it is once the entry is made. -/
structure SameHeader (entry entry' : IndexEntry) : Prop where
  header : (ofIndex entry').header = (ofIndex entry).header
  pprev : entry'.pprev = entry.pprev
  nHeight : entry'.nHeight = entry.nHeight
  nStakeModifier : entry'.nStakeModifier = entry.nStakeModifier

theorem SameHeader.trans {first second third : IndexEntry} (left : SameHeader first second)
    (right : SameHeader second third) : SameHeader first third where
  header := right.header.trans left.header
  pprev := right.pprev.trans left.pprev
  nHeight := right.nHeight.trans left.nHeight
  nStakeModifier := right.nStakeModifier.trans left.nStakeModifier

theorem sameHeader_raiseValidity (entry : IndexEntry) (nUpTo : UInt32) :
    SameHeader entry (entry.raiseValidity nUpTo) := by
  unfold IndexEntry.raiseValidity
  split_ifs <;> exact ⟨rfl, rfl, rfl, rfl⟩

/-- Of what changes later, the file and the proof hash have to stay in range. -/
structure Bounded (entry : IndexEntry) : Prop where
  nFile : entry.nFile ≤ intMax
  hashProof : entry.hashProof < 2 ^ 256

theorem Bounded.raiseValidity (bounded : Bounded entry) (nUpTo : UInt32) :
    Bounded (entry.raiseValidity nUpTo) := by
  unfold IndexEntry.raiseValidity
  split_ifs <;> exact ⟨bounded.nFile, bounded.hashProof⟩

section

variable (sound : env.Sound hash entry)
include sound

theorem Sound.bounded :
    Bounded entry := ⟨sound.inRange.nFile, sound.inRange.hashProof⟩

theorem Sound.of_sameHeader {entry' : IndexEntry} (same : SameHeader entry entry')
    (bounded : Bounded entry') : env.Sound hash entry' := by
  have field {α : Type} (f : CBlockHeader → α) :
      f (ofIndex entry').header = f (ofIndex entry).header :=
    congrArg f same.header
  have range := sound.inRange
  have proof := sound.proof
  refine ⟨?_, ?_, ?_, ?_⟩
  · exact {
      nHeight := same.nHeight.trans_le range.nHeight
      nFile := bounded.nFile
      nVersion := ⟨range.nVersion.1.trans_eq (field nVersion).symm,
        (field nVersion).trans_lt range.nVersion.2⟩
      hashPrev := (field hashPrevBlock).trans_lt range.hashPrev
      hashMerkleRoot := (field hashMerkleRoot).trans_lt range.hashMerkleRoot
      hashStateRoot := (field hashStateRoot).trans_lt range.hashStateRoot
      hashUTXORoot := (field hashUTXORoot).trans_lt range.hashUTXORoot
      nStakeModifier := same.nStakeModifier.trans_lt range.nStakeModifier
      prevoutStake := (field fun h => h.prevoutStake.hash).trans_lt range.prevoutStake
      hashProof := bounded.hashProof
      vchBlockSig := (field fun h => h.vchBlockSig.length).trans_le range.vchBlockSig }
  · rw [same.header]
    exact sound.rebuilt
  · rw [same.pprev]
    exact sound.linked
  · have stake : entry'.prevoutStake = entry.prevoutStake := field prevoutStake
    have bits : entry'.nBits = entry.nBits := field nBits
    rw [checkIndexProof, IndexEntry.isProofOfStake, stake, bits]
    exact proof

theorem Sound.receivedBlockTransactions (nTx : UInt32) (pos : CDiskBlockPos) :
    env.Sound hash (env.receivedBlockTransactions index entry nTx pos) := by
  refine sound.of_sameHeader (.trans ?_ (sameHeader_raiseValidity _ _)) (Bounded.raiseValidity ?_ _)
  · dsimp only
    split_ifs <;> exact ⟨rfl, rfl, rfl, rfl⟩
  · dsimp only
    split_ifs <;> exact ⟨pos.nFile_le, sound.inRange.hashProof⟩

theorem Sound.updateHashProof (index : IndexMap) (data : ConnectData) :
    env.Sound hash (env.updateHashProof index hash entry data) := by
  refine sound.of_sameHeader ⟨rfl, rfl, rfl, rfl⟩ ⟨sound.inRange.nFile, ?_⟩
  unfold IndexEnv.updateHashProof
  split_ifs
  · exact env.hash_lt _
  · exact sound.lt

theorem Sound.connectBlock (data : ConnectData) (reach : ConnectReach) :
    env.Sound hash (env.connectBlock index hash entry data reach) := by
  have proved := sound.updateHashProof index data
  have supplied : env.Sound hash
      (updateMoneySupply index (env.updateHashProof index hash entry data) data) :=
    proved.of_sameHeader ⟨rfl, rfl, rfl, rfl⟩ ⟨proved.inRange.nFile, proved.inRange.hashProof⟩
  have undone : env.Sound hash (writeUndoDataForBlock
      (updateMoneySupply index (env.updateHashProof index hash entry data) data) data) := by
    unfold writeUndoDataForBlock
    split_ifs
    · exact supplied
    · exact supplied.of_sameHeader ⟨rfl, rfl, rfl, rfl⟩
        ⟨supplied.inRange.nFile, supplied.inRange.hashProof⟩
  cases reach with
  | proofHash => exact proved
  | moneySupply => exact supplied
  | undoData => exact undone
  | validity =>
    exact undone.of_sameHeader (sameHeader_raiseValidity _ _) (undone.bounded.raiseValidity _)

end

theorem computeStakeModifier_lt (prev : Option IndexEntry) (kernel : H256) :
    env.computeStakeModifier prev kernel < 2 ^ 256 := by
  cases prev with
  | none => exact Nat.two_pow_pos 256
  | some prev => exact env.hash_lt _

section

variable (typed : block.InRange) (sig : block.vchBlockSig.length ≤ 0x10000000)
  (proof : block.isProofOfStake ∨ checkProofOfWork (env.getHash block) block.nBits env.params)
include typed sig proof

theorem sound_ofHeader {pprev : Option H256} {nHeight : Nat} {nStakeModifier : H256}
    (parent : pprev.getD 0 = block.hashPrevBlock) (linked : pprev ≠ some 0)
    (height : nHeight ≤ intMax) (modifier : nStakeModifier < 2 ^ 256) :
    env.Sound (env.getHash block)
      { IndexEntry.ofHeader block with pprev := pprev, nHeight := nHeight, nStakeModifier } := by
  refine ⟨?_, ?_, linked, ?_⟩
  · exact {
      nHeight := height
      nFile := Nat.zero_le _
      nVersion := typed.nVersion
      hashPrev := parent.trans_lt typed.hashPrevBlock
      hashMerkleRoot := typed.hashMerkleRoot
      hashStateRoot := typed.hashStateRoot
      hashUTXORoot := typed.hashUTXORoot
      nStakeModifier := modifier
      prevoutStake := typed.prevoutStake
      hashProof := Nat.two_pow_pos 256
      vchBlockSig := sig }
  · change env.getHash { block with hashPrevBlock := pprev.getD 0 } = env.getHash block
    rw [parent]
  · change (if block.isProofOfStake then true
      else checkProofOfWork (env.getHash block) block.nBits env.params) = true
    split_ifs with staked
    · rfl
    · exact proof.resolve_left staked

theorem sound_addToBlockIndex (all : ∀ hash entry, index hash = some entry → env.Sound hash entry)
    (parent : (∃ prev, index block.hashPrevBlock = some prev ∧ prev.nHeight + 1 ≤ intMax) ∨ (block.hashPrevBlock = 0 ∧ index 0 = none)) :
    ∀ hash entry, env.addToBlockIndex index block hash = some entry → env.Sound hash entry := by
  intro hash entry found
  unfold addToBlockIndex at found
  by_cases known : (index (env.getHash block)).isSome = true
  · rw [if_pos known] at found
    exact all hash entry found
  · rw [if_neg known] at found
    by_cases new : hash = env.getHash block
    · subst new
      rw [update_self] at found
      obtain rfl := some.inj found
      have raised {e : IndexEntry} (sound : env.Sound (env.getHash block) e) (nUpTo : UInt32) :
          env.Sound (env.getHash block) (e.raiseValidity nUpTo) :=
        sound.of_sameHeader (sameHeader_raiseValidity _ _) (sound.bounded.raiseValidity _)
      refine raised ?_ _
      rcases parent with ⟨prev, there, height⟩ | ⟨root, absent⟩
      · have other : block.hashPrevBlock ≠ env.getHash block := by
          intro same
          rw [← same, there] at known
          exact known rfl
        rw [update_of_ne other, there]
        exact sound_ofHeader typed sig proof rfl
          (fun zero => (all _ _ there).ne_zero (some.inj zero)) height (computeStakeModifier_lt _ _)
      · have other : block.hashPrevBlock ≠ env.getHash block := by
          rw [root]
          exact (env.hash_ne_zero _).symm
        rw [update_of_ne other, root, absent]
        exact sound_ofHeader typed sig proof root.symm (some_ne_none 0).symm (Nat.zero_le _)
          (computeStakeModifier_lt _ _)
    · rw [update_of_ne new] at found
      exact all hash entry found

end

theorem sig_of_canonical (canonical : env.checkCanonicalBlockSignature block) :
    block.vchBlockSig.length ≤ 0x10000000 := by
  unfold checkCanonicalBlockSignature at canonical
  split_ifs at canonical
  · simp only [isDERSignature, Bool.and_eq_true, decide_eq_true_eq] at canonical
    omega
  · rw [isEmpty_iff.1 canonical]
    exact Nat.zero_le _

theorem sound_acceptBlockHeader (all : ∀ hash entry, index hash = some entry → env.Sound hash entry)
    (rooted : (index env.params.hashGenesisBlock).isSome) (typed : block.InRange)
    (height : ∀ prev, index block.hashPrevBlock = some prev → prev.nHeight + 1 ≤ intMax)
    (accepted : env.acceptBlockHeader index block = some index') :
    ∀ hash entry, index' hash = some entry → env.Sound hash entry := by
  unfold acceptBlockHeader at accepted
  dsimp only at accepted
  split_ifs at accepted with other known canonical orphan checks work
  · exact some.inj accepted ▸ all
  · obtain rfl := some.inj accepted
    have proof : block.isProofOfStake ∨
        checkProofOfWork (env.getHash block) block.nBits env.params := by
      cases staked : block.isProofOfStake <;> simp_all
    obtain ⟨prev, there⟩ : ∃ prev, index block.hashPrevBlock = some prev :=
      ne_none_iff_exists'.1 fun absent => orphan (by rw [absent]; rfl)
    exact sound_addToBlockIndex typed (sig_of_canonical (by simpa using canonical)) proof all
      (.inl ⟨prev, there, height prev there⟩)
  · -- the genesis block has its entry
    obtain rfl := some.inj accepted
    rw [not_not] at other
    have same : env.addToBlockIndex index block = index := by
      unfold addToBlockIndex
      rw [other, if_pos rooted]
    rwa [same]

/-! ## What holds of the database -/

/-- The database holds sound entries under their keys. -/
def Held (env : IndexEnv) (db : BlockTreeDB) : Prop :=
  ∀ key value, db.find? key = some value → key.head? = some blockIndexTag →
    ∃ hash entry, key = blockKey hash ∧
      value = (ofIndex entry).serialize ∧ env.Sound hash entry

theorem Held.insert_other (held : env.Held db) {tag : UInt8} (rest value : Bytes)
    (other : tag ≠ blockIndexTag) : env.Held (db.insert (tag :: rest) value) := by
  intro key stored found tagged
  rw [find?_insert] at found
  split_ifs at found with same
  · rw [same] at tagged
    exact absurd (some.inj tagged) other
  · exact held key stored found tagged

theorem Held.writeBatchSync (held : env.Held db) (fileInfo : List (UInt32 × Bytes))
    (nLastFile : UInt32) (sound : ∀ block ∈ blockinfo, env.Sound block.1 block.2) :
    env.Held (db.writeBatchSync fileInfo nLastFile blockinfo) := by
  refine foldlRecOn (motive := fun db : BlockTreeDB => env.Held db) blockinfo _ ?_ ?_
  · refine Held.insert_other ?_ _ _ (by decide)
    refine foldlRecOn (motive := fun db : BlockTreeDB => env.Held db) fileInfo _ held ?_
    intro db held info _
    exact held.insert_other _ _ (by decide)
  · intro db held block member key value found tagged
    rw [find?_insert] at found
    split_ifs at found with same
    · obtain rfl := some.inj found
      exact ⟨block.1, block.2, same, rfl, sound block member⟩
    · exact held key value found tagged

/-- What a step keeps: the entries in memory and those in the database are sound, and the genesis
block has one. -/
structure Node.Ok (env : IndexEnv) (s : Node) : Prop where
  entries : ∀ hash entry, s.mapBlockIndex hash = some entry → env.Sound hash entry
  rooted : (s.mapBlockIndex env.params.hashGenesisBlock).isSome = true
  held : env.Held s.blocktree

theorem Node.mapBlockIndex_setEntry (s : Node) (hash other : H256) (entry : IndexEntry) :
    (s.setEntry hash entry).mapBlockIndex other =
      if other = hash then some entry else s.mapBlockIndex other := by
  rw [Node.setEntry]
  exact update_apply _ _ _ _

theorem Node.Ok.setEntry {s : Node} (ok : s.Ok env) (sound : env.Sound hash entry) :
    (s.setEntry hash entry).Ok env := by
  refine ⟨?_, ?_, ok.held⟩
  · intro other found there
    rw [Node.mapBlockIndex_setEntry] at there
    split_ifs at there with same
    · rw [same]
      exact some.inj there ▸ sound
    · exact ok.entries other found there
  · rw [Node.mapBlockIndex_setEntry]
    split_ifs
    · rfl
    · exact ok.rooted

theorem isSome_addToBlockIndex (there : (index hash).isSome) :
    (env.addToBlockIndex index block hash).isSome := by
  unfold addToBlockIndex
  by_cases known : (index (env.getHash block)).isSome = true
  · rwa [if_pos known]
  · rw [if_neg known]
    by_cases same : hash = env.getHash block
    · rw [same, update_self]
      rfl
    · rwa [update_of_ne same]

theorem isSome_acceptBlockHeader (accepted : env.acceptBlockHeader index block = some index')
    (there : (index hash).isSome) :
    (index' hash).isSome := by
  unfold acceptBlockHeader at accepted
  dsimp only at accepted
  split_ifs at accepted <;> obtain rfl := some.inj accepted
  · exact there
  · exact isSome_addToBlockIndex there
  · exact isSome_addToBlockIndex there

theorem Node.Ok.step {s s' : Node} (ok : s.Ok env) (next : env.Step s s') : s'.Ok env := by
  cases next with
  | acceptBlockHeader typed height accepted =>
    exact ⟨sound_acceptBlockHeader ok.entries ok.rooted typed height accepted,
      isSome_acceptBlockHeader accepted ok.rooted, ok.held⟩
  | receivedBlockTransactions found nTx pos =>
    exact ok.setEntry ((ok.entries _ _ found).receivedBlockTransactions nTx pos)
  | connectBlock found data reach =>
    exact ok.setEntry ((ok.entries _ _ found).connectBlock data reach)
  | writeBatchSync fileInfo nLastFile listed =>
    exact ⟨ok.entries, ok.rooted, ok.held.writeBatchSync fileInfo nLastFile
      fun block member => ok.entries _ _ (listed block member)⟩
  | writeOther same =>
    refine ⟨ok.entries, ok.rooted, ?_⟩
    intro key value found tagged
    exact ok.held key value ((same key tagged).symm.trans found) tagged

theorem ok_loadGenesisBlock (nTx : UInt32) (pos : CDiskBlockPos) :
    (Node.mk (env.loadGenesisBlock nTx pos) empty).Ok env := by
  have nothing : ∀ (hash : H256) (entry : IndexEntry), (fun _ => none : IndexMap) hash = some entry →
      env.Sound hash entry := by
    intro hash entry found
    cases found
  have sig : env.genesis.vchBlockSig.length ≤ 0x10000000 := by simp [env.genesis_sig]
  have proof : checkProofOfWork (env.getHash env.genesis) env.genesis.nBits env.params := by
    rw [getHash, env.genesis_hash]
    exact env.genesis_proof
  have entries := sound_addToBlockIndex env.genesis_inRange sig (.inr proof) nothing
    (.inr ⟨env.genesis_prev, rfl⟩)
  obtain ⟨pindex, made⟩ : ∃ pindex, env.addToBlockIndex (fun _ => none) env.genesis
      (env.getHash env.genesis) = some pindex := by
    unfold addToBlockIndex
    simp
  have sound := entries _ _ made
  have ok : (Node.mk (env.addToBlockIndex (fun _ => none) env.genesis) empty).Ok env := by
    refine ⟨entries, ?_, ?_⟩
    · rw [← env.genesis_hash]
      exact isSome_iff_exists.2 ⟨pindex, made⟩
    · intro key value found
      cases found
  have hashed : env.Sound (env.getHash env.genesis)
      { pindex with hashProof := env.params.hashGenesisBlock } :=
    sound.of_sameHeader ⟨rfl, rfl, rfl, rfl⟩ ⟨sound.inRange.nFile, env.genesis_hash ▸ env.hash_lt _⟩
  unfold loadGenesisBlock
  dsimp only
  rw [made]
  exact ok.setEntry (hashed.receivedBlockTransactions nTx pos)

theorem Reachable.ok {s : Node} (reached : env.Reachable s) : s.Ok env := by
  induction reached with
  | loadGenesisBlock nTx pos => exact ok_loadGenesisBlock nTx pos
  | step _ next ih => exact ih.step next

/-! ## Loading -/

def restored (entry : IndexEntry) : IndexEntry :=
  copyStored {} (ofIndex entry).kept

/-- A hash without an entry, or with the empty one that stands for the parent of a loaded block. -/
def Blank (index : IndexMap) (hash : H256) : Prop := index hash = none ∨ index hash = some {}

theorem insertBlockIndex_of_some (there : index other = some entry) :
    insertBlockIndex index hash other = some entry := by
  unfold insertBlockIndex
  split_ifs with _ known
  · exact there
  · exact there
  · rw [update_of_ne, there]
    rintro rfl
    rw [there] at known
    exact known rfl

theorem Blank.insertBlockIndex (blank : Blank index other) (hash : H256) :
    Blank (BlockTreeDB.insertBlockIndex index hash) other := by
  unfold BlockTreeDB.insertBlockIndex
  split_ifs with _ known
  · exact blank
  · exact blank
  · by_cases same : other = hash
    · right
      rw [same, update_self]
    · unfold Blank
      rwa [update_of_ne same]

theorem loadEntry_kept (sound : env.Sound hash entry) (blank : Blank index hash) :
    ∃ loaded, env.loadEntry index (ofIndex entry).kept = some loaded ∧
      loaded hash = some (restored entry) ∧
      (∀ other found, other ≠ hash → index other = some found → loaded other = some found) ∧
      ∀ other, other ≠ hash → Blank index other → Blank loaded other := by
  have rebuilt : env.getHash (ofIndex entry).kept.header = hash := sound.rebuilt
  have empty : ((insertBlockIndex (insertBlockIndex index hash)
      (ofIndex entry).kept.hashPrev) hash).getD {} = {} := by
    rcases (blank.insertBlockIndex hash).insertBlockIndex
      (ofIndex entry).kept.hashPrev with none | some
    · rw [none]
      rfl
    · rw [some]
      rfl
  unfold loadEntry
  dsimp only
  rw [rebuilt, if_neg sound.ne_zero, empty]
  have proof : env.checkIndexProof hash
      (copyStored {} (ofIndex entry).kept) := sound.proof
  rw [proof]
  refine ⟨_, rfl, update_self .., ?_, ?_⟩
  · intro other found apart there
    rw [update_of_ne apart]
    exact insertBlockIndex_of_some (insertBlockIndex_of_some there)
  · intro other apart blank
    unfold Blank
    rw [update_of_ne apart]
    exact (blank.insertBlockIndex _).insertBlockIndex _

theorem readBlockKey_blockKey (hash : H256) :
    readBlockKey (blockKey hash) = some blockIndexTag := by
  unfold readBlockKey
  rw [if_neg (by simp [blockKey, length_littleEndian])]
  rfl

theorem blockKey_injective {first second : H256} (small : first < 2 ^ 256) (small' : second < 2 ^ 256)
    (same : blockKey first = blockKey second) : first = second :=
  littleEndian_injective (lt_of_lt_of_eq small (by decide))
    (lt_of_lt_of_eq small' (by decide)) (cons.inj same).2

theorem loadEntries_spec {entries : List (Bytes × Bytes)}
    (sorted : entries.Pairwise (fun left right => left.1 < right.1))
    (above : ∀ item ∈ entries, blockKey 0 ≤ item.1)
    (held : ∀ item ∈ entries, item.1.head? = some blockIndexTag →
      ∃ hash entry, item.1 = blockKey hash ∧
        item.2 = (ofIndex entry).serialize ∧ env.Sound hash entry)
    (blank : ∀ hash value, (blockKey hash, value) ∈ entries → Blank index hash) :
    ∃ loaded, env.loadEntries entries index = some loaded ∧
      (∀ hash entry, env.Sound hash entry →
        (blockKey hash, (ofIndex entry).serialize) ∈ entries →
        loaded hash = some (restored entry)) ∧
      ∀ hash found, (∀ value, (blockKey hash, value) ∉ entries) →
        index hash = some found → loaded hash = some found := by
  induction entries generalizing index with
  | nil => exact ⟨index, rfl, fun _ _ _ member => absurd member not_mem_nil,
      fun _ _ _ there => there⟩
  | cons item rest ih =>
    obtain ⟨key, value⟩ := item
    obtain ⟨least, sortedRest⟩ := pairwise_cons.1 sorted
    by_cases tagged : key.head? = some blockIndexTag
    · obtain ⟨hash, entry, rfl, rfl, sound⟩ := held _ mem_cons_self tagged
      -- the keys ahead are larger, so their blocks are others
      have apart {other : H256} {stored : Bytes}
          (member : (blockKey other, stored) ∈ rest) : other ≠ hash := by
        rintro rfl
        exact lt_irrefl (blockKey other) (least _ member)
      obtain ⟨index', once, placed, stays, stillBlank⟩ :=
        loadEntry_kept sound (blank hash _ mem_cons_self)
      obtain ⟨loaded, run, ahead, behind⟩ := ih sortedRest
        (fun item member => above item (mem_cons_of_mem _ member))
        (fun item member => held item (mem_cons_of_mem _ member))
        (fun other stored member => stillBlank other (apart member)
          (blank other stored (mem_cons_of_mem _ member)))
      have read := reads_serialize sound.inRange []
      rw [append_nil] at read
      have first : loaded hash = some (restored entry) :=
        behind hash _ (fun stored member => apart member rfl) placed
      refine ⟨loaded, ?_, ?_, ?_⟩
      · rw [loadEntries, if_pos (readBlockKey_blockKey hash), read]
        dsimp only
        rw [once]
        exact run
      · intro other found otherSound member
        rcases mem_cons.1 member with same | later
        · obtain ⟨keys, values⟩ := Prod.mk.inj same
          obtain rfl : other = hash := blockKey_injective otherSound.lt sound.lt keys
          have stored := reads_serialize otherSound.inRange
          rw [values] at stored
          rw [first, restored, restored, (reads_serialize sound.inRange).unique stored]
        · exact ahead other found otherSound later
      · intro other found absent there
        refine behind other found (fun stored member => absent stored (mem_cons_of_mem _ member)) ?_
        refine stays other found ?_ there
        rintro rfl
        exact absent _ mem_cons_self
    · -- a key of another index ends the loop; those of this one lie before it
      have ended {hash : H256} {stored : Bytes}
          (member : (blockKey hash, stored) ∈ (key, value) :: rest) : False := by
        have below : key ≤ blockKey hash := by
          rcases mem_cons.1 member with same | later
          · exact le_of_eq (congrArg Prod.fst same).symm
          · exact le_of_lt (least _ later)
        exact tagged (Util.head?_of_between (above _ mem_cons_self) below)
      refine ⟨index, ?_, fun _ _ _ member => (ended member).elim, fun _ _ _ there => there⟩
      rw [loadEntries, if_neg]
      unfold readBlockKey
      split_ifs
      · exact not_false
      · exact tagged

theorem blockKey_zero_le (hash : H256) : blockKey 0 ≤ blockKey hash := by
  have zeros (width value : Nat) :
      ¬ littleEndian width value < littleEndian width 0 := by
    induction width generalizing value with
    | zero => exact lt_irrefl _
    | succ width ih =>
      rw [littleEndian, littleEndian, cons_lt_cons_iff, not_or, Nat.zero_div]
      exact ⟨UInt8.not_lt.2 (UInt8.zero_le), fun tail => ih _ tail.2⟩
  rw [← not_lt, blockKey, blockKey, cons_lt_cons_iff, not_or]
  exact ⟨lt_irrefl _, fun tail => zeros 32 hash tail.2⟩

theorem Held.loadBlockIndexGuts (held : env.Held db) :
    ∃ loaded, env.loadBlockIndexGuts db = some loaded ∧
      ∀ hash entry, env.Sound hash entry →
        db.find? (blockKey hash) = some (ofIndex entry).serialize →
        loaded hash = some (restored entry) := by
  have listed (item : Bytes × Bytes) : item ∈ db.iterate (blockKey 0) ↔
      item ∈ db.entries ∧ blockKey 0 ≤ item.1 := db.mem_iterate_iff _ item
  have sorted : (db.iterate (blockKey 0)).Pairwise (fun left right => left.1 < right.1) :=
    db.sorted.sublist (dropWhile_sublist _)
  have blank (hash : H256) (value : Bytes)
      (_ : (blockKey hash, value) ∈ db.iterate (blockKey 0)) :
      Blank (fun _ => none) hash := .inl rfl
  obtain ⟨loaded, run, all, _⟩ := loadEntries_spec sorted
    (fun item member => ((listed item).1 member).2)
    (fun item member => held item.1 item.2 ((db.mem_entries_iff _ _).1 ((listed item).1 member).1)) blank
  refine ⟨loaded, run, ?_⟩
  intro hash entry sound stored
  exact all hash entry sound ((listed _).2 ⟨(db.mem_entries_iff _ _).2 stored, blockKey_zero_le hash⟩)

theorem find?_writeBatchSync (listed : ∀ block ∈ blockinfo, index block.1 = some block.2)
    (small : ∀ block ∈ blockinfo, block.1 < 2 ^ 256) (db : BlockTreeDB)
    (fileInfo : List (UInt32 × Bytes)) (nLastFile : UInt32) {block : H256 × IndexEntry}
    (member : block ∈ blockinfo) :
    (db.writeBatchSync fileInfo nLastFile blockinfo).find? (blockKey block.1) =
      some (ofIndex block.2).serialize := by
  unfold writeBatchSync
  dsimp only
  -- whatever the files have left in the database
  generalize (fileInfo.foldl _ db).insert _ _ = db
  induction blockinfo generalizing db with
  | nil => cases member
  | cons first rest ih =>
    rw [foldl_cons]
    by_cases later : block ∈ rest
    · exact ih (fun b m => listed b (mem_cons_of_mem _ m))
        (fun b m => small b (mem_cons_of_mem _ m)) later _
    · obtain rfl : block = first := (mem_cons.1 member).resolve_right later
      rw [find?_foldl_insert_of_not_mem
        (fun b : H256 × IndexEntry => blockKey b.1)
        (fun b => (ofIndex b.2).serialize), find?_insert, if_pos rfl]
      -- a second entry for the block would be the same one
      intro repeated
      obtain ⟨again, there, same⟩ := mem_map.1 repeated
      have hashes : again.1 = block.1 := blockKey_injective
        (small _ (mem_cons_of_mem _ there)) (small _ member) same
      have entries : again.2 = block.2 := by
        have found := listed _ (mem_cons_of_mem _ there)
        rw [hashes, listed _ member] at found
        exact (some.inj found).symm
      exact later (Prod.ext hashes entries ▸ there)

/-- Two entries agree, in the positions where the status says that there are data. -/
def Agrees (loaded written : IndexEntry) : Prop :=
  { loaded with nFile := 0, nDataPos := 0, nUndoPos := 0 } =
      { written with nFile := 0, nDataPos := 0, nUndoPos := 0 } ∧
    (written.has haveData = true →
      loaded.nFile = written.nFile ∧ loaded.nDataPos = written.nDataPos) ∧
    (written.has haveUndo = true →
      loaded.nFile = written.nFile ∧ loaded.nUndoPos = written.nUndoPos)

/-- Loading the database succeeds, and the block has an entry that agrees with this one. -/
def Survives (env : IndexEnv) (db : BlockTreeDB) (hash : H256) (entry : IndexEntry) : Prop :=
  ∃ loaded found, env.loadBlockIndexGuts db = some loaded ∧ loaded hash = some found ∧
    Agrees found entry

theorem agrees_restored (sound : env.Sound hash entry) :
    Agrees (restored entry) { entry with hashProof := 0 } := by
  have parent : (if entry.pprev.getD 0 = 0 then none else some (entry.pprev.getD 0)) = entry.pprev := by
    cases prev : entry.pprev with
    | none => rfl
    | some hashPrev => exact if_neg fun zero => sound.linked (prev.trans (congrArg some zero))
  refine ⟨?_, ?_, ?_⟩
  · change ({ entry with
      pprev := if entry.pprev.getD 0 = 0 then none else some (entry.pprev.getD 0)
      hashProof := 0, nFile := 0, nDataPos := 0, nUndoPos := 0 } : IndexEntry) = _
    rw [parent]
  · intro data
    change entry.has haveData = true at data
    have either : (entry.has haveData || entry.has haveUndo) := by
      rw [data, Bool.true_or]
    exact ⟨if_pos either, if_pos data⟩
  · intro undo
    change entry.has haveUndo = true at undo
    have either : (entry.has haveData || entry.has haveUndo) := by
      rw [undo, Bool.or_true]
    exact ⟨if_pos either, if_pos undo⟩

theorem Node.Ok.survives_iff {s : Node} (ok : s.Ok env) (fileInfo : List (UInt32 × Bytes))
    (nLastFile : UInt32) (listed : ∀ block ∈ blockinfo, s.mapBlockIndex block.1 = some block.2)
    (written : (hash, entry) ∈ blockinfo) :
    env.Survives (s.blocktree.writeBatchSync fileInfo nLastFile blockinfo) hash
        { entry with hashProof := 0 } ∧
      (env.Survives (s.blocktree.writeBatchSync fileInfo nLastFile blockinfo) hash entry ↔
        entry.hashProof = 0) := by
  have sound (block : H256 × IndexEntry) (member : block ∈ blockinfo) : env.Sound block.1 block.2 :=
    ok.entries _ _ (listed block member)
  obtain ⟨loaded, run, all⟩ :=
    (ok.held.writeBatchSync fileInfo nLastFile sound).loadBlockIndexGuts
  have found : loaded hash = some (restored entry) := all hash entry (sound _ written)
    (find?_writeBatchSync listed (fun block member => (sound block member).lt) s.blocktree fileInfo
      nLastFile written)
  have agrees := agrees_restored (sound _ written)
  refine ⟨⟨loaded, restored entry, run, found, agrees⟩, ?_, ?_⟩
  · rintro ⟨again, other, rerun, refound, same⟩
    obtain rfl : again = loaded := some.inj (rerun.symm.trans run)
    obtain rfl : other = restored entry := some.inj (refound.symm.trans found)
    exact (congrArg IndexEntry.hashProof same.1).symm
  · intro zero
    refine ⟨loaded, restored entry, run, found, ?_⟩
    rwa [show { entry with hashProof := 0 } = entry by rw [← zero]] at agrees

/-- The block index survives a restart up to the proof hashes: a written entry is loaded with all
other fields, and with its proof hash exactly if that is zero. -/
theorem restart_keeps_entry_iff {s : Node} (reached : env.Reachable s)
    (fileInfo : List (UInt32 × Bytes)) (nLastFile : UInt32) {blockinfo : List (H256 × IndexEntry)}
    (listed : ∀ block ∈ blockinfo, s.mapBlockIndex block.1 = some block.2) {hash : H256}
    {entry : IndexEntry} (written : (hash, entry) ∈ blockinfo) :
    env.Survives (s.blocktree.writeBatchSync fileInfo nLastFile blockinfo) hash
        { entry with hashProof := 0 } ∧
      (env.Survives (s.blocktree.writeBatchSync fileInfo nLastFile blockinfo) hash entry ↔
        entry.hashProof = 0) :=
  reached.ok.survives_iff fileInfo nLastFile listed written

/-! A network whose blocks need little work, and a block over its genesis block. -/

def plainHeader (hashPrevBlock : H256) : CBlockHeader where
  nVersion := 4
  hashPrevBlock := hashPrevBlock
  hashMerkleRoot := 5
  nTime := 1550382821
  nBits := 0x207fffff
  nNonce := 0
  hashStateRoot := 6
  hashUTXORoot := 7
  prevoutStake := ⟨0, 0xffffffff⟩
  vchBlockSig := []

def plainHash (bytes : Bytes) : H256 :=
  bytes.foldl (fun n byte => n * 257 + byte.toNat) 1 % (2 ^ 64 - 1) + 1

def plainEnv : IndexEnv where
  hash := plainHash
  hash_lt := fun bytes => by
    have small : plainHash bytes ≤ 2 ^ 64 - 1 := Nat.mod_lt _ (by decide)
    exact lt_of_le_of_lt small (by decide)
  hash_ne_zero := fun _ => Nat.succ_ne_zero _
  params := { ConsensusParams.main with
    powLimit := BitVec.ofNat 256 (2 ^ 255 - 1)
    hashGenesisBlock := plainHash (plainHeader 0).serialize }
  checkLowS := fun _ => true
  isWitnessEnabled := fun _ _ => true
  headerChecks := fun _ _ => true
  genesis := plainHeader 0
  genesis_inRange := by constructor <;> decide
  genesis_prev := rfl
  genesis_sig := rfl
  genesis_work := rfl
  genesis_hash := rfl
  genesis_proof := by decide +kernel

def plainNode : Node := ⟨plainEnv.loadGenesisBlock 1 ⟨0, 8, by decide⟩, empty⟩

def plainBlock : CBlockHeader := plainHeader plainEnv.params.hashGenesisBlock

theorem plainBlock_accepted : ∃ s entry, plainEnv.Reachable s ∧
    s.mapBlockIndex (plainEnv.getHash plainBlock) = some entry ∧ entry.hashProof = 0 ∧
    entry.isProofOfStake = false := by
  have run : (plainEnv.acceptBlockHeader plainNode.mapBlockIndex plainBlock).any (fun index =>
      (index (plainEnv.getHash plainBlock)).any fun entry =>
        entry.hashProof == 0 && !entry.isProofOfStake) = true := by decide +kernel
  have height : (plainNode.mapBlockIndex plainBlock.hashPrevBlock).all
      (fun prev => decide (prev.nHeight + 1 ≤ intMax)) := by decide +kernel
  obtain ⟨index, accepted, made⟩ := (any_eq_true _ _).1 run
  obtain ⟨entry, there, facts⟩ := (any_eq_true _ _).1 made
  simp only [Bool.and_eq_true, beq_iff_eq, Bool.not_eq_true'] at facts
  refine ⟨⟨index, _⟩, entry, .step (.loadGenesisBlock 1 ⟨0, 8, by decide⟩)
    (.acceptBlockHeader ?_ ?_ accepted), there, facts.1, facts.2⟩
  · constructor <;> decide +kernel
  · intro prev found
    have bound := (all_eq_true _ _).1 height prev found
    exact of_decide_eq_true bound

/-- The entry of a header survives. -/
theorem restart_keeps_header : ∃ s : Node, ∃ entry : IndexEntry, plainEnv.Reachable s ∧
    s.mapBlockIndex (plainEnv.getHash plainBlock) = some entry ∧
    plainEnv.Survives (s.blocktree.writeBatchSync [] 0 [(plainEnv.getHash plainBlock, entry)])
      (plainEnv.getHash plainBlock) entry := by
  obtain ⟨s, entry, reached, there, zero, _⟩ := plainBlock_accepted
  have listed : ∀ block ∈ [(plainEnv.getHash plainBlock, entry)],
      s.mapBlockIndex block.1 = some block.2 := by simpa using there
  exact ⟨s, entry, reached, there,
    (restart_keeps_entry_iff reached [] 0 listed mem_cons_self).2.2 zero⟩

theorem hashProof_connectBlock (work : entry.isProofOfStake = false) (nTx : UInt32)
    (pos : CDiskBlockPos) (data : ConnectData) :
    (env.connectBlock index' hash (env.receivedBlockTransactions index entry nTx pos) data
      .validity).hashProof = hash := by
  have raised (e : IndexEntry) (nUpTo : UInt32) : (e.raiseValidity nUpTo).hashProof = e.hashProof := by
    unfold IndexEntry.raiseValidity
    split_ifs <;> rfl
  have undone (e : IndexEntry) : (writeUndoDataForBlock e data).hashProof = e.hashProof := by
    unfold writeUndoDataForBlock
    split_ifs <;> rfl
  have staked : (env.receivedBlockTransactions index entry nTx pos).isProofOfStake = false := by
    have same : (env.receivedBlockTransactions index entry nTx pos).prevoutStake = entry.prevoutStake := by
      unfold receivedBlockTransactions IndexEntry.raiseValidity
      dsimp only
      split_ifs <;> rfl
    rw [IndexEntry.isProofOfStake, same]
    exact work
  rw [connectBlock, raised, undone]
  change (if _ = true then _ else hash) = hash
  rw [staked]
  rfl

/-- A block that is connected has its hash as proof hash, and loses it. -/
theorem restart_loses_hashProof : ∃ s : Node, ∃ entry : IndexEntry, plainEnv.Reachable s ∧
    s.mapBlockIndex (plainEnv.getHash plainBlock) = some entry ∧
    entry.hashProof = plainEnv.getHash plainBlock ∧
    ¬ plainEnv.Survives (s.blocktree.writeBatchSync [] 0 [(plainEnv.getHash plainBlock, entry)])
      (plainEnv.getHash plainBlock) entry := by
  obtain ⟨s, entry, reached, there, _, work⟩ := plainBlock_accepted
  let data : ConnectData := ⟨0, ⟨0, 0⟩, 0, 0, 8⟩
  let received := plainEnv.receivedBlockTransactions s.mapBlockIndex entry 1 ⟨0, 300, by decide⟩
  let s₁ := s.setEntry (plainEnv.getHash plainBlock) received
  let connected :=
    plainEnv.connectBlock s₁.mapBlockIndex (plainEnv.getHash plainBlock) received data .validity
  have there₁ : s₁.mapBlockIndex (plainEnv.getHash plainBlock) = some received :=
    (Node.mapBlockIndex_setEntry ..).trans (if_pos rfl)
  have reached₂ : plainEnv.Reachable (s₁.setEntry (plainEnv.getHash plainBlock) connected) :=
    .step (.step reached (.receivedBlockTransactions there 1 ⟨0, 300, by decide⟩))
      (.connectBlock there₁ data .validity)
  have proof : connected.hashProof = plainEnv.getHash plainBlock := hashProof_connectBlock work ..
  have there₂ : (s₁.setEntry (plainEnv.getHash plainBlock) connected).mapBlockIndex
      (plainEnv.getHash plainBlock) = some connected :=
    (Node.mapBlockIndex_setEntry ..).trans (if_pos rfl)
  have listed : ∀ block ∈ [(plainEnv.getHash plainBlock, connected)],
      (s₁.setEntry (plainEnv.getHash plainBlock) connected).mapBlockIndex block.1 = some block.2 := by
    simpa using there₂
  refine ⟨_, connected, reached₂, there₂, proof, fun survives => ?_⟩
  have zero := (reached₂.ok.survives_iff [] 0 listed mem_cons_self).2.1 survives
  exact plainEnv.hash_ne_zero _ (proof.symm.trans zero)

end IndexEnv
end Artax
