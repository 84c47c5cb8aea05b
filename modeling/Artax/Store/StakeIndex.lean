import Artax.Util.OrderedMap
import Artax.Validation.CheckBlock

/-!
# The stake index

`CBlockTreeDB` keeps for every height the key hash of the staker, in a store ordered by the bytes of
its keys. `ConnectBlock` writes the entry of a block; `DisconnectBlock` is meant to erase it.
-/

namespace Artax

open Address Util.OrderedMap List UInt32

def pubKeyID (hash160 : Bytes → Address) (vch : Bytes) : Address :=
  hash160 (if isCompressedPubKey vch ||
    (vch.length == 65 && (vch.getD 0 0 == 4 || vch.getD 0 0 == 6 || vch.getD 0 0 == 7)) then vch
    else [])

def CBlock.stakerKeyHash (hash160 : Bytes → Address) (block : CBlock) : Address :=
  if block.isProofOfStake then
    match block.getBlockPublicKey with
    | some vchPubKey => pubKeyID hash160 vchPubKey
    | none => 0
  else 0

abbrev BlockTreeDB := Util.OrderedMap Bytes Bytes

namespace BlockTreeDB

def heightIndexTag : UInt8 := 0x68

def stakeIndexTag : UInt8 := 0x73

def stakeKey (height : UInt32) : Bytes := stakeIndexTag :: CScript.littleEndian 4 height.toNat

variable (db : BlockTreeDB)

/-- `WriteStakeIndex`. -/
def writeStakeIndex (height : UInt32) (address : Address) : BlockTreeDB :=
  db.insert (stakeKey height) (asBytes address)

/-- `ReadStakeIndex`, `none` where it returns false. The key is decoded as one of the height index,
which fails after its first byte is read. -/
def readStakeIndex (height : UInt32) : Option Address :=
  match (db.iterate (stakeKey height)).head? with
  | some (key, value) =>
    if key.head? = some stakeIndexTag then some (ofBytes value) else none
  | none => none

def readCompactSize : Bytes → Option (Nat × Bytes)
  | [] => none
  | chSize :: rest =>
    let width := if chSize < 253 then 0 else if chSize = 253 then 2 else if chSize = 254 then 4 else 8
    let least := if chSize < 253 then 0 else if chSize = 253 then 253 else if chSize = 254 then 0x10000
      else 0x100000000
    if rest.length < width then none
    else
      let size := if chSize < 253 then chSize.toNat else ofBigEndian (rest.take width).reverse
      if size < least ∨ 0x10000000 < size then none else some (size, rest.drop width)

/-- `CHeightTxIndexKey`. -/
structure HeightIndexKey where
  tag : UInt8
  height : UInt32
  address : Address

/-- `CHeightTxIndexKey::Unserialize`. -/
def readHeightIndexKey : Bytes → Option HeightIndexKey
  | tag :: rest =>
    if rest.length < 4 then none
    else match readCompactSize (rest.drop 4) with
      | some (size, bytes) =>
        if bytes.length < size then none
        else some ⟨tag, UInt32.ofNat (ofBigEndian (rest.take 4)), ofBytes (bytes.take size)⟩
      | none => none
  | [] => none

def HeightIndexKey.bytes (key : HeightIndexKey) : Bytes :=
  key.tag :: bigEndian 4 key.height.toNat ++ 20 :: asBytes key.address

theorem head?_of_readHeightIndexKey {bytes : Bytes} {key : HeightIndexKey}
    (read : readHeightIndexKey bytes = some key) : bytes.head? = some key.tag := by
  cases bytes with
  | nil => cases read
  | cons tag rest =>
    simp only [readHeightIndexKey] at read
    split_ifs at read
    split at read
    · split_ifs at read
      cases read
      rfl
    · cases read

def keysToErase (height : UInt32) : List (Bytes × Bytes) → List Bytes
  | (key, _) :: rest =>
    match readHeightIndexKey key with
    | some found =>
      if found.tag = heightIndexTag ∧ found.height = height then found.bytes :: keysToErase height rest
      else []
    | none => []
  | [] => []

/-- `EraseStakeIndex`. -/
def eraseStakeIndex (height : UInt32) : BlockTreeDB :=
  (keysToErase height (db.iterate (stakeKey height))).foldl erase db

theorem tag_of_le {height : UInt32} {tag : UInt8} {rest : Bytes}
    (above : stakeKey height ≤ tag :: rest) : stakeIndexTag ≤ tag := by
  rw [← not_lt, stakeKey, cons_lt_cons_iff, not_or] at above
  exact not_lt.1 above.1

/-- The loop of `EraseStakeIndex` stops at once: the keys from one of the stake index on do not have
the tag that it asks for. -/
theorem keysToErase_eq_nil {height sought : UInt32} {entries : List (Bytes × Bytes)}
    (above : ∀ entry ∈ entries, stakeKey sought ≤ entry.1) : keysToErase height entries = [] := by
  cases entries with
  | nil => rfl
  | cons entry rest =>
    obtain ⟨key, value⟩ := entry
    have reached := above (key, value) mem_cons_self
    cases key with
    | nil => rfl
    | cons tag bytes =>
      have other : tag ≠ heightIndexTag := fun same => absurd (same ▸ tag_of_le reached) (by decide)
      simp only [keysToErase]
      split
      · rename_i found read
        have same : tag = found.tag := Option.some.inj (head?_of_readHeightIndexKey read)
        rw [if_neg fun matching => other (same.trans matching.1)]
      · rfl

theorem eraseStakeIndex_eq (height : UInt32) : eraseStakeIndex db height = db := by
  rw [eraseStakeIndex, keysToErase_eq_nil fun entry member => ((db.mem_iterate_iff _ _).1 member).2]
  rfl

theorem readStakeIndex_of_find {db : BlockTreeDB} {height : UInt32} {address : Address}
    (stored : db.find? (stakeKey height) = some (asBytes address)) :
    readStakeIndex db height = some address := by
  have member : (stakeKey height, asBytes address) ∈ db.iterate (stakeKey height) :=
    (db.mem_iterate_iff _ _).2 ⟨(db.mem_entries_iff _ _).2 stored, le_refl _⟩
  unfold readStakeIndex
  cases found : (db.iterate (stakeKey height)).head? with
  | none =>
    rw [head?_eq_none_iff.1 found] at member
    cases member
  | some first =>
    obtain ⟨key, value⟩ := first
    have listed := (db.mem_iterate_iff _ _).1 (mem_of_head? found)
    obtain rfl : key = stakeKey height :=
      le_antisymm (le_of_mem_iterate found member) listed.2
    have same : value = asBytes address :=
      Option.some.inj (((db.mem_entries_iff _ _).1 listed.1).symm.trans stored)
    rw [same]
    simp [stakeKey, ofBytes_asBytes]

theorem readStakeIndex_eq_none_iff (height : UInt32) :
    readStakeIndex db height = none ↔
      ∀ key, key.head? = some stakeIndexTag → (db.find? key).isSome → key < stakeKey height := by
  unfold readStakeIndex
  cases found : (db.iterate (stakeKey height)).head? with
  | none =>
    have empty := head?_eq_none_iff.1 found
    refine iff_of_true rfl fun key _ stored => not_le.1 fun above => ?_
    obtain ⟨value, stored⟩ := Option.isSome_iff_exists.1 stored
    have member := (db.mem_iterate_iff _ _).2 ⟨(db.mem_entries_iff key value).2 stored, above⟩
    rw [empty] at member
    cases member
  | some first =>
    obtain ⟨key, value⟩ := first
    have listed := (db.mem_iterate_iff _ _).1 (mem_of_head? found)
    have stored := (db.mem_entries_iff _ _).1 listed.1
    by_cases tagged : key.head? = some stakeIndexTag
    · simp only [tagged, if_true, reduceCtorEq, false_iff]
      intro below
      exact absurd (below key tagged (by rw [stored]; rfl)) (not_lt.2 listed.2)
    · simp only [tagged, if_false, true_iff]
      intro other otherTag otherStored
      refine not_le.1 fun above => tagged ?_
      -- the key found lies between two keys of the index
      obtain ⟨otherValue, otherStored⟩ := Option.isSome_iff_exists.1 otherStored
      have member := (db.mem_iterate_iff _ _).2
        ⟨(db.mem_entries_iff other otherValue).2 otherStored, above⟩
      have least : key ≤ other := le_of_mem_iterate found member
      obtain ⟨rest, rfl⟩ : ∃ rest, other = stakeIndexTag :: rest := by
        cases other with
        | nil => cases otherTag
        | cons tag rest =>
          cases otherTag
          exact ⟨rest, rfl⟩
      exact Util.head?_of_between listed.2 least

theorem littleEndian_injective {width first second : Nat} (small : first < 256 ^ width)
    (small' : second < 256 ^ width)
    (same : CScript.littleEndian width first = CScript.littleEndian width second) : first = second := by
  rw [← CScript.ofLittleEndian_littleEndian small, same, CScript.ofLittleEndian_littleEndian small']

theorem stakeKey_injective {first second : UInt32} (same : stakeKey first = stakeKey second) :
    first = second := by
  simp only [stakeKey, cons.injEq, true_and] at same
  exact UInt32.toNat_inj.1 (littleEndian_injective first.toNat_lt second.toNat_lt same)

end BlockTreeDB

structure IndexedChain where
  chain : List CBlock
  db : BlockTreeDB

namespace IndexedChain

open BlockTreeDB

def connect (hash160 : Bytes → Address) (s : IndexedChain) (block : CBlock) : IndexedChain where
  chain := s.chain ++ [block]
  db := s.db.writeStakeIndex (UInt32.ofNat (s.chain.length + 1)) (block.stakerKeyHash hash160)

def disconnect (s : IndexedChain) : IndexedChain where
  chain := s.chain.dropLast
  db := s.db.eraseStakeIndex (UInt32.ofNat s.chain.length)

/-- The runs from an empty index on top of the genesis block, with the greatest height that was ever
connected. Heights are `int`. -/
inductive Reaches (hash160 : Bytes → Address) : IndexedChain → Nat → Prop
  | start {db : BlockTreeDB}
      (empty : ∀ key, key.head? = some stakeIndexTag → db.find? key = none) : Reaches hash160 ⟨[], db⟩ 0
  | connect {s : IndexedChain} {top : Nat} (before : Reaches hash160 s top) (block : CBlock)
      (bound : s.chain.length + 1 < 2 ^ 31) :
      Reaches hash160 (s.connect hash160 block) (max top (s.chain.length + 1))
  | disconnect {s : IndexedChain} {top : Nat} (before : Reaches hash160 s top)
      (above : s.chain ≠ []) : Reaches hash160 s.disconnect top

/-- `ReadStakeIndex` is right about a height: it returns what was recorded for the block of the active
chain there, and false above the tip. -/
def ReadsRight (hash160 : Bytes → Address) (s : IndexedChain) (height : UInt32) : Prop :=
  (∀ k block, height.toNat = k + 1 → s.chain[k]? = some block →
    s.db.readStakeIndex height = some (block.stakerKeyHash hash160)) ∧
  (s.chain.length < height.toNat → s.db.readStakeIndex height = none)

/-- Along every run the entries of the active chain are in the store, and entries for all heights
that were ever connected and no others. -/
structure Indexed (hash160 : Bytes → Address) (s : IndexedChain) (top : Nat) : Prop where
  tip : s.chain.length ≤ top
  bound : top < 2 ^ 31
  stored : ∀ k block, s.chain[k]? = some block →
    s.db.find? (stakeKey (UInt32.ofNat (k + 1))) = some (asBytes (block.stakerKeyHash hash160))
  keys : ∀ key, key.head? = some stakeIndexTag →
    ((s.db.find? key).isSome = true ↔ ∃ k, 1 ≤ k ∧ k ≤ top ∧ key = stakeKey (UInt32.ofNat k))

theorem indexed_of_reaches {hash160 : Bytes → Address} {s : IndexedChain} {top : Nat}
    (run : Reaches hash160 s top) : Indexed hash160 s top := by
  induction run with
  | start empty =>
    refine ⟨Nat.le_refl 0, by decide, fun k block found => (by cases found), fun key tagged => ?_⟩
    rw [empty key tagged]
    refine iff_of_false (by simp) ?_
    rintro ⟨k, low, high, _⟩
    omega
  | @connect s top before block bound ih =>
    have tip := ih.tip
    have height : ∀ {k}, k < 2 ^ 31 → stakeKey (ofNat k) =
        stakeKey (ofNat (s.chain.length + 1)) → k = s.chain.length + 1 := by
      intro k small same
      have heights := congrArg toNat (stakeKey_injective same)
      rw [toNat_ofNat_of_lt' (Nat.lt_trans small (by decide)),
        toNat_ofNat_of_lt' (Nat.lt_trans bound (by decide))] at heights
      exact heights
    refine ⟨?_, ?_, fun k other found => ?_, fun key tagged => ?_⟩
    · simp [connect]
    · exact max_lt ih.bound bound
    · have inside : k < s.chain.length + 1 := by
        have := (List.getElem?_eq_some_iff.1 found).1
        simpa [connect] using this
      simp only [connect, writeStakeIndex, find?_insert]
      rcases Nat.lt_succ_iff_lt_or_eq.1 inside with below | top'
      · rw [if_neg fun same => by have := height (by omega) same; omega]
        refine ih.stored k other ?_
        rwa [connect, List.getElem?_append_left below] at found
      · subst top'
        have same : block = other := by simpa [connect] using found
        rw [if_pos rfl, same]
    · simp only [connect, writeStakeIndex, find?_insert]
      by_cases new : key = stakeKey (ofNat (s.chain.length + 1))
      · rw [if_pos new]
        exact iff_of_true rfl ⟨_, by omega, le_max_right _ _, new⟩
      · rw [if_neg new, ih.keys key tagged]
        constructor
        · rintro ⟨k, low, high, same⟩
          exact ⟨k, low, le_trans high (le_max_left _ _), same⟩
        · rintro ⟨k, low, high, rfl⟩
          rcases le_max_iff.1 high with old | fresh
          · exact ⟨k, low, old, rfl⟩
          · refine ⟨k, low, ?_, rfl⟩
            have other : k ≠ s.chain.length + 1 := fun same => new (by rw [same])
            omega
  | @disconnect s top before above ih =>
    refine ⟨?_, ih.bound, fun k block found => ?_, fun key tagged => ?_⟩
    · have tip := ih.tip
      simp only [disconnect, List.length_dropLast]
      omega
    · simp only [disconnect, eraseStakeIndex_eq]
      refine ih.stored k block ?_
      rw [disconnect] at found
      rw [List.getElem?_dropLast] at found
      split_ifs at found
      exact found
    · simp only [disconnect, eraseStakeIndex_eq]
      exact ih.keys key tagged

/-- On every run a read is right about a height exactly when the height is not above the tip, or its
key comes, byte by byte, after those of all heights ever connected. -/
theorem readsRight_iff {hash160 : Bytes → Address} {s : IndexedChain} {top : Nat}
    (run : Reaches hash160 s top) (height : UInt32) :
    s.ReadsRight hash160 height ↔
      height.toNat ≤ s.chain.length ∨
        ∀ k, 1 ≤ k → k ≤ top → stakeKey (UInt32.ofNat k) < stakeKey height := by
  have indexed := indexed_of_reaches run
  have absent : s.db.readStakeIndex height = none ↔
      ∀ k, 1 ≤ k → k ≤ top → stakeKey (UInt32.ofNat k) < stakeKey height := by
    rw [readStakeIndex_eq_none_iff]
    constructor
    · exact fun below k low high => below _ rfl ((indexed.keys _ rfl).2 ⟨k, low, high, rfl⟩)
    · intro below key tagged stored
      obtain ⟨k, low, high, rfl⟩ := (indexed.keys key tagged).1 stored
      exact below k low high
  have present : ∀ k block, height.toNat = k + 1 → s.chain[k]? = some block →
      s.db.readStakeIndex height = some (block.stakerKeyHash hash160) := by
    intro k block same found
    refine readStakeIndex_of_find ?_
    have key := indexed.stored k block found
    rwa [← same, UInt32.ofNat_toNat] at key
  rw [ReadsRight, absent]
  constructor
  · rintro ⟨_, above⟩
    by_cases tip : height.toNat ≤ s.chain.length
    · exact .inl tip
    · exact .inr (above (Nat.not_le.1 tip))
  · rintro (tip | below)
    · exact ⟨present, fun above => absurd tip (Nat.not_le.2 above)⟩
    · exact ⟨present, fun _ => below⟩

def oneBlock : IndexedChain :=
  IndexedChain.connect (fun _ => 0) ⟨[], empty⟩
    ⟨⟨1, 0, 0, 0, 0, 0, 0, 0, ⟨0, 0xffffffff⟩, []⟩, [], false⟩

theorem reaches_oneBlock : Reaches (fun _ => 0) oneBlock 1 :=
  .connect (.start fun _ _ => rfl) _ (by decide)

/-- With one block connected a read is right about heights 1 and 2. -/
theorem oneBlock_readsRight :
    oneBlock.ReadsRight (fun _ => 0) 1 ∧ oneBlock.ReadsRight (fun _ => 0) 2 := by
  refine ⟨(readsRight_iff reaches_oneBlock 1).2 (.inl (by decide)),
    (readsRight_iff reaches_oneBlock 2).2 (.inr fun k low high => ?_)⟩
  obtain rfl : k = 1 := Nat.le_antisymm high low
  decide

/-- With one block connected a read of height 256 returns the entry of height 1; after it is
disconnected, a read of height 1 still does. -/
theorem oneBlock_misread :
    oneBlock.chain.length = 1 ∧ oneBlock.db.readStakeIndex 256 = some 0 ∧
      oneBlock.disconnect.chain.length = 0 ∧ oneBlock.disconnect.db.readStakeIndex 1 = some 0 := by
  decide +kernel

end IndexedChain
end Artax
