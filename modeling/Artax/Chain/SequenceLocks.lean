import Artax.Chain.MedianTime

/-!
# Relative lock times

`CheckSequenceLocks` with the lock points that an entry of the pool keeps. While the highest block of
a locked input is on the active chain, they stand in for a new calculation.
-/

namespace Artax

open Util.ParentTree List BlockTree

/-- `MEMPOOL_HEIGHT`. -/
def mempoolHeight : Nat := 0x0FFFFFFF

structure CCoinsViewMemPool where
  base : CoinsView
  mempool : H256 → Option CTransaction

/-- `CCoinsViewMemPool::GetCoin`. -/
def CCoinsViewMemPool.getCoin (view : CCoinsViewMemPool) (outpoint : COutPoint) : Option Coin :=
  match view.mempool outpoint.hash with
  | some ptx => ptx.vout[outpoint.n.toNat]?.map fun out => ⟨out, false, false, mempoolHeight⟩
  | none => (view.base outpoint).filter fun coin => !coin.isSpent

structure LockPoints where
  height : Int := 0
  time : Int := 0
  maxInputBlock : Option H256 := none
  deriving DecidableEq

namespace CTxIn

variable (txin : CTxIn)

def lockDisabled : Bool := txin.nSequence &&& 0x80000000 != 0

def lockTyped : Bool := txin.nSequence &&& 0x00400000 != 0

def lockBlocks : Int := (txin.nSequence &&& 0x0000ffff).toNat

def lockSeconds : Int := ((txin.nSequence &&& 0x0000ffff) <<< 9).toNat

end CTxIn

namespace SequenceLocks

variable (t : BlockTree) (tip : H256)

/-- The loop body of `CalculateSequenceLocks` for the block over `tip`, none if `GetAncestor` is null. -/
def lockInput (lock : Int × Int) (input : CTxIn × Nat) : Option (Int × Int) :=
  if input.1.lockDisabled then some lock
  else if input.1.lockTyped then
    (t.getAncestor tip (input.2 - 1)).map fun a =>
      (lock.1, max lock.2 (t.getMedianTimePast a + input.1.lockSeconds - 1))
  else some (max lock.1 (input.2 + input.1.lockBlocks - 1), lock.2)

/-- The last height and time at which the locks hold, and the heights with zero for inputs without. -/
def calculateSequenceLocks (tx : CTransaction) (flags : UInt32) (prevHeights : List Nat) :
    Option ((Int × Int) × List Nat) :=
  let fEnforceBIP68 := decide (2 ≤ (BitVec.ofInt 32 tx.nVersion).toNat) && flags &&& 1 != 0
  if !fEnforceBIP68 then some ((-1, -1), prevHeights)
  else ((tx.vin.zip prevHeights).foldlM (lockInput t tip) (-1, -1)).map fun lock =>
    (lock, (tx.vin.zip prevHeights).map fun input => if input.1.lockDisabled then 0 else input.2)

/-- The height of the block over `tip` and the median time before it. -/
def next : Int × Int := (t.nHeight tip + 1, t.getMedianTimePast tip)

/-- `EvaluateSequenceLocks`. -/
def evaluateSequenceLocks (lock : Int × Int) : Bool :=
  !(decide ((next t tip).1 ≤ lock.1) || decide ((next t tip).2 ≤ lock.2))

def prevHeight (view : CCoinsViewMemPool) (txin : CTxIn) : Nat :=
  ((view.getCoin txin.prevout).map fun coin =>
    if coin.nHeight = mempoolHeight then t.nHeight tip + 1 else coin.nHeight).getD 0

def maxInputHeight (prevHeights : List Nat) : Nat :=
  prevHeights.foldl (fun m height => if height ≠ t.nHeight tip + 1 then max m height else m) 0

/-- `CheckSequenceLocks`. -/
def checkSequenceLocks (view : CCoinsViewMemPool) (tx : CTransaction) (flags : UInt32)
    (lp : LockPoints) (useExistingLockPoints : Bool) : Option (Bool × LockPoints) :=
  if useExistingLockPoints then some (evaluateSequenceLocks t tip (lp.height, lp.time), lp)
  else if tx.vin.all fun txin => (view.getCoin txin.prevout).isSome then
    let prevHeights := tx.vin.map (prevHeight t tip view)
    (calculateSequenceLocks t tip tx flags prevHeights).map fun (lock, heights) =>
      (evaluateSequenceLocks t tip lock,
        ⟨lock.1, lock.2, t.getAncestor tip (maxInputHeight t tip heights)⟩)
  else some (false, lp)

/-- `TestLockPointValidity`. -/
def testLockPointValidity (lp : LockPoints) : Bool :=
  lp.maxInputBlock.all fun b => decide (t.Anc b tip)

/-! ## The locks of the inputs -/

def Below (bound lock : Int × Int) : Prop := lock.1 < bound.1 ∧ lock.2 < bound.2

def Passes (bound : Int × Int) (input : CTxIn × Nat) : Prop :=
  input.1.lockDisabled = false →
    if input.1.lockTyped then ∃ a, t.getAncestor tip (input.2 - 1) = some a ∧
      t.getMedianTimePast a + input.1.lockSeconds - 1 < bound.2
    else input.2 + input.1.lockBlocks - 1 < bound.1

variable {t tip} {bound lock : Int × Int} {view : CCoinsViewMemPool} {tx : CTransaction}
  {flags : UInt32} {lp lp' : LockPoints} {txin : CTxIn}

theorem lockInput_below {input : CTxIn × Nat} :
    (∃ l, lockInput t tip lock input = some l ∧ Below bound l) ↔
      Below bound lock ∧ Passes t tip bound input := by
  unfold lockInput Passes Below
  cases input.1.lockDisabled with
  | true => simp
  | false =>
    cases input.1.lockTyped with
    | false => simp [and_right_comm]
    | true => cases t.getAncestor tip (input.2 - 1) <;> simp [and_assoc]

theorem foldlM_below {inputs : List (CTxIn × Nat)} :
    (∃ l, inputs.foldlM (lockInput t tip) lock = some l ∧ Below bound l) ↔
      Below bound lock ∧ ∀ input ∈ inputs, Passes t tip bound input := by
  induction inputs generalizing lock with
  | nil => simp
  | cons input inputs ih =>
    rw [forall_mem_cons, ← and_assoc, ← lockInput_below]
    simp only [foldlM_cons, Option.bind_eq_bind, Option.bind_eq_some_iff]
    constructor
    · rintro ⟨l, ⟨l', first, rest⟩, below⟩
      obtain ⟨below', passes⟩ := ih.1 ⟨l, rest, below⟩
      exact ⟨⟨l', first, below'⟩, passes⟩
    · rintro ⟨⟨l', first, below'⟩, passes⟩
      obtain ⟨l, rest, below⟩ := ih.2 ⟨below', passes⟩
      exact ⟨l, ⟨l', first, rest⟩, below⟩

theorem evaluateSequenceLocks_iff : evaluateSequenceLocks t tip lock ↔
    Below (next t tip) lock := by
  simp [evaluateSequenceLocks, Below]

/-! ## The highest block of a locked input -/

theorem maxInputHeight_spec {vin : List CTxIn} {height : CTxIn → Nat}
    (bounded : ∀ txin ∈ vin, height txin ≤ t.nHeight tip + 1) :
    let top := maxInputHeight t tip (vin.map fun txin => if txin.lockDisabled then 0 else height txin)
    top ≤ t.nHeight tip ∧ ∀ txin ∈ vin, txin.lockDisabled = false →
      height txin ≠ t.nHeight tip + 1 → height txin ≤ top := by
  unfold maxInputHeight
  induction vin using reverseRecOn with
  | nil => simp
  | append_singleton vin last ih =>
    simp only [mem_append, mem_singleton, or_imp, forall_and, forall_eq] at bounded ⊢
    obtain ⟨below, above⟩ := ih bounded.1
    have here := bounded.2
    rw [map_append, foldl_append, map_singleton, foldl_cons, foldl_nil]
    cases last.lockDisabled <;> grind

theorem checkSequenceLocks_eq_true : checkSequenceLocks t tip view tx flags lp false = some (true, lp') ↔
    (∀ txin ∈ tx.vin, (view.getCoin txin.prevout).isSome) ∧ ∃ lock heights,
      calculateSequenceLocks t tip tx flags (tx.vin.map (prevHeight t tip view)) =
        some (lock, heights) ∧ Below (next t tip) lock ∧
      ⟨lock.1, lock.2, t.getAncestor tip (maxInputHeight t tip heights)⟩ = lp' := by
  unfold checkSequenceLocks
  rw [if_neg Bool.false_ne_true, ← all_eq_true]
  split <;> simp_all [Option.map_eq_some_iff, evaluateSequenceLocks_iff]

/-- The coins and the pool of a node whose active chain ends with `tip`. A coin has the height of the
block that has its transaction, no transaction is in two blocks of a chain, and none of the pool is
in one. -/
structure Tracks (t : BlockTree) (tip : H256) (view : CCoinsViewMemPool)
    (contains : H256 → H256 → Prop) : Prop where
  known : (t.index tip).isSome
  height : t.nHeight tip < mempoolHeight
  confirmed : ∀ outpoint coin, view.base outpoint = some coin →
    ∃ b, t.Anc b tip ∧ t.nHeight b = coin.nHeight ∧ contains b outpoint.hash
  once : ∀ a b txid, t.Anc a tip → t.Anc b tip → contains a txid → contains b txid → a = b
  unconfirmed : ∀ txid tx, view.mempool txid = some tx → ∀ b, t.Anc b tip → ¬contains b txid

variable {contains : H256 → H256 → Prop}

section

variable (tracks : Tracks t tip view contains) (available : (view.getCoin txin.prevout).isSome)
include tracks available

theorem Tracks.prevHeight :
    (prevHeight t tip view txin = t.nHeight tip + 1 ∧
      ∀ b, t.Anc b tip → ¬contains b txin.prevout.hash) ∨
    ∃ b, t.Anc b tip ∧ prevHeight t tip view txin = t.nHeight b ∧ contains b txin.prevout.hash := by
  obtain ⟨coin, got⟩ := Option.isSome_iff_exists.1 available
  rw [SequenceLocks.prevHeight, got, Option.map_some, Option.getD_some]
  unfold CCoinsViewMemPool.getCoin at got
  split at got
  · rename_i ptx pooled
    obtain ⟨out, _, rfl⟩ := Option.map_eq_some_iff.1 got
    exact .inl ⟨if_pos rfl, tracks.unconfirmed _ _ pooled⟩
  · obtain ⟨b, anc, height, has⟩ := tracks.confirmed _ _ (Option.filter_eq_some_iff.1 got).1
    have low := nHeight_le_of_anc anc
    have := tracks.height
    exact .inr ⟨b, anc, by rw [if_neg (by omega), height], has⟩

theorem Tracks.prevHeight_le : SequenceLocks.prevHeight t tip view txin ≤ t.nHeight tip + 1 := by
  rcases tracks.prevHeight available with ⟨same, _⟩ | ⟨b, anc, same, _⟩
  · exact same.le
  · exact same.trans_le ((nHeight_le_of_anc anc).trans (Nat.le_succ _))

end

section Moved

variable {tip' : H256} {view' : CCoinsViewMemPool} (rises : t.MedianRises)
  (tracks : Tracks t tip view contains) (tracks' : Tracks t tip' view' contains)
include rises tracks tracks'

/-- An input that passes over one tip passes over another: a pool input has no lock at all, and the
block of a confirmed one is on both chains. -/
theorem Passes.moved (available : (view.getCoin txin.prevout).isSome)
    (available' : (view'.getCoin txin.prevout).isSome)
    (shared : txin.lockDisabled = false → prevHeight t tip view txin ≠ t.nHeight tip + 1 →
      ∃ m, t.Anc m tip ∧ t.Anc m tip' ∧ prevHeight t tip view txin ≤ t.nHeight m)
    (now : Passes t tip (next t tip) (txin, prevHeight t tip view txin))
    (later : Passes t tip (next t tip') (txin, prevHeight t tip view txin)) :
    Passes t tip' (next t tip') (txin, prevHeight t tip' view' txin) := by
  intro enabled
  have now := now enabled
  have later := later enabled
  rcases tracks.prevHeight available with ⟨same, _⟩ | ⟨b, anc, same, has⟩
  · have le := tracks'.prevHeight_le available'
    simp only [same, next] at now ⊢
    split
    · rename_i typed
      rw [if_pos typed] at now
      obtain ⟨a, above, zero⟩ := now
      obtain ⟨anc, height⟩ := ancestorAt_eq_some.1 above
      obtain rfl := anc.eq_of_height (show t.nHeight tip ≤ t.nHeight a from height.ge)
      obtain ⟨a', found, anc', _⟩ := exists_getAncestor tracks'.known
        (Nat.sub_le_of_le_add le)
      have := rises.anc anc'
      exact ⟨a', found, by omega⟩
    · rename_i plain
      rw [if_neg plain] at now
      push_cast at now
      omega
  · have low := nHeight_le_of_anc anc
    obtain ⟨m, mem, mem', le⟩ := shared enabled (by omega)
    have anc' : t.Anc b tip' := (anc.of_height_le mem (same.symm.trans_le le)).trans mem'
    have same' : prevHeight t tip' view' txin = t.nHeight b := by
      rcases tracks'.prevHeight available' with ⟨_, absent⟩ | ⟨c, ancC, height, hasC⟩
      · exact absurd has (absent b anc')
      · rw [height, tracks'.once c b _ ancC anc' hasC has]
    simp only [same, same'] at later le ⊢
    split
    · rename_i typed
      rw [if_pos typed] at later
      obtain ⟨a, found, passed⟩ := later
      obtain ⟨ancA, height⟩ := ancestorAt_eq_some.1 found
      have lower : t.nHeight a ≤ t.nHeight m := height.trans_le ((Nat.sub_le _ _).trans le)
      exact ⟨a, ancestorAt_eq_some.2 ⟨(ancA.of_height_le mem lower).trans mem', height⟩, passed⟩
    · rename_i plain
      rwa [if_neg plain] at later

/-- Lock points are a sound shortcut: where they are valid, the inputs are there and the stored pair
passes, a new calculation passes as well. -/
theorem lock_points_sound {start : LockPoints}
    (stored : checkSequenceLocks t tip view tx flags start false = some (true, lp))
    (valid : testLockPointValidity t tip' lp)
    (available' : ∀ txin ∈ tx.vin, (view'.getCoin txin.prevout).isSome)
    (passed : checkSequenceLocks t tip' view' tx flags lp true = some (true, lp)) :
    ∃ lp', checkSequenceLocks t tip' view' tx flags lp false = some (true, lp') := by
  obtain ⟨available, lock, heights, calculated, below, rfl⟩ := checkSequenceLocks_eq_true.1 stored
  have below' : Below (next t tip') lock :=
    evaluateSequenceLocks_iff.1 (congrArg Prod.fst (Option.some.inj passed))
  suffices ∃ lock' heights', calculateSequenceLocks t tip' tx flags
      (tx.vin.map (prevHeight t tip' view')) = some (lock', heights') ∧
      Below (next t tip') lock' by
    obtain ⟨lock', heights', calculated', less⟩ := this
    exact ⟨_, checkSequenceLocks_eq_true.2 ⟨available', lock', heights', calculated', less, rfl⟩⟩
  unfold calculateSequenceLocks at calculated ⊢
  simp only [← map_prod_left_eq_zip] at calculated ⊢
  split at calculated
  · rename_i free
    cases calculated
    rw [if_pos free]
    exact ⟨_, _, rfl, below'⟩
  · rename_i enforced
    rw [if_neg enforced]
    obtain ⟨_, folded, rest⟩ := Option.map_eq_some_iff.1 calculated
    cases rest
    have now := (foldlM_below.1 ⟨lock, folded, below⟩).2
    obtain ⟨least, later⟩ := foldlM_below.1 ⟨lock, folded, below'⟩
    rw [forall_mem_map] at now later
    obtain ⟨highest, above⟩ := maxInputHeight_spec fun txin mem =>
      tracks.prevHeight_le (available txin mem)
    obtain ⟨m, found, anc, height⟩ := exists_getAncestor tracks.known highest
    simp only [testLockPointValidity, map_map, Function.comp_def, found] at valid
    obtain ⟨lock', folded', less⟩ := foldlM_below.2 ⟨least, forall_mem_map.2 fun txin mem => by
      refine Passes.moved rises tracks tracks' (available txin mem) (available' txin mem)
        (fun enabled ne => ?_) (now txin mem) (later txin mem)
      exact ⟨m, anc, of_decide_eq_true valid, height ▸ above txin mem enabled ne⟩⟩
    exact ⟨lock', _, by rw [folded']; rfl, less⟩

end Moved

/-! ## A confirmed input -/

open HeaderRules

def twoBlocks : CChainState := acceptAll [workHeader 4 5 500000200] (.start 4 1 500000100)

theorem twoBlocks_medianRises : twoBlocks.tree.MedianRises := by
  have built : Built sampleRules CChainState.sampleEnv LateWork twoBlocks :=
    .header (.genesis (start_alone 4 1 500000100)) _ 0 fun _ => by decide +kernel
  exact built.medianRises

def oneCoin : CCoinsViewMemPool where
  base := fun outpoint => if outpoint = ⟨1, 0⟩ then some ⟨⟨7, []⟩, true, false, 0⟩ else none
  mempool := fun _ => none

theorem oneCoin_tracks (known : (twoBlocks.tree.index tip).isSome)
    (height : twoBlocks.tree.nHeight tip < mempoolHeight) (above : twoBlocks.tree.Anc 4 tip) :
    Tracks twoBlocks.tree tip oneCoin fun b txid => b = 4 ∧ txid = 1 := by
  refine ⟨known, height, fun outpoint coin held => ?_, fun a b _ _ _ first second =>
    first.1.trans second.1.symm, nofun⟩
  simp only [oneCoin] at held
  split at held
  · rename_i here
    cases held
    exact ⟨4, above, by decide +kernel, rfl, by rw [here]⟩
  · cases held

/-- The lock points of a spend of the first block's output, stored there, pass over the next. -/
theorem lock_points_sound_confirmed :
    let lp : LockPoints := ⟨-1, -1, some 4⟩
    checkSequenceLocks twoBlocks.tree 4 oneCoin lockedTx 1 {} false = some (true, lp) ∧
      ∃ lp', checkSequenceLocks twoBlocks.tree 5 oneCoin lockedTx 1 lp false = some (true, lp') := by
  have stored : checkSequenceLocks twoBlocks.tree 4 oneCoin lockedTx 1 {} false =
      some (true, ⟨-1, -1, some 4⟩) := by
    decide +kernel
  exact ⟨stored, lock_points_sound twoBlocks_medianRises
    (oneCoin_tracks (by decide +kernel) (by decide +kernel) (by decide +kernel))
    (oneCoin_tracks (by decide +kernel) (by decide +kernel) (by decide +kernel)) stored
    (by decide +kernel) (by decide +kernel) (by decide +kernel)⟩

end SequenceLocks
end Artax
