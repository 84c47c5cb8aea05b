import Artax.Consensus.Coins
import Artax.Util.WriteCache

/-!
# The coins cache

`CCoinsViewCache` with its `FRESH` and `DIRTY` flags over a base view, and `UpdateCoins` through it.
A cleared coin is an entry without a value. There is no result where the source stops at an assertion
or with an exception.
-/

namespace Artax

open Function Option
open Util (WriteCache)

/-- `CCoinsViewCache` over a view whose best block is `baseBestBlock`. -/
structure CCoinsViewCache where
  cacheCoins : WriteCache COutPoint Coin
  hashBlock : H256
  baseBestBlock : H256

/-- The outpoints under which outputs would be added are free. -/
def CoinsView.Free (coins : CoinsView) (txid : H256) (outs : List (CTxOut × Nat)) : Prop :=
  ∀ p ∈ outs, p.1.scriptPubKey.isUnspendable = false → coins ⟨txid, UInt32.ofNat p.2⟩ = none

def CoinsView.Unspent (coins : CoinsView) : Prop := ∀ outpoint c, coins outpoint = some c → c.isSpent = false

namespace CoinsView

variable {coins : CoinsView}

theorem Unspent.spendCoin (unspent : coins.Unspent) (outpoint : COutPoint) :
    (coins.spendCoin outpoint).Unspent := by
  intro other c found
  by_cases same : other = outpoint
  · rw [same, CoinsView.spendCoin, update_self] at found
    cases found
  · rw [CoinsView.spendCoin, update_of_ne same] at found
    exact unspent other c found

theorem Unspent.addCoin {c : Coin} (unspent : coins.Unspent) (new : c.isSpent = false)
    (outpoint : COutPoint) : (coins.addCoin outpoint c).Unspent := by
  intro other found isFound
  unfold CoinsView.addCoin at isFound
  split at isFound
  · exact unspent other found isFound
  · by_cases same : other = outpoint
    · rw [same, update_self] at isFound
      cases isFound
      exact new
    · rw [update_of_ne same] at isFound
      exact unspent other found isFound

theorem Unspent.free (unspent : coins.Unspent) {outpoint : COutPoint}
    (missing : (!(coins.accessCoin outpoint).isSpent) = false) : coins outpoint = none := by
  cases found : coins outpoint with
  | none => rfl
  | some c =>
    rw [accessCoin, found, getD_some, unspent outpoint c found] at missing
    cases missing

end CoinsView

namespace CCoinsViewCache

def onBase (base : CoinsView) (bestBlock : H256) : CCoinsViewCache := ⟨.onBase base, 0, bestBlock⟩

variable (view : CCoinsViewCache)

/-- `GetBestBlock`. -/
def getBestBlock : H256 :=
  if view.hashBlock = 0 then view.baseBestBlock else view.hashBlock

/-- `SetBestBlock`. -/
def setBestBlock (hashBlockIn : H256) : CCoinsViewCache :=
  { view with hashBlock := hashBlockIn }

/-- `AccessCoin`. -/
def accessCoin (outpoint : COutPoint) : Coin :=
  (view.cacheCoins.read outpoint).getD .empty

/-- `HaveCoin`. -/
def haveCoin (outpoint : COutPoint) : CCoinsViewCache × Bool :=
  ({ view with cacheCoins := view.cacheCoins.fetch outpoint },
    !(view.accessCoin outpoint).isSpent)

/-- `AddCoin`, `none` where it asserts or throws. -/
def addCoin (outpoint : COutPoint) (c : Coin) (possible_overwrite : Bool) :
    Option CCoinsViewCache :=
  if c.isSpent then none
  else if c.out.scriptPubKey.isUnspendable then some view
  else (view.cacheCoins.add outpoint c possible_overwrite).map fun cacheCoins =>
    { view with cacheCoins }

/-- `SpendCoin`. -/
def spendCoin (outpoint : COutPoint) : CCoinsViewCache × Option Coin :=
  let (cacheCoins, moved) := view.cacheCoins.remove outpoint
  ({ view with cacheCoins }, moved.map fun c => c.getD .empty)

def mayOverwrite (check : Bool) (tx : CTransaction) (outpoint : COutPoint) (view : CCoinsViewCache) :
    CCoinsViewCache × Bool :=
  if check then view.haveCoin outpoint else (view, tx.isCoinBase)

def addOutputs (computeHash : CTransaction → H256) (tx : CTransaction) (nHeight : Nat)
    (check : Bool) : List (CTxOut × Nat) → CCoinsViewCache → Option CCoinsViewCache
  | [], view => some view
  | (txout, i) :: rest, view => do
    let outpoint := ⟨tx.getHash computeHash, UInt32.ofNat i⟩
    let (view, overwrite) := view.mayOverwrite check tx outpoint
    let view ← view.addCoin outpoint (tx.coinOf nHeight txout) overwrite
    addOutputs computeHash tx nHeight check rest view

/-- `AddCoins`. -/
def addCoins (computeHash : CTransaction → H256) (view : CCoinsViewCache) (tx : CTransaction)
    (nHeight : Nat) (check : Bool) : Option CCoinsViewCache :=
  addOutputs computeHash tx nHeight check tx.vout.zipIdx view

def spendInputs : List CTxIn → CCoinsViewCache → Option (CCoinsViewCache × List Coin)
  | [], view => some (view, [])
  | txin :: rest, view => do
    let (view, moved) := view.spendCoin txin.prevout
    let c ← moved
    let (view, undo) ← spendInputs rest view
    some (view, c :: undo)

/-- `UpdateCoins`. -/
def updateCoins (computeHash : CTransaction → H256) (view : CCoinsViewCache) (tx : CTransaction)
    (nHeight : Nat) : Option (CCoinsViewCache × List Coin) := do
  let (view, undo) ← if tx.isCoinBase then some (view, []) else spendInputs tx.vin view
  let view ← view.addCoins computeHash tx nHeight false
  some (view, undo)

def connectCoins (computeHash : CTransaction → H256) (nHeight : Nat) :
    List CTransaction → CCoinsViewCache → Option (CCoinsViewCache × List (List Coin))
  | [], view => some (view, [])
  | tx :: rest, view => do
    let (view, undo) ← view.updateCoins computeHash tx nHeight
    let (view, undos) ← connectCoins computeHash nHeight rest view
    some (view, undo :: undos)

def Holds (view : CCoinsViewCache) (coins : CoinsView) : Prop := view.cacheCoins.Holds coins

variable {view view' : CCoinsViewCache} {coins : CoinsView} {outpoint : COutPoint} {c : Coin}
  {overwrite : Bool}

theorem holds_onBase (base : CoinsView) (bestBlock : H256) : (onBase base bestBlock).Holds base :=
  WriteCache.holds_onBase base

section

variable (holds : view.Holds coins)
include holds

theorem accessCoin_eq : view.accessCoin outpoint = coins.accessCoin outpoint := by
  unfold accessCoin CoinsView.accessCoin
  rw [holds.read]

theorem Holds.haveCoin (outpoint : COutPoint) :
    (view.haveCoin outpoint).1.Holds coins :=
  WriteCache.Holds.fetch holds outpoint

theorem haveCoin_eq :
    (view.haveCoin outpoint).2 = !(coins.accessCoin outpoint).isSpent := by
  rw [← accessCoin_eq holds]
  rfl

theorem Holds.addCoin (unspent : c.isSpent = false)
    (free : overwrite = false → c.out.scriptPubKey.isUnspendable = false → coins outpoint = none) :
    ∃ view', view.addCoin outpoint c overwrite = some view' ∧
      view'.Holds (coins.addCoin outpoint c) := by
  unfold CCoinsViewCache.addCoin CoinsView.addCoin
  rw [if_neg (Bool.eq_false_iff.1 unspent)]
  cases unspendable : c.out.scriptPubKey.isUnspendable with
  | true => exact ⟨view, by simp, by simpa using holds⟩
  | false =>
    obtain ⟨cacheCoins, added, after⟩ := WriteCache.Holds.add holds (fun new => free new unspendable) c
    exact ⟨{ view with cacheCoins }, by simp [added], after⟩

end

theorem addCoin_cases (added : view.addCoin outpoint c overwrite = some view') :
    c.isSpent = false ∧
      ((c.out.scriptPubKey.isUnspendable ∧ view' = view) ∨
        (c.out.scriptPubKey.isUnspendable = false ∧ ∃ cacheCoins,
          view.cacheCoins.add outpoint c overwrite = some cacheCoins ∧
          view' = { view with cacheCoins })) := by
  unfold addCoin at added
  split at added
  · cases added
  · rename_i unspent
    refine ⟨Bool.eq_false_iff.2 unspent, ?_⟩
    split at added
    · rename_i unspendable
      cases added
      exact .inl ⟨unspendable, rfl⟩
    · rename_i spendable
      obtain ⟨cacheCoins, written, rfl⟩ := map_eq_some_iff.1 added
      exact .inr ⟨Bool.eq_false_iff.2 spendable, cacheCoins, written, rfl⟩

theorem Holds.spendCoin (holds : view.Holds coins) (outpoint : COutPoint) :
    (view.spendCoin outpoint).1.Holds (coins.spendCoin outpoint) ∧
      ∀ c, coins outpoint = some c → (view.spendCoin outpoint).2 = some c := by
  obtain ⟨after, moved⟩ := WriteCache.Holds.remove holds outpoint
  exact ⟨after, fun c found => by simp [CCoinsViewCache.spendCoin, moved c found]⟩

variable {before : CoinsView} {computeHash : CTransaction → H256} {tx : CTransaction} {nHeight : Nat}

/-- A cache that holds coins, over those before a block: what was free then is either free below or
has an entry. -/
structure Within (view : CCoinsViewCache) (before coins : CoinsView) : Prop where
  holds : view.Holds coins
  covers : ∀ outpoint, before outpoint = none → view.cacheCoins.Covers outpoint

theorem within_of_holds (holds : view.Holds coins) : view.Within coins coins :=
  ⟨holds, fun _ free => WriteCache.Holds.covers holds free⟩

section

variable (within : view.Within before coins)
include within

theorem Within.spendCoin (outpoint : COutPoint) :
    (view.spendCoin outpoint).1.Within before (coins.spendCoin outpoint) :=
  ⟨(within.holds.spendCoin outpoint).1, fun _ free =>
    (within.covers _ free).remove within.holds.coherent outpoint⟩

/-- A coin that was added through the cache replaces none that the block has made, unless it was
allowed to. -/
theorem Within.addCoin (added : view.addCoin outpoint c overwrite = some view')
    (free : overwrite = false → c.out.scriptPubKey.isUnspendable = false → before outpoint = none) :
    view'.Within before (coins.addCoin outpoint c) ∧
      (overwrite = false → c.out.scriptPubKey.isUnspendable = false → coins outpoint = none) := by
  obtain ⟨unspent, effect⟩ := addCoin_cases added
  have replaces : overwrite = false → c.out.scriptPubKey.isUnspendable = false →
      coins outpoint = none := by
    rintro rfl spendable
    rcases effect with ⟨unspendable, _⟩ | ⟨_, _, added, _⟩
    · rw [spendable] at unspendable
      cases unspendable
    · rw [← within.holds.read]
      exact WriteCache.read_of_add added (within.covers _ (free rfl spendable))
  obtain ⟨after, sameAdded, holds⟩ := within.holds.addCoin unspent replaces
  obtain rfl : after = view' := some.inj (sameAdded.symm.trans added)
  refine ⟨⟨holds, fun j isFree => ?_⟩, replaces⟩
  rcases effect with ⟨_, rfl⟩ | ⟨_, _, written, rfl⟩
  · exact within.covers j isFree
  · exact (within.covers j isFree).add written

theorem Within.addOutputs {outs : List (CTxOut × Nat)}
    (ran : addOutputs computeHash tx nHeight false outs view = some view')
    (free : before.Free (tx.getHash computeHash) outs) :
    view'.Within before (coins.addOutputs (tx.getHash computeHash) (tx.coinOf nHeight) outs) ∧
      (tx.isCoinBase = false → coins.Free (tx.getHash computeHash) outs) := by
  induction outs generalizing view coins with
  | nil =>
    cases ran
    exact ⟨within, fun _ => by simp [CoinsView.Free]⟩
  | cons p rest ih =>
    obtain ⟨txout, i⟩ := p
    simp only [CCoinsViewCache.addOutputs, mayOverwrite, Bool.false_eq_true, if_false,
      bind_eq_bind, bind_eq_some_iff] at ran
    obtain ⟨middle, added, later⟩ := ran
    obtain ⟨within, replaces⟩ := within.addCoin added
      (fun _ spendable => free (txout, i) (List.mem_cons_self ..) spendable)
    obtain ⟨after, restFree⟩ := ih within later (fun p mem => free p (List.mem_cons_of_mem _ mem))
    refine ⟨after, fun plain => ?_⟩
    rw [CoinsView.Free, List.forall_mem_cons]
    refine ⟨replaces plain, fun p mem spendable => ?_⟩
    -- what is free once the coin was added was free before
    have stillFree := restFree plain p mem spendable
    unfold CoinsView.addCoin at stillFree
    split at stillFree
    · exact stillFree
    · by_cases same : (⟨tx.getHash computeHash, UInt32.ofNat p.2⟩ : COutPoint) =
        ⟨tx.getHash computeHash, UInt32.ofNat i⟩
      · rw [same, update_self] at stillFree
        cases stillFree
      · rwa [update_of_ne same] at stillFree

theorem Within.spendInputs {vin : List CTxIn}
    (there : ∀ txin ∈ vin, ∃ c, coins txin.prevout = some c) (once : (vin.map CTxIn.prevout).Nodup) :
    ∃ view', CCoinsViewCache.spendInputs vin view = some (view', (coins.spendInputs vin).2) ∧
      view'.Within before (coins.spendInputs vin).1 := by
  induction vin generalizing view coins with
  | nil => exact ⟨view, rfl, within⟩
  | cons txin rest ih =>
    rw [List.forall_mem_cons] at there
    rw [List.map_cons, List.nodup_cons] at once
    obtain ⟨⟨c, found⟩, there⟩ := there
    have moved := (within.holds.spendCoin txin.prevout).2 c found
    obtain ⟨view', ran, after⟩ := ih (within.spendCoin txin.prevout) (fun other mem => by
      have differs : other.prevout ≠ txin.prevout := fun same =>
        once.1 (same ▸ List.mem_map_of_mem mem)
      obtain ⟨c, found⟩ := there other mem
      exact ⟨c, by rw [CoinsView.spendCoin, update_of_ne differs, found]⟩) once.2
    refine ⟨view', ?_, after⟩
    simp [CCoinsViewCache.spendInputs, CoinsView.spendInputs, moved, ran, CoinsView.accessCoin, found]

theorem Within.updateCoins {undo : List Coin}
    (ran : view.updateCoins computeHash tx nHeight = some (view', undo))
    (there : tx.isCoinBase = false → ∀ txin ∈ tx.vin, ∃ c, coins txin.prevout = some c)
    (once : (tx.vin.map CTxIn.prevout).Nodup)
    (free : before.Free (tx.getHash computeHash) tx.vout.zipIdx) :
    view'.Within before (coins.updateCoins computeHash tx nHeight).1 ∧
      undo = (coins.updateCoins computeHash tx nHeight).2 ∧
      (tx.isCoinBase = false →
        (coins.spendInputs tx.vin).1.Free (tx.getHash computeHash) tx.vout.zipIdx) := by
  unfold CCoinsViewCache.updateCoins at ran
  unfold CoinsView.updateCoins
  cases coinbase : tx.isCoinBase with
  | true =>
    simp only [coinbase, if_true, bind_eq_bind, bind_some, bind_eq_some_iff,
      some.injEq, Prod.mk.injEq] at ran
    obtain ⟨after, ran, rfl, rfl⟩ := ran
    exact ⟨(within.addOutputs ran free).1, rfl, by simp⟩
  | false =>
    obtain ⟨middle, spent, within⟩ := within.spendInputs (there coinbase) once
    simp only [coinbase, Bool.false_eq_true, if_false, spent, bind_eq_bind, bind_some,
      bind_eq_some_iff, some.injEq, Prod.mk.injEq] at ran
    obtain ⟨after, ran, rfl, rfl⟩ := ran
    obtain ⟨after, isFree⟩ := within.addOutputs ran free
    exact ⟨after, rfl, fun _ => isFree coinbase⟩

end

end CCoinsViewCache
end Artax
