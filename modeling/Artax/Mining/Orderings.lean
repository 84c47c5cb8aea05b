import Artax.Mining.BlockAssembler
import Mathlib.Algebra.Order.Field.Basic
import Mathlib.Data.Prod.Lex

/-!
# The orders of the pool

The comparators that sort entries of the pool, with exact integers where the source has
floating-point numbers. A comparator that reads a key in a linear order is a strict weak order; all
but `CompareTxMemPoolEntryByDescendantScore` do.
-/

namespace Artax

/-- An entry with what only the comparators read of it. -/
structure RankedEntry where
  entry : CTxMemPoolEntry
  hash : H256
  nTime : Int
  nSizeWithDescendants : Int
  nModFeesWithDescendants : CAmount
  deriving DecidableEq, Repr

/-- A fee and a size, alone and with those of relatives, as `GetModFeeAndSize` reads them. -/
structure Feerates where
  fee : Int
  size : Int
  feeWith : Int
  sizeWith : Int

namespace Feerates

def larger (r : Feerates) : Int × Int :=
  if r.fee * r.sizeWith < r.feeWith * r.size then (r.feeWith, r.sizeWith) else (r.fee, r.size)

def smaller (r : Feerates) : Int × Int :=
  if r.feeWith * r.size < r.fee * r.sizeWith then (r.feeWith, r.sizeWith) else (r.fee, r.size)

def compareByAncestorFee (a b : Feerates) (hashA hashB : H256) : Bool :=
  let f1 := a.smaller.1 * b.smaller.2
  let f2 := a.smaller.2 * b.smaller.1
  if f1 = f2 then decide (hashA < hashB) else decide (f2 < f1)

end Feerates

namespace RankedEntry

variable (nBytesPerSigOp : Nat) (a b e : RankedEntry)

def size : Int := e.entry.getTxSize nBytesPerSigOp

def withDescendants : Feerates :=
  ⟨e.entry.getModifiedFee, e.size nBytesPerSigOp, e.nModFeesWithDescendants, e.nSizeWithDescendants⟩

def withAncestors : Feerates :=
  ⟨e.entry.getModifiedFee, e.size nBytesPerSigOp, e.entry.nModFeesWithAncestors,
    e.entry.nSizeWithAncestors⟩

def Positive : Prop :=
  0 < e.size nBytesPerSigOp ∧ 0 < e.nSizeWithDescendants ∧ 0 < e.entry.nSizeWithAncestors

/-- `CompareTxMemPoolEntryByDescendantScore`. -/
def compareByDescendantScore : Bool :=
  let rateA := (a.withDescendants nBytesPerSigOp).larger
  let rateB := (b.withDescendants nBytesPerSigOp).larger
  let f1 := rateA.1 * rateB.2
  let f2 := rateA.2 * rateB.1
  if f1 = f2 then decide (b.nTime ≤ a.nTime) else decide (f1 < f2)

/-- `CompareTxMemPoolEntryByScore`. -/
def compareByScore : Bool :=
  let f1 := a.entry.nFee * b.size nBytesPerSigOp
  let f2 := b.entry.nFee * a.size nBytesPerSigOp
  if f1 = f2 then decide (b.hash < a.hash) else decide (f2 < f1)

/-- `CompareTxMemPoolEntryByAncestorFee`. -/
def compareByAncestorFee : Bool :=
  (a.withAncestors nBytesPerSigOp).compareByAncestorFee (b.withAncestors nBytesPerSigOp) a.hash b.hash

/-- `CompareTxMemPoolEntryByAncestorFeeOrGasPrice`. -/
def compareByAncestorFeeOrGasPrice : Bool :=
  let fAHasCreateOrCall := a.entry.tx.getCreateOrCall
  let fBHasCreateOrCall := b.entry.tx.getCreateOrCall
  if fAHasCreateOrCall ≠ 0 ∨ fBHasCreateOrCall ≠ 0 then
    if decide (0 < fAHasCreateOrCall) ≠ decide (0 < fBHasCreateOrCall)
    then !decide (0 < fAHasCreateOrCall)
    else if 0 < fAHasCreateOrCall ∧ 0 < fBHasCreateOrCall ∧ fAHasCreateOrCall ≠ fBHasCreateOrCall ∧
        (fAHasCreateOrCall = 1 ∨ fBHasCreateOrCall = 1)
    then !decide (fAHasCreateOrCall = 1)
    else if a.entry.nCountWithAncestors ≠ b.entry.nCountWithAncestors
    then decide (a.entry.nCountWithAncestors < b.entry.nCountWithAncestors)
    else if a.entry.nMinGasPrice ≠ b.entry.nMinGasPrice
    then decide (b.entry.nMinGasPrice < a.entry.nMinGasPrice)
    else if a.size nBytesPerSigOp ≠ b.size nBytesPerSigOp
    then decide (a.size nBytesPerSigOp < b.size nBytesPerSigOp)
    else decide (a.hash < b.hash)
  else compareByAncestorFee nBytesPerSigOp a b

end RankedEntry

def StrictWeak {α : Type} (s : Set α) (lt : α → α → Bool) : Prop :=
  IsStrictWeakOrder s fun a b => lt a b = true

theorem strictWeak_of_key {α β : Type} [LinearOrder β] {s : Set α} {lt : α → α → Bool} (key : α → β)
    (compares : ∀ a ∈ s, ∀ b ∈ s, lt a b = true ↔ key a < key b) : StrictWeak s lt where
  irrefl a less := lt_irrefl _ ((compares a a.2 a a.2).1 less)
  trans a b c less less' := (compares a a.2 c c.2).2
    (((compares a a.2 b b.2).1 less).trans ((compares b b.2 c c.2).1 less'))
  incomp_trans a b c := by
    simp only [compares _ (Subtype.coe_prop _) _ (Subtype.coe_prop _), not_lt]
    exact fun same same' => ⟨same'.1.trans same.1, same.2.trans same'.2⟩

def rate (feeAndSize : Int × Int) : ℚ := feeAndSize.1 / feeAndSize.2

theorem rate_eq_iff {a b : Int × Int} (posA : 0 < a.2) (posB : 0 < b.2) :
    a.1 * b.2 = a.2 * b.1 ↔ rate a = rate b := by
  have nonzeroA : (a.2 : ℚ) ≠ 0 := by exact_mod_cast posA.ne'
  have nonzeroB : (b.2 : ℚ) ≠ 0 := by exact_mod_cast posB.ne'
  rw [rate, rate, div_eq_div_iff nonzeroA nonzeroB, mul_comm (b.1 : ℚ)]
  exact_mod_cast Iff.rfl

theorem rate_lt_iff {a b : Int × Int} (posA : 0 < a.2) (posB : 0 < b.2) :
    a.2 * b.1 < a.1 * b.2 ↔ rate b < rate a := by
  have positiveA : (0 : ℚ) < a.2 := by exact_mod_cast posA
  have positiveB : (0 : ℚ) < b.2 := by exact_mod_cast posB
  rw [rate, rate, div_lt_div_iff₀ positiveB positiveA, mul_comm (b.1 : ℚ)]
  exact_mod_cast Iff.rfl

theorem Feerates.smaller_pos {r : Feerates} (alone : 0 < r.size) (package : 0 < r.sizeWith) :
    0 < r.smaller.2 := by
  unfold smaller
  split_ifs
  · exact package
  · exact alone

theorem Feerates.compareByAncestorFee_iff {a b : Feerates} (posA : 0 < a.smaller.2)
    (posB : 0 < b.smaller.2) {hashA hashB : H256} : a.compareByAncestorFee b hashA hashB = true ↔
      toLex (-rate a.smaller, hashA) < toLex (-rate b.smaller, hashB) := by
  simp only [compareByAncestorFee, rate_eq_iff posA posB, rate_lt_iff posA posB, Prod.Lex.toLex_lt_toLex,
    neg_lt_neg_iff, neg_inj]
  split_ifs with same <;> simp [same]

/-- The key of the orders that put plain transactions first, then those that create, then calls: for
contracts the ancestors, the gas price, the size and the hash. -/
def contractKey (createOrCall ancestors : Nat) (gasPrice size : Int) (feerate : ℚ) (hash : H256) :
    ℕ ×ₗ ℕ ×ₗ ℤ ×ₗ ℤ ×ₗ ℚ ×ₗ ℕ :=
  if createOrCall = 0 then toLex (0, toLex (0, toLex (0, toLex (0, toLex (-feerate, hash)))))
  else toLex (if createOrCall = 1 then 2 else 1,
    toLex (ancestors, toLex (-gasPrice, toLex (size, toLex (0, hash)))))

theorem contractOrder_iff {callA callB countA countB hashA hashB : Nat} {gasA gasB sizeA sizeB : Int}
    {rateA rateB : ℚ} {plain : Bool}
    (plain_iff : plain = true ↔ toLex (-rateA, hashA) < toLex (-rateB, hashB)) :
    (if callA ≠ 0 ∨ callB ≠ 0 then
      if decide (0 < callA) ≠ decide (0 < callB) then !decide (0 < callA)
      else if 0 < callA ∧ 0 < callB ∧ callA ≠ callB ∧ (callA = 1 ∨ callB = 1) then !decide (callA = 1)
      else if countA ≠ countB then decide (countA < countB)
      else if gasA ≠ gasB then decide (gasB < gasA)
      else if sizeA ≠ sizeB then decide (sizeA < sizeB)
      else decide (hashA < hashB)
    else plain) = true ↔ contractKey callA countA gasA sizeA rateA hashA <
      contractKey callB countB gasB sizeB rateB hashB := by
  unfold contractKey
  by_cases noneA : callA = 0 <;> by_cases noneB : callB = 0
  · simp [noneA, noneB, plain_iff, Prod.Lex.toLex_lt_toLex]
  · have first : (0 : ℕ) < if callB = 1 then 2 else 1 := by split_ifs <;> decide
    simp [noneA, noneB, Nat.pos_of_ne_zero noneB, Prod.Lex.toLex_lt_toLex, first]
  · have last : ¬(if callA = 1 then 2 else 1 : ℕ) < 0 ∧ (if callA = 1 then 2 else 1 : ℕ) ≠ 0 := by
      split_ifs <;> decide
    simp [noneA, noneB, Nat.pos_of_ne_zero noneA, Prod.Lex.toLex_lt_toLex, last]
  · simp only [noneA, noneB, Nat.pos_of_ne_zero noneA, Nat.pos_of_ne_zero noneB, if_false,
      Prod.Lex.toLex_lt_toLex, lt_irrefl, false_or]
    grind

namespace RankedEntry

variable {nBytesPerSigOp : Nat} {s : Set {e : RankedEntry // e.Positive nBytesPerSigOp}}

theorem strictWeak_compareByScore :
    StrictWeak s fun a b => compareByScore nBytesPerSigOp a.1 b.1 := by
  refine strictWeak_of_key (fun e => toLex
    (-rate (e.1.entry.nFee, e.1.size nBytesPerSigOp), OrderDual.toDual e.1.hash)) fun a _ b _ => ?_
  have same := @rate_eq_iff (a.1.entry.nFee, a.1.size nBytesPerSigOp)
    (b.1.entry.nFee, b.1.size nBytesPerSigOp) a.2.1 b.2.1
  have less := @rate_lt_iff (a.1.entry.nFee, a.1.size nBytesPerSigOp)
    (b.1.entry.nFee, b.1.size nBytesPerSigOp) a.2.1 b.2.1
  rw [Int.mul_comm (a.1.size nBytesPerSigOp)] at same less
  simp only [compareByScore, same, less, Prod.Lex.toLex_lt_toLex, neg_lt_neg_iff, neg_inj,
    OrderDual.toDual_lt_toDual]
  split_ifs with equal <;> simp [equal]

theorem smaller_pos {e : RankedEntry} (positive : e.Positive nBytesPerSigOp) :
    0 < (e.withAncestors nBytesPerSigOp).smaller.2 :=
  Feerates.smaller_pos positive.1 positive.2.2

theorem strictWeak_compareByAncestorFee :
    StrictWeak s fun a b => compareByAncestorFee nBytesPerSigOp a.1 b.1 :=
  strictWeak_of_key
    (fun e => toLex (-rate (e.1.withAncestors nBytesPerSigOp).smaller, e.1.hash)) fun a _ b _ =>
      Feerates.compareByAncestorFee_iff (smaller_pos a.2) (smaller_pos b.2)

theorem strictWeak_compareByAncestorFeeOrGasPrice :
    StrictWeak s fun a b => compareByAncestorFeeOrGasPrice nBytesPerSigOp a.1 b.1 :=
  strictWeak_of_key (fun e => contractKey e.1.entry.tx.getCreateOrCall e.1.entry.nCountWithAncestors
    e.1.entry.nMinGasPrice (e.1.size nBytesPerSigOp)
    (rate (e.1.withAncestors nBytesPerSigOp).smaller) e.1.hash) fun a _ b _ =>
      contractOrder_iff (Feerates.compareByAncestorFee_iff (smaller_pos a.2) (smaller_pos b.2))

theorem compareByDescendantScore_self (e : RankedEntry) :
    compareByDescendantScore nBytesPerSigOp e e = true := by
  simp [compareByDescendantScore, Int.mul_comm]

end RankedEntry

namespace MinerEnv

variable {σ : Type} (env : MinerEnv σ) (pool : CTxMemPool)

def modifiedRates (e : CTxMemPoolModifiedEntry) : Feerates :=
  ⟨(pool.entry e.iter).getModifiedFee, (pool.entry e.iter).getTxSize env.nBytesPerSigOp,
    e.nModFeesWithAncestors, e.nSizeWithAncestors⟩

def exact : MinerEnv σ :=
  { env with compareByAncestorFee := fun a b =>
      (env.modifiedRates pool a).compareByAncestorFee (env.modifiedRates pool b) a.iter b.iter }

abbrev PositiveEntry :=
  {e : CTxMemPoolModifiedEntry // 0 < (env.modifiedRates pool e).size ∧ 0 < e.nSizeWithAncestors}

theorem strictWeak_compareModifiedEntry {s : Set (env.PositiveEntry pool)} :
    StrictWeak s fun a b => (env.exact pool).compareModifiedEntry pool a.1 b.1 := by
  refine strictWeak_of_key (fun e => contractKey (pool.entry e.1.iter).tx.getCreateOrCall
    (if e.1.nSizeWithAncestors = (env.modifiedRates pool e.1).size then 0 else 1)
    (pool.entry e.1.iter).nMinGasPrice (env.modifiedRates pool e.1).size
    (rate (env.modifiedRates pool e.1).smaller) e.1.iter) fun a _ b _ => ?_
  rw [← contractOrder_iff (Feerates.compareByAncestorFee_iff
    (Feerates.smaller_pos a.2.1 a.2.2) (Feerates.smaller_pos b.2.1 b.2.2)), Bool.coe_iff_coe]
  have size (e : CTxMemPoolModifiedEntry) : (pool.entry e.iter).getTxSize
    (env.exact pool).nBytesPerSigOp = (env.modifiedRates pool e).size := rfl
  simp only [compareModifiedEntry, size]
  -- whether all ancestors are in the block, as the two tests of the source compare it
  by_cases allA : a.1.nSizeWithAncestors = (env.modifiedRates pool a.1).size <;>
    by_cases allB : b.1.nSizeWithAncestors = (env.modifiedRates pool b.1).size <;>
      simp only [allA, allB, ne_eq, not_true, not_false_iff, and_true, and_false, if_true,
        if_false] <;> rfl

end MinerEnv

/-- `CompareTxMemPoolEntryByScore`, `CompareTxMemPoolEntryByAncestorFee`,
`CompareTxMemPoolEntryByAncestorFeeOrGasPrice` and `CompareModifiedEntry` are strict weak orders. -/
def OthersOrder {σ : Type} (env : MinerEnv σ) (pool : CTxMemPool)
    (entries : Set {e : RankedEntry // e.Positive env.nBytesPerSigOp})
    (modified : Set (env.PositiveEntry pool)) : Prop :=
  StrictWeak entries (fun a b => RankedEntry.compareByScore env.nBytesPerSigOp a.1 b.1) ∧
    StrictWeak entries (fun a b => RankedEntry.compareByAncestorFee env.nBytesPerSigOp a.1 b.1) ∧
    StrictWeak entries (fun a b =>
      RankedEntry.compareByAncestorFeeOrGasPrice env.nBytesPerSigOp a.1 b.1) ∧
    StrictWeak modified fun a b => (env.exact pool).compareModifiedEntry pool a.1 b.1

theorem othersOrder {σ : Type} (env : MinerEnv σ) (pool : CTxMemPool)
    (entries : Set {e : RankedEntry // e.Positive env.nBytesPerSigOp})
    (modified : Set (env.PositiveEntry pool)) : OthersOrder env pool entries modified :=
  ⟨RankedEntry.strictWeak_compareByScore, RankedEntry.strictWeak_compareByAncestorFee,
    RankedEntry.strictWeak_compareByAncestorFeeOrGasPrice, env.strictWeak_compareModifiedEntry pool⟩

/-- Four comparators are strict weak orders of all entries with positive sizes. All five are of a set
of entries exactly when it is empty: `CompareTxMemPoolEntryByDescendantScore` puts every entry before
itself. -/
theorem strictWeakOrders_iff {σ : Type} (env : MinerEnv σ) (pool : CTxMemPool)
    (entries : Set {e : RankedEntry // e.Positive env.nBytesPerSigOp})
    (modified : Set (env.PositiveEntry pool)) :
    OthersOrder env pool entries modified ∧
      ((StrictWeak entries (fun a b =>
          RankedEntry.compareByDescendantScore env.nBytesPerSigOp a.1 b.1) ∧
        OthersOrder env pool entries modified) ↔ entries = ∅) := by
  refine ⟨othersOrder env pool entries modified, fun ⟨byScore, _⟩ => ?_, fun empty =>
    ⟨?_, othersOrder env pool entries modified⟩⟩
  · refine Set.eq_empty_iff_forall_notMem.2 fun e listed => ?_
    exact byScore.irrefl ⟨e, listed⟩ (RankedEntry.compareByDescendantScore_self e.1)
  · refine strictWeak_of_key (fun _ => 0) fun a listed => ?_
    rw [empty] at listed
    exact listed.elim

def loneEntry : RankedEntry where
  entry := { tx := {}, nFee := 1000, nTxWeight := 800, sigOpCost := 4, nCountWithAncestors := 1
             nSizeWithAncestors := 200, nModFeesWithAncestors := 1000, nSigOpCostWithAncestors := 4 }
  hash := 7
  nTime := 1600000000
  nSizeWithDescendants := 200
  nModFeesWithDescendants := 1000

/-- The entry comes before itself. -/
theorem loneEntry_before_itself : loneEntry.Positive 20 ∧
    loneEntry.compareByDescendantScore 20 loneEntry = true := by
  unfold RankedEntry.Positive
  decide

end Artax
