import Artax.Store.CoinsCache
import Artax.Util.CacheStack

/-!
# Layers of coins caches

`CCoinsViewCache` objects over each other, with what `Flush` and `BatchWrite` do between them.
Whatever is done at the top, the stack answers as one flat map of unspent coins would.
-/

namespace Artax

open Util (CacheStack CacheEntry)

abbrev CoinsStack := CacheStack COutPoint Coin

namespace CoinsStack

variable (s : CoinsStack) (outpoint : COutPoint)

/-- `CCoinsViewCache::FetchCoin`. -/
def fetchCoin : CoinsStack × Option (CacheEntry Coin) :=
  (s.fetch outpoint, (s.fetch outpoint).entry outpoint)

/-- `CCoinsViewCache::GetCoin`. -/
def getCoin : CoinsStack × Option Coin :=
  let (s, it) := fetchCoin s outpoint
  (s, (it.bind CacheEntry.value).filter fun coin => !coin.isSpent)

def haveCoin : CoinsStack × Bool :=
  let (s, it) := fetchCoin s outpoint
  (s, (it.bind CacheEntry.value).any fun coin => !coin.isSpent)

def accessCoin : CoinsStack × Coin :=
  let (s, it) := fetchCoin s outpoint
  (s, (it.bind CacheEntry.value).getD .empty)

def addCoin (coin : Coin) (possible_overwrite : Bool) : Option CoinsStack :=
  if coin.isSpent then none
  else if coin.out.scriptPubKey.isUnspendable then some s
  else s.add outpoint coin possible_overwrite

def spendCoin : CoinsStack × Option Coin :=
  let (s, moved) := s.remove outpoint
  (s, moved.map fun coin => coin.getD .empty)

end CoinsStack

inductive CoinsOp
  | addCoin (outpoint : COutPoint) (coin : Coin) (possible_overwrite : Bool)
  | spendCoin (outpoint : COutPoint)
  | getCoin (outpoint : COutPoint)
  | haveCoin (outpoint : COutPoint)
  | accessCoin (outpoint : COutPoint)
  | uncache (depth : Nat) (outpoint : COutPoint)
  | flush (depth : Nat)

inductive CoinsAnswer
  | done
  | found (coin : Option Coin)
  | have_ (unspent : Bool)
  | access (coin : Coin)
  deriving DecidableEq, Repr

namespace CoinsOp

def perform (s : CoinsStack) : CoinsOp → Option (CoinsStack × CoinsAnswer)
  | addCoin outpoint coin overwrite => (s.addCoin outpoint coin overwrite).map fun s => (s, .done)
  | spendCoin outpoint => some ((CoinsStack.spendCoin s outpoint).1, .done)
  | getCoin outpoint => let (s, coin) := CoinsStack.getCoin s outpoint; some (s, .found coin)
  | haveCoin outpoint => let (s, unspent) := CoinsStack.haveCoin s outpoint; some (s, .have_ unspent)
  | accessCoin outpoint => let (s, coin) := CoinsStack.accessCoin s outpoint; some (s, .access coin)
  | uncache depth outpoint => some (s.uncache depth outpoint, .done)
  | flush depth => (s.flush depth).map fun s => (s, .done)

def performFlat (coins : CoinsView) : CoinsOp → CoinsView × CoinsAnswer
  | addCoin outpoint coin _ => (coins.addCoin outpoint coin, .done)
  | spendCoin outpoint => (coins.spendCoin outpoint, .done)
  | getCoin outpoint => (coins, .found (coins outpoint))
  | haveCoin outpoint => (coins, .have_ (coins outpoint).isSome)
  | accessCoin outpoint => (coins, .access ((coins outpoint).getD .empty))
  | uncache _ _ => (coins, .done)
  | flush _ => (coins, .done)

/-- A coin that is added is unspent, and replaces none unless it may. -/
def Proper (coins : CoinsView) : CoinsOp → Prop
  | addCoin outpoint coin overwrite =>
    coin.isSpent = false ∧ (overwrite = false → coins outpoint = none)
  | _ => True

def runAll (s : CoinsStack) : List CoinsOp → Option (CoinsStack × List CoinsAnswer)
  | [] => some (s, [])
  | op :: rest => do
    let (s, answer) ← op.perform s
    let (s, answers) ← runAll s rest
    some (s, answer :: answers)

def runFlat (coins : CoinsView) : List CoinsOp → CoinsView × List CoinsAnswer
  | [] => (coins, [])
  | op :: rest =>
    let (coins, answer) := op.performFlat coins
    let (coins, answers) := runFlat coins rest
    (coins, answer :: answers)

def ProperRun (coins : CoinsView) : List CoinsOp → Prop
  | [] => True
  | op :: rest => op.Proper coins ∧ ProperRun (op.performFlat coins).1 rest

end CoinsOp

namespace CoinsStack

variable {s : CoinsStack} {coins : CoinsView}

/-- A stack of at least one cache that answers as a map of unspent coins. -/
structure Answers (s : CoinsStack) (coins : CoinsView) : Prop where
  holds : CacheStack.Holds s coins
  nonempty : s.layers ≠ []
  unspent : coins.Unspent

theorem nonempty_of_length {s' : CoinsStack} (nonempty : s.layers ≠ [])
    (length : s'.layers.length = s.layers.length) : s'.layers ≠ [] := by
  rw [← List.length_pos_iff, length]
  exact List.length_pos_iff.2 nonempty

section

variable (answers : s.Answers coins)
include answers

theorem Answers.fetch (outpoint : COutPoint) :
    CoinsStack.Answers (s.fetch outpoint) coins :=
  ⟨(answers.holds.fetch outpoint).1,
    nonempty_of_length answers.nonempty (CacheStack.length_fetchLayers outpoint), answers.unspent⟩

theorem Answers.fetchCoin (outpoint : COutPoint) :
    (s.fetchCoin outpoint).2.bind CacheEntry.value = coins outpoint :=
  answers.holds.entry_fetch answers.nonempty outpoint

theorem Answers.perform {op : CoinsOp} (proper : op.Proper coins) :
    ∃ s', op.perform s = some (s', (op.performFlat coins).2) ∧
      CoinsStack.Answers s' (op.performFlat coins).1 := by
  cases op with
  | addCoin outpoint coin overwrite =>
    obtain ⟨unspent, free⟩ := proper
    have unspentAfter := answers.unspent.addCoin unspent outpoint
    simp only [CoinsOp.perform, CoinsOp.performFlat, CoinsStack.addCoin, CoinsView.addCoin, unspent,
      Bool.false_eq_true, if_false] at unspentAfter ⊢
    cases unspendable : coin.out.scriptPubKey.isUnspendable with
    | true => exact ⟨s, rfl, answers⟩
    | false =>
      obtain ⟨s', added, holds, length⟩ := answers.holds.add answers.nonempty free coin
      rw [unspendable] at unspentAfter
      simp only [Bool.false_eq_true, if_false, added, Option.map_some] at unspentAfter ⊢
      exact ⟨s', rfl, holds, nonempty_of_length answers.nonempty length, unspentAfter⟩
  | spendCoin outpoint =>
    obtain ⟨holds, -, length⟩ := answers.holds.remove answers.nonempty outpoint
    exact ⟨_, rfl, holds, nonempty_of_length answers.nonempty length,
      answers.unspent.spendCoin outpoint⟩
  | getCoin outpoint =>
    refine ⟨s.fetch outpoint, ?_, answers.fetch outpoint⟩
    change some (s.fetch outpoint, CoinsAnswer.found
      (((s.fetchCoin outpoint).2.bind CacheEntry.value).filter fun coin => !coin.isSpent)) = _
    rw [answers.fetchCoin]
    cases found : coins outpoint with
    | none => simp [CoinsOp.performFlat, found]
    | some coin => simp [CoinsOp.performFlat, found, answers.unspent outpoint coin found]
  | haveCoin outpoint =>
    refine ⟨s.fetch outpoint, ?_, answers.fetch outpoint⟩
    change some (s.fetch outpoint, CoinsAnswer.have_
      (((s.fetchCoin outpoint).2.bind CacheEntry.value).any fun coin => !coin.isSpent)) = _
    rw [answers.fetchCoin]
    cases found : coins outpoint with
    | none => simp [CoinsOp.performFlat, found]
    | some coin => simp [CoinsOp.performFlat, found, answers.unspent outpoint coin found]
  | accessCoin outpoint =>
    refine ⟨s.fetch outpoint, ?_, answers.fetch outpoint⟩
    change some (s.fetch outpoint, CoinsAnswer.access
      (((s.fetchCoin outpoint).2.bind CacheEntry.value).getD .empty)) = _
    rw [answers.fetchCoin]
    rfl
  | uncache depth outpoint =>
    refine ⟨_, rfl, (answers.holds.uncache depth outpoint).1, ?_, answers.unspent⟩
    exact nonempty_of_length answers.nonempty (List.length_modify _ _ _)
  | flush depth =>
    obtain ⟨s', flushed, holds, length, -⟩ := answers.holds.flush depth
    refine ⟨s', ?_, holds, nonempty_of_length answers.nonempty length, answers.unspent⟩
    rw [CoinsOp.perform, flushed]
    rfl

theorem Answers.runAll {ops : List CoinsOp} (proper : CoinsOp.ProperRun coins ops) :
    ∃ s', CoinsOp.runAll s ops = some (s', (CoinsOp.runFlat coins ops).2) ∧
      CoinsStack.Answers s' (CoinsOp.runFlat coins ops).1 := by
  induction ops generalizing s coins with
  | nil => exact ⟨s, rfl, answers⟩
  | cons op rest ih =>
    obtain ⟨middle, performed, middleAnswers⟩ := answers.perform proper.1
    obtain ⟨after, ran, afterAnswers⟩ := ih middleAnswers proper.2
    refine ⟨after, ?_, afterAnswers⟩
    rw [CoinsOp.runAll, performed, Option.bind_eq_bind, Option.bind_some]
    dsimp only
    rw [ran]
    rfl

end

/-- A stack of caches over unspent coins throws nothing and answers as one flat map would, reads and
`Uncache` change no value at any depth, and when all is flushed the base is that map. -/
theorem layered_caches_are_flat {base : CoinsView} (unspent : base.Unspent) (height : Nat)
    {ops : List CoinsOp} (proper : CoinsOp.ProperRun base ops) :
    ∃ s : CoinsStack, CoinsOp.runAll (CacheStack.onBase base (height + 1)) ops =
        some (s, (CoinsOp.runFlat base ops).2) ∧
      s.read = (CoinsOp.runFlat base ops).1 ∧
      (∀ outpoint depth, (s.fetch outpoint).readAt depth = s.readAt depth) ∧
      (∀ which outpoint depth, (s.uncache which outpoint).readAt depth = s.readAt depth) ∧
      ∃ flushed, s.flushAll = some flushed ∧ flushed.base = (CoinsOp.runFlat base ops).1 := by
  have start : CoinsStack.Answers (CacheStack.onBase base (height + 1)) base :=
    ⟨CacheStack.holds_onBase base (height + 1), by simp [CacheStack.onBase], unspent⟩
  obtain ⟨s, ran, answers⟩ := start.runAll proper
  exact ⟨s, ran, answers.holds.read, fun outpoint => (answers.holds.fetch outpoint).2,
    fun which outpoint => (answers.holds.uncache which outpoint).2, answers.holds.flushAll⟩

/-- A coin that is made, flushed into the second cache and spent never reaches the base. -/
theorem layered_caches_are_flat_small : ∃ s : CoinsStack,
    CoinsOp.runAll (CacheStack.onBase (fun _ => none) 2)
        [.addCoin ⟨1, 0⟩ ⟨⟨5, []⟩, false, false, 7⟩ false, .flush 0, .getCoin ⟨1, 0⟩,
          .spendCoin ⟨1, 0⟩, .haveCoin ⟨1, 0⟩] =
      some (s, [.done, .done, .found (some ⟨⟨5, []⟩, false, false, 7⟩), .done, .have_ false]) ∧
    ∃ flushed, s.flushAll = some flushed ∧ flushed.base ⟨1, 0⟩ = none := by
  have unspent : CoinsView.Unspent fun _ => none := fun _ _ found => by cases found
  obtain ⟨s, ran, -, -, -, flushed, all, base⟩ := layered_caches_are_flat unspent 1
    (show CoinsOp.ProperRun (fun _ => none) [.addCoin ⟨1, 0⟩ ⟨⟨5, []⟩, false, false, 7⟩ false,
      .flush 0, .getCoin ⟨1, 0⟩, .spendCoin ⟨1, 0⟩, .haveCoin ⟨1, 0⟩] from
      ⟨⟨by decide, fun _ => rfl⟩, trivial, trivial, trivial, trivial, trivial⟩)
  refine ⟨s, ran, flushed, all, ?_⟩
  rw [base]
  rfl

end CoinsStack
end Artax
