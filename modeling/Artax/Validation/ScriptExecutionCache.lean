import Artax.Validation.WitnessCommitment

/-!
# The script execution cache

`CheckInputs` remembers in a cuckoo table the transactions whose scripts were all executed with
success. The table holds none that was not inserted. If a key has one transaction and one set of
flags, and an outpoint one output, what was executed once need not be executed again.
-/

namespace Artax

open Function (update)
open Util Option WitnessEnv

structure CuckooCache (Element : Type) where
  table : Nat → Element
  collectionFlags : Nat → Bool
  epochFlags : Nat → Bool
  epochHeuristicCounter : Nat

structure CuckooSetup (Element : Type) where
  size : Nat
  epochSize : Nat
  depthLimit : Nat
  computeHashes : Element → List Nat

namespace CuckooCache

variable {Element : Type} [DecidableEq Element] (setup : CuckooSetup Element)

/-- `cache::epoch_check`. -/
def epochCheck (c : CuckooCache Element) : CuckooCache Element :=
  if c.epochHeuristicCounter ≠ 0 then
    { c with epochHeuristicCounter := c.epochHeuristicCounter - 1 }
  else
    let unused := (List.range setup.size).countP fun i => c.epochFlags i && !c.collectionFlags i
    if setup.epochSize ≤ unused then
      { c with
        epochFlags := fun _ => false
        collectionFlags := fun i => c.collectionFlags i || !c.epochFlags i
        epochHeuristicCounter := setup.epochSize }
    else
      { c with
        epochHeuristicCounter := max 1 (max (setup.epochSize / 16) (setup.epochSize - unused)) }

def place : Nat → Element → Nat → Bool → CuckooCache Element → CuckooCache Element
  | 0, _, _, _, c => c
  | depth + 1, e, lastLoc, lastEpoch, c =>
    let locs := setup.computeHashes e
    match locs.find? c.collectionFlags with
    | some loc => { c with
        table := update c.table loc e
        collectionFlags := update c.collectionFlags loc false
        epochFlags := update c.epochFlags loc lastEpoch }
    | none =>
      let loc := locs.getD ((1 + locs.idxOf lastLoc) % 8) 0
      place depth (c.table loc) loc (c.epochFlags loc) { c with
        table := update c.table loc e, epochFlags := update c.epochFlags loc lastEpoch }

/-- `cache::insert`. -/
def insert (e : Element) (c : CuckooCache Element) : CuckooCache Element :=
  let c := c.epochCheck setup
  match (setup.computeHashes e).find? fun loc => c.table loc = e with
  | some loc => { c with
      collectionFlags := update c.collectionFlags loc false
      epochFlags := update c.epochFlags loc true }
  | none => place setup setup.depthLimit e 0xffffffff true c

/-- `cache::contains`. -/
def contains (e : Element) (erase : Bool) (c : CuckooCache Element) : Bool × CuckooCache Element :=
  match (setup.computeHashes e).find? fun loc => c.table loc = e with
  | some loc =>
    (true, if erase then { c with collectionFlags := update c.collectionFlags loc true } else c)
  | none => (false, c)

variable {setup} {c : CuckooCache Element} {e : Element} {P : Element → Prop}

omit [DecidableEq Element] in
theorem forall_place {lastLoc depth : Nat} {lastEpoch : Bool} (all : ∀ i, P (c.table i))
    (new : P e) (i : Nat) : P ((place setup depth e lastLoc lastEpoch c).table i) := by
  induction depth generalizing e lastLoc lastEpoch c with
  | zero => exact all i
  | succ depth ih =>
    have put (loc : Nat) : ∀ i, P (update c.table loc e i) :=
      (Function.forall_update_iff _ fun _ => P).2 ⟨new, fun i _ => all i⟩
    rw [place]
    split
    · exact put _ i
    · exact ih (put _) (all _)

theorem forall_insert (all : ∀ i, P (c.table i)) (new : P e) (i : Nat) :
    P ((c.insert setup e).table i) := by
  have same : (c.epochCheck setup).table = c.table := by
    unfold epochCheck
    split
    · rfl
    · dsimp only
      split <;> rfl
  rw [← same] at all
  unfold insert
  dsimp only
  split
  · exact all i
  · exact forall_place all new i

theorem table_contains (erase : Bool) : (c.contains setup e erase).2.table = c.table := by
  unfold contains
  split
  · cases erase <;> rfl
  · rfl

theorem exists_of_contains {erase : Bool} (found : (c.contains setup e erase).1) :
    ∃ i, c.table i = e := by
  unfold contains at found
  split at found
  · rename_i loc here
    exact ⟨loc, by simpa using List.find?_some here⟩
  · cases found

end CuckooCache

/-- The hashes, the table and `VerifyScript`, which returns the text of an error. -/
structure ScriptCheckEnv where
  getHash : CTransaction → H256
  getWitnessHash : WitnessTx → H256
  hashCacheEntry : H256 × UInt32 → H256
  setup : CuckooSetup H256
  verifyScript : CTxOut → WitnessTx → Nat → UInt32 → Option String

structure InputCheck where
  tx : WitnessTx
  inputs : CoinsView
  fScriptChecks : Bool
  flags : UInt32
  cacheFullScriptStore : Bool
  pvChecks : Bool

def standardNotMandatory : UInt32 := 0x1ffde

namespace ScriptCheckEnv

variable (env : ScriptCheckEnv) (call : InputCheck)

/-- The loop of `CheckInputs`, with the checks that go to `pvChecks`, and `none` at an assertion. -/
def checkScripts : List (CTxIn × Nat) → Option (Except Rejection (List (CTxOut × Nat)))
  | [] => some (.ok [])
  | (txin, i) :: rest => do
    let coin ← (call.inputs txin.prevout).filter (!·.isSpent)
    if call.pvChecks then
      return (← checkScripts rest).map ((coin.out, i) :: ·)
    match env.verifyScript coin.out call.tx i call.flags with
    | none => checkScripts rest
    | some error =>
      let mandatory := call.flags &&& ~~~standardNotMandatory
      if call.flags &&& standardNotMandatory ≠ 0 ∧
          env.verifyScript coin.out call.tx i mandatory = none then
        return .error ⟨0, s!"non-mandatory-script-verify-flag ({error})"⟩
      return .error ⟨100, s!"mandatory-script-verify-flag-failed ({error})"⟩

/-- `CheckInputs`. -/
def checkInputs (cache : CuckooCache H256) :
    Option (CuckooCache H256 × Except Rejection (List (CTxOut × Nat))) :=
  if call.tx.tx.isCoinBase || !call.fScriptChecks then some (cache, .ok [])
  else
    let entry := env.hashCacheEntry (env.getWitnessHash call.tx, call.flags)
    let (found, cache) := cache.contains env.setup entry (!call.cacheFullScriptStore)
    if found then some (cache, .ok [])
    else
      (env.checkScripts call call.tx.tx.vin.zipIdx).map fun result =>
        (if result.isOk && call.cacheFullScriptStore && !call.pvChecks then
          cache.insert env.setup entry else cache, result)

def emptyCache : CuckooCache H256 :=
  ⟨fun _ => 0, fun _ => true, fun _ => false, env.setup.epochSize⟩

/-- Coins are the outputs of the transactions that their outpoints name. -/
def Faithful (view : CoinsView) : Prop :=
  ∀ outpoint coin, view outpoint = some coin → ∃ prev : CTransaction,
    env.getHash prev = outpoint.hash ∧ prev.vout[outpoint.n.toNat]? = some coin.out

/-- `VerifyScript` succeeds on the output that an input spends. -/
def Verifies (tx : WitnessTx) (flags : UInt32) (input : CTxIn × Nat) : Prop :=
  ∃ prev : CTransaction, env.getHash prev = input.1.prevout.hash ∧
    ∃ out, prev.vout[input.1.prevout.n.toNat]? = some out ∧
      env.verifyScript out tx input.2 flags = none

/-- No hash stands for two transactions or two keys, and no key is null. -/
structure IdealHashes : Prop where
  transactions : Function.Injective env.getHash
  witnesses : Function.Injective env.getWitnessHash
  entries : Function.Injective env.hashCacheEntry
  entry_ne : ∀ key, env.hashCacheEntry key ≠ 0

/-- The cache after any calls with faithful views. -/
inductive Reaches : CuckooCache H256 → Prop
  | setup : Reaches env.emptyCache
  | call {before after : CuckooCache H256} {result : Except Rejection (List (CTxOut × Nat))}
    (call : InputCheck) (reached : Reaches before) (faithful : env.Faithful call.inputs)
    (returned : env.checkInputs call before = some (after, result)) : Reaches after

variable {env call}

theorem verifies_iff (ideal : env.IdealHashes) {view : CoinsView} (faithful : env.Faithful view)
    {input : CTxIn × Nat} {coin : Coin} (found : view input.1.prevout = some coin) (tx : WitnessTx)
    (flags : UInt32) : env.Verifies tx flags input ↔
      env.verifyScript coin.out tx input.2 flags = none := by
  obtain ⟨prev, hash, output⟩ := faithful _ _ found
  constructor
  · rintro ⟨other, same, out, held, passed⟩
    rw [ideal.transactions (same.trans hash.symm), output] at held
    cases held
    exact passed
  · exact fun passed => ⟨prev, hash, _, output, passed⟩

variable {result : Except Rejection (List (CTxOut × Nat))} {before after : CuckooCache H256}

theorem isOk_checkScripts (ideal : env.IdealHashes) (faithful : env.Faithful call.inputs)
    (direct : call.pvChecks = false) {inputs : List (CTxIn × Nat)}
    (returned : env.checkScripts call inputs = some result) :
    result.isOk ↔ ∀ input ∈ inputs, env.Verifies call.tx call.flags input := by
  induction inputs with
  | nil =>
    cases returned
    simp [Except.isOk, Except.toBool]
  | cons input rest ih =>
    obtain ⟨txin, i⟩ := input
    simp only [checkScripts, direct, bind_eq_bind, bind_eq_some_iff] at returned
    obtain ⟨coin, found, returned⟩ := returned
    have here := @verifies_iff _ ideal _ faithful (txin, i) _
      (filter_eq_some_iff.1 found).1 call.tx call.flags
    rw [List.forall_mem_cons, here]
    split at returned
    · cases ‹false = true›
    · split at returned
      · rename_i passed
        rw [ih returned]
        simp [passed]
      · rename_i error failed
        have rejected : ∃ reason, result = .error reason := by
          split at returned <;> cases returned <;> exact ⟨_, rfl⟩
        obtain ⟨reason, rfl⟩ := rejected
        simp [failed, Except.isOk, Except.toBool]

/-- An entry is null or stands for a transaction whose scripts all succeed under its flags. -/
def Sound (env : ScriptCheckEnv) (entry : H256) : Prop :=
  entry = 0 ∨ ∃ tx flags, entry = env.hashCacheEntry (env.getWitnessHash tx, flags) ∧
    ∀ input ∈ tx.tx.vin.zipIdx, env.Verifies tx flags input

theorem checkInputs_sound (ideal : env.IdealHashes) (faithful : env.Faithful call.inputs)
    (sound : ∀ i, env.Sound (before.table i))
    (returned : env.checkInputs call before = some (after, result)) :
    (∀ i, env.Sound (after.table i)) ∧ (call.fScriptChecks → call.pvChecks = false →
      call.tx.tx.isCoinBase = false → (result.isOk ↔
        ∀ input ∈ call.tx.tx.vin.zipIdx, env.Verifies call.tx call.flags input)) := by
  unfold checkInputs at returned
  split at returned
  · rename_i skipped
    cases returned
    refine ⟨sound, fun checks _ spends => ?_⟩
    rw [checks, spends] at skipped
    cases skipped
  · dsimp only at returned
    have kept : ∀ i, env.Sound ((before.contains env.setup (env.hashCacheEntry
        (env.getWitnessHash call.tx, call.flags)) (!call.cacheFullScriptStore)).2.table i) := by
      rwa [CuckooCache.table_contains]
    split at returned
    · rename_i hit
      cases returned
      refine ⟨kept, fun _ _ _ => iff_of_true rfl ?_⟩
      obtain ⟨i, entry⟩ := CuckooCache.exists_of_contains hit
      -- The key has one witness hash and one set of flags, those of this call.
      obtain null | ⟨tx, flags, key, verified⟩ := sound i
      · exact absurd (entry.symm.trans null) (ideal.entry_ne _)
      · obtain ⟨hash, rfl⟩ := Prod.mk.inj (ideal.entries (entry.symm.trans key))
        rwa [ideal.witnesses hash]
    · obtain ⟨checked, executed, same⟩ := map_eq_some_iff.1 returned
      cases same
      have answer (direct : call.pvChecks = false) :=
        isOk_checkScripts ideal faithful direct executed
      refine ⟨?_, fun _ direct _ => answer direct⟩
      split
      · rename_i stored
        simp only [Bool.and_eq_true, Bool.not_eq_true'] at stored
        exact CuckooCache.forall_insert kept
          (.inr ⟨_, _, rfl, (answer stored.2).1 stored.1.1⟩)
      · exact kept

/-- The cache changes no answer: a call that executes the scripts of a transaction succeeds exactly
when all of them succeed under its flags. -/
theorem cache_transparent (ideal : env.IdealHashes) (reached : env.Reaches before)
    (faithful : env.Faithful call.inputs) (checks : call.fScriptChecks)
    (direct : call.pvChecks = false) (spends : call.tx.tx.isCoinBase = false)
    (returned : env.checkInputs call before = some (after, result)) :
    result.isOk ↔
      ∀ input ∈ call.tx.tx.vin.zipIdx, env.Verifies call.tx call.flags input := by
  have sound : ∀ i, env.Sound (before.table i) := by
    clear returned
    induction reached with
    | setup => exact fun _ => .inl rfl
    | call _ _ faithful returned ih => exact (checkInputs_sound ideal faithful ih returned).1
  exact (checkInputs_sound ideal faithful sound returned).2 checks direct spends

noncomputable def sample : ScriptCheckEnv where
  getHash := idealHash 2 [stakedCoinbase.tx]
  getWitnessHash := idealHash 2 [stakedCoinstake []]
  hashCacheEntry key := Nat.pair key.1 key.2.toNat + 1
  setup := ⟨2, 1, 1, fun _ => [0, 1, 0, 1, 0, 1, 0, 1]⟩
  verifyScript _ _ _ flags := if flags = 0 then none else some "Script failed"

theorem idealHashes_sample : sample.IdealHashes where
  transactions := idealHash_injective _ _
  witnesses := idealHash_injective _ _
  entries _ _ same :=
    have ⟨hash, flags⟩ := Nat.pair_eq_pair.1 (Nat.succ.inj same)
    Prod.ext hash (UInt32.toNat_inj.1 flags)
  entry_ne _ := Nat.succ_ne_zero _

def sampleCheck : InputCheck where
  tx := stakedCoinstake []
  inputs outpoint := if outpoint = ⟨5, 0⟩ then some ⟨⟨0, []⟩, true, false, 1⟩ else none
  fScriptChecks := true
  flags := 0
  cacheFullScriptStore := true
  pvChecks := false

theorem faithful_sampleCheck : sample.Faithful sampleCheck.inputs := by
  intro outpoint coin found
  obtain ⟨rfl, same⟩ := ite_none_right_eq_some.1 found
  cases same
  exact ⟨stakedCoinbase.tx, by decide +kernel, rfl⟩

theorem cache_transparent_twice :
    ∃ before after result, sample.checkInputs sampleCheck before = some (after, result) ∧
      (result.isOk ↔ ∀ input ∈ sampleCheck.tx.tx.vin.zipIdx,
        sample.Verifies sampleCheck.tx sampleCheck.flags input) := by
  have both : ((sample.checkInputs sampleCheck sample.emptyCache).bind fun first =>
      sample.checkInputs sampleCheck first.1).isSome := by decide +kernel
  obtain ⟨⟨after, result⟩, both⟩ := isSome_iff_exists.1 both
  obtain ⟨⟨before, _⟩, first, second⟩ := bind_eq_some_iff.1 both
  exact ⟨before, after, result, second, cache_transparent idealHashes_sample
    (.call sampleCheck .setup faithful_sampleCheck first) faithful_sampleCheck rfl rfl rfl second⟩

/-- A coinbase is accepted, and no script of an output it spends succeeds: it spends none. -/
theorem coinbase_unverified :
    sample.IdealHashes ∧ sample.Reaches sample.emptyCache ∧
      sample.Faithful sampleCheck.inputs ∧ sampleCheck.fScriptChecks ∧
      sampleCheck.pvChecks = false ∧
      sample.checkInputs { sampleCheck with tx := stakedCoinbase } sample.emptyCache =
        some (sample.emptyCache, .ok []) ∧
      ¬ ∀ input ∈ stakedCoinbase.tx.vin.zipIdx,
        sample.Verifies stakedCoinbase sampleCheck.flags input := by
  refine ⟨idealHashes_sample, .setup, faithful_sampleCheck, rfl, rfl, rfl, fun all => ?_⟩
  obtain ⟨prev, hash, _⟩ := all _ List.mem_cons_self
  exact idealHash_ne_idealPair 2 _ prev 0 0 hash

end ScriptCheckEnv
end Artax
