import Artax.Aal.Conservation
import Artax.Evm.Operations

/-!
# Recorded outputs and the condensing transaction

After a successful execution the state records, for every account with a balance, which output of the
condensing transaction holds it, also when `createCondensingTX` gave up.
-/

namespace Artax

open List

namespace ArtaxState

theorem vin_updateVin (s : ArtaxState) (entry : Address × Vin) (b : Address) :
    (s.updateVin entry).vin b =
      if b = entry.1 ∧ ((s.vin entry.1).isSome || entry.2.alive) = true
      then some entry.2 else s.vin b := by
  unfold updateVin
  by_cases writes : ((s.vin entry.1).isSome || entry.2.alive) = true
  · rw [if_pos writes, vin_putVin]
    simp [writes]
  · rw [if_neg writes]
    simp [writes]

theorem vin_updateUTXO_of_not_mem (entries : List (Address × Vin)) (s : ArtaxState) (a : Address)
    (outside : a ∉ entries.map Prod.fst) : (s.updateUTXO entries).vin a = s.vin a := by
  induction entries generalizing s with
  | nil => rfl
  | cons entry rest ih =>
    simp only [map_cons, mem_cons, not_or] at outside
    rw [updateUTXO, foldl_cons, ← updateUTXO, ih _ outside.2, vin_updateVin]
    simp [outside.1]

theorem vin_updateUTXO_of_mem (entries : List (Address × Vin)) (s : ArtaxState)
    (nodup : (entries.map Prod.fst).Nodup) {a : Address} {v : Vin} (member : (a, v) ∈ entries) :
    (s.updateUTXO entries).vin a =
      if ((s.vin a).isSome || v.alive) = true then some v else none := by
  induction entries generalizing s with
  | nil => cases member
  | cons entry rest ih =>
    simp only [map_cons, nodup_cons] at nodup
    rw [updateUTXO, foldl_cons, ← updateUTXO]
    rcases mem_cons.1 member with rfl | later
    · rw [vin_updateUTXO_of_not_mem rest _ a nodup.1, vin_updateVin]
      by_cases writes : ((s.vin a).isSome || v.alive) = true
      · simp [writes]
      · have absent : s.vin a = none := by
          cases found : s.vin a with
          | none => rfl
          | some w => simp [found] at writes
        simp [absent]
    · have other : a ≠ entry.1 := fun same =>
        nodup.1 (same ▸ mem_map_of_mem (f := Prod.fst) later)
      rw [ih _ nodup.2 later, vin_updateVin]
      simp [other]

end ArtaxState

namespace CondensingTX

variable (computeHash : CTransaction → H256) (c : CondensingInput)

def recordedVins : List (Address × Vin) :=
  createVin c (createCondensingTX c).1 ((createCondensingTX c).2.getHash computeHash)

/-- Every alive output recorded for an address names the condensing transaction and one of its
outputs, which pays the recorded value to it. -/
def VinsNameOutputs (s : ArtaxState) : Prop :=
  ∀ a v, a ∈ (recordedVins computeHash c).map Prod.fst →
    (s.updateUTXO (recordedVins computeHash c)).vin a = some v → v.alive = true →
    v.hash = (createCondensingTX c).2.getHash computeHash ∧
    ∃ out, (createCondensingTX c).2.vout[v.nVout.toNat]? = some out ∧
      out.nValue = v.value.toNat ∧ out.scriptPubKey = payScript c a

def HasCoins : Prop := ∃ a ∈ parties c.transfers, 0#256 < startValue c (selectionVin c) a

/-- When a reached address other than the sender has a positive new balance, nobody is overdrawn,
some party starts with coins, and the balance fits a `CAmount`. -/
def CoinsCovered : Prop :=
  ∀ a, a ≠ c.transaction.sender → Reached c a → 0#256 < newBalance c a →
    Solvent c ∧ HasCoins c ∧ c.amounts.direct (newBalance c a) = (newBalance c a).toNat

theorem spentVins_ne_nil_iff : spentVins c ≠ [] ↔ HasCoins c := by
  have positive (a : Address) (v : Vin) (found : (selectionVin c).find? a = some v) :
      0#256 < startValue c (selectionVin c) a ↔ spends c a v := by
    rw [startValue, found, spends]
    simp only [Option.getD_some, Bool.and_eq_true, decide_eq_true_eq]
    split
    · rename_i counted
      simp [counted]
    · rename_i ignored
      simp [ignored]
  constructor
  · intro some
    obtain ⟨⟨a, v⟩, spent⟩ := exists_mem_of_ne_nil _ some
    obtain ⟨found, test⟩ := (mem_spentVins_iff c a v).1 spent
    exact ⟨a, selectionVin_isSome c (Option.isSome_iff_exists.2 ⟨v, found⟩),
      (positive a v found).2 test⟩
  · rintro ⟨a, _, starts⟩
    cases found : (selectionVin c).find? a with
    | none => simp [startValue, found] at starts
    | some v =>
      exact ne_nil_of_mem ((mem_spentVins_iff c a v).2 ⟨found, (positive a v found).1 starts⟩)

theorem createCondensingTX_balances :
    (createCondensingTX c).1.balances = (newBalances c).2.2 := by
  rw [createCondensingTX, ← newBalances]
  obtain ⟨ok, vins, balances⟩ := newBalances c
  cases ok <;> rfl

/-- What is recorded: an alive output for each reached address with coins, a dead one for each
reached address without. -/
theorem mem_recordedVins_iff (a : Address) (v : Vin) :
    (a, v) ∈ recordedVins computeHash c ↔
      a ≠ c.transaction.sender ∧ Reached c a ∧
      v = (if 0#256 < newBalance c a
        then ⟨(createCondensingTX c).2.getHash computeHash,
          ((createCondensingTX c).1.nVouts.find? a).getD 0, newBalance c a, true⟩
        else ⟨(createCondensingTX c).2.getHash computeHash, 0, 0#256, false⟩) := by
  rw [recordedVins, createVin, createCondensingTX_balances, mem_map]
  constructor
  · rintro ⟨⟨key, b⟩, kept, same⟩
    obtain ⟨stored, test⟩ := mem_filter.1 kept
    obtain ⟨reached, rfl⟩ := (mem_newBalances c key b).1 stored
    obtain ⟨rfl, rfl⟩ := same
    exact ⟨of_decide_eq_true test, reached, rfl⟩
  · rintro ⟨notSender, reached, rfl⟩
    have stored := (mem_newBalances c a _).2 ⟨reached, rfl⟩
    exact ⟨(a, newBalance c a), mem_filter.2 ⟨stored, decide_eq_true notSender⟩, rfl⟩

theorem recordedVins_nodup : ((recordedVins computeHash c).map Prod.fst).Nodup := by
  rw [recordedVins, createVin, createCondensingTX_balances, map_map]
  exact (newBalances c).2.2.keys_nodup.sublist (filter_sublist.map Prod.fst)

theorem vin_recorded (s : ArtaxState) {a : Address} (notSender : a ≠ c.transaction.sender)
    (reached : Reached c a) (positive : 0#256 < newBalance c a) :
    (s.updateUTXO (recordedVins computeHash c)).vin a =
      some ⟨(createCondensingTX c).2.getHash computeHash,
        ((createCondensingTX c).1.nVouts.find? a).getD 0, newBalance c a, true⟩ := by
  have member := (mem_recordedVins_iff computeHash c a _).2 ⟨notSender, reached, rfl⟩
  rw [if_pos positive] at member
  rw [ArtaxState.vin_updateUTXO_of_mem _ s (recordedVins_nodup computeHash c) member]
  simp

theorem payment_at_recorded_index (solvent : Solvent c)
    (fits : (createCondensingTX c).1.voutOverflow = false) {a : Address}
    (party : a ∈ parties c.transfers) (positive : 0#256 < newBalance c a) :
    ((payees (newBalances c).2.2.entries).map (payment c))[
      (((createCondensingTX c).1.nVouts.find? a).getD 0).toNat]? =
        some (payment c (a, newBalance c a)) := by
  obtain ⟨_, _, indices⟩ := createCondensingTX_of_solvent c solvent fits
  have paid := (mem_payees c a _).2 ⟨⟨(solvent.reached_iff a).2 party, rfl⟩, positive⟩
  obtain ⟨i, found⟩ := mem_iff_getElem?.1 paid
  obtain ⟨index, bound⟩ := indices i _ found
  have small : i % 2 ^ 32 = i := Nat.mod_eq_of_lt (by simp only [maxContractVouts] at bound; omega)
  rw [index, Option.getD_some, UInt32.toNat_ofNat', small, getElem?_map, found]
  rfl

/-- The recorded outputs name outputs of the condensing transaction exactly when the coins are
covered. -/
theorem vinsNameOutputs_iff_coinsCovered (s : ArtaxState)
    (fits : (createCondensingTX c).1.voutOverflow = false) :
    VinsNameOutputs computeHash c s ↔ CoinsCovered c := by
  constructor
  · intro named a notSender reached positive
    have recorded := vin_recorded computeHash c s notSender reached positive
    have key : a ∈ (recordedVins computeHash c).map Prod.fst :=
      mem_map.2 ⟨_, (mem_recordedVins_iff computeHash c a _).2 ⟨notSender, reached, rfl⟩, rfl⟩
    obtain ⟨_, out, found, value, _⟩ := named a _ key recorded rfl
    have solvent : Solvent c := by
      by_contra overdrawn
      rw [(createCondensingTX_of_not_solvent c overdrawn).1] at found
      simp at found
    obtain ⟨_, tx, _⟩ := createCondensingTX_of_solvent c solvent fits
    have spent : spentVins c ≠ [] := by
      intro none
      rw [tx, none] at found
      simp at found
    have paid := payment_at_recorded_index c solvent fits reached.1 positive
    refine ⟨solvent, (spentVins_ne_nil_iff c).1 spent, ?_⟩
    rw [tx] at found
    split at found
    · simp at found
    · rw [paid, Option.some.injEq] at found
      rw [← found] at value
      exact value
  · intro covered a v key recorded alive
    obtain ⟨⟨b, w⟩, member, rfl⟩ := mem_map.1 key
    obtain ⟨notSender, reached, written⟩ := (mem_recordedVins_iff computeHash c b w).1 member
    rw [ArtaxState.vin_updateUTXO_of_mem _ s (recordedVins_nodup computeHash c) member] at recorded
    have same : v = w := by
      split at recorded
      · exact (Option.some.inj recorded).symm
      · cases recorded
    subst same
    by_cases positive : 0#256 < newBalance c b
    · rw [if_pos positive] at written
      obtain ⟨solvent, coins, exact⟩ := covered b notSender reached positive
      have spent := (spentVins_ne_nil_iff c).2 coins
      obtain ⟨_, tx, _⟩ := createCondensingTX_of_solvent c solvent fits
      have paid := payment_at_recorded_index c solvent fits reached.1 positive
      have somebody : payees (newBalances c).2.2.entries ≠ [] := by
        intro empty
        rw [empty] at paid
        simp at paid
      rw [written]
      refine ⟨rfl, payment c (b, newBalance c b), ?_, exact, rfl⟩
      rw [tx, if_neg (by simp [spent, somebody])]
      exact paid
    · rw [if_neg positive] at written
      rw [written] at alive
      cases alive

/-- The transfer of the one-transfer example is covered by the outputs of its contracts. -/
theorem oneTransfer_vins_name_outputs :
    VinsNameOutputs (fun _ => 1) (oneTransfer separateVins) {} := by
  refine (vinsNameOutputs_iff_coinsCovered _ _ {} (by decide)).2 ?_
  intro a _ _ _
  have solvent : Solvent (oneTransfer separateVins) := (newBalances_ok_iff _).1 (by decide)
  exact ⟨solvent, ⟨1, by decide, by decide⟩, rfl⟩

/-- Contract 3 sends its five coins to contract 1 in a frame that is rolled back, and then to
contract 2: both transfers stay on the list. -/
def revertedThenRepeated : CondensingInput :=
  { oneTransfer (fun a => if a = 3 then some ⟨7, 0, 5#256, true⟩ else none) with
    transfers := [⟨3, 1, 5#256⟩, ⟨3, 2, 5#256⟩] }

/-- There contract 3 counts as overdrawn, the empty transaction is returned, and an alive output of
contract 1 is recorded that does not exist. -/
theorem overdrawn_records_missing_output :
    (createCondensingTX revertedThenRepeated).1.voutOverflow = false ∧
    (createCondensingTX revertedThenRepeated).2 = {} ∧
    (({} : ArtaxState).updateUTXO (recordedVins (fun _ => 1) revertedThenRepeated)).vin 1 =
      some ⟨0, 0, 5#256, true⟩ ∧
    ¬ VinsNameOutputs (fun _ => 1) revertedThenRepeated {} := by
  refine ⟨by decide, by decide, by decide, ?_⟩
  intro named
  obtain ⟨_, out, found, _⟩ := named 1 ⟨0, 0, 5#256, true⟩ (by decide) (by decide) rfl
  have none : (createCondensingTX revertedThenRepeated).2.vout = [] := by decide
  rw [none] at found
  simp at found

end CondensingTX
end Artax
