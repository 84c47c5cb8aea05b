import Artax.Aal.CondensingSpec
import Mathlib.Algebra.BigOperators.Ring.Finset
import Mathlib.Algebra.Order.BigOperators.Group.Finset

/-!
# Condensing transactions conserve value

Within the monetary range no word arithmetic of `CondensingTX` wraps. The transaction pays out
exactly what it spends, and pays each party its spent output plus what it received less what it sent.
-/

namespace Artax

open CScript List
open Util.OrderedMap

def receivedNat (transfers : List TransferInfo) (a : Address) : Nat :=
  (transfers.map fun ti => if ti.target = a then ti.value.toNat else 0).sum

def sentNat (transfers : List TransferInfo) (a : Address) : Nat :=
  (transfers.map fun ti => if ti.source = a then ti.value.toNat else 0).sum

def transferTotal (transfers : List TransferInfo) : Nat :=
  (transfers.map fun ti => ti.value.toNat).sum

theorem toNat_sum_values (chosen : TransferInfo → Prop) [DecidablePred chosen]
    (transfers : List TransferInfo) :
    (transfers.map fun ti => if chosen ti then ti.value else 0#256).sum.toNat =
      (transfers.map fun ti => if chosen ti then ti.value.toNat else 0).sum % 2 ^ 256 := by
  induction transfers with
  | nil => rfl
  | cons ti rest ih =>
    rw [map_cons, sum_cons, BitVec.toNat_add, ih, map_cons, sum_cons, Nat.add_mod_mod]
    split <;> rfl

theorem received_toNat (transfers : List TransferInfo) (a : Address) :
    (received transfers a).toNat = receivedNat transfers a % 2 ^ 256 := toNat_sum_values _ transfers

theorem sent_toNat (transfers : List TransferInfo) (a : Address) :
    (sent transfers a).toNat = sentNat transfers a % 2 ^ 256 := toNat_sum_values _ transfers

variable {transfers : List TransferInfo} {S : Finset Address} {a : Address}

theorem flows_of_not_mem (outside : a ∉ parties transfers) :
    receivedNat transfers a = 0 ∧ sentNat transfers a = 0 := by
  induction transfers with
  | nil => exact ⟨rfl, rfl⟩
  | cons ti rest ih =>
    simp only [mem_parties_cons, not_or] at outside
    obtain ⟨restReceived, restSent⟩ := ih outside.2
    unfold receivedNat sentNat at *
    simp [restReceived, restSent, Ne.symm outside.1.1, Ne.symm outside.1.2]

theorem receivedNat_le_total (transfers : List TransferInfo) (a : Address) :
    receivedNat transfers a ≤ transferTotal transfers := by
  refine sum_le_sum fun ti _ => ?_
  split <;> omega

theorem sentNat_le_total (transfers : List TransferInfo) (a : Address) :
    sentNat transfers a ≤ transferTotal transfers := by
  refine sum_le_sum fun ti _ => ?_
  split <;> omega

theorem sum_flow {party : TransferInfo → Address} (cover : ∀ ti ∈ transfers, party ti ∈ S) :
    ∑ a ∈ S, (transfers.map fun ti => if party ti = a then ti.value.toNat else 0).sum =
      transferTotal transfers := by
  induction transfers with
  | nil => simp [transferTotal]
  | cons ti rest ih =>
    rw [forall_mem_cons] at cover
    simp only [map_cons, sum_cons, Finset.sum_add_distrib, Finset.sum_ite_eq, cover.1, if_true,
      ih cover.2, transferTotal]

theorem sum_receivedNat (cover : parties transfers ⊆ S) :
    ∑ a ∈ S, receivedNat transfers a = transferTotal transfers :=
  sum_flow fun ti member => cover (mem_toFinset.2 (mem_flatMap.2 ⟨ti, member, by simp⟩))

theorem sum_sentNat (cover : parties transfers ⊆ S) :
    ∑ a ∈ S, sentNat transfers a = transferTotal transfers :=
  sum_flow fun ti member => cover (mem_toFinset.2 (mem_flatMap.2 ⟨ti, member, by simp⟩))

namespace CondensingTX

variable (c : CondensingInput)

def spentValue (a : Address) : Nat :=
  ((selectionVin c).find? a).elim 0 fun v => if spends c a v then v.value.toNat else 0

theorem startValue_toNat (a : Address) :
    (startValue c (selectionVin c) a).toNat = spentValue c a := by
  unfold startValue spentValue
  cases (selectionVin c).find? a with
  | none => simp
  | some v =>
    by_cases zero : v.value = 0#256
    · simp [spends, zero]
    · have positive : 0#256 < v.value := (BitVec.pos_iff_ne_zero _).2 zero
      simp only [Option.getD_some, Option.elim_some, spends, positive, decide_true, Bool.true_and]
      split <;> rfl

def vinTotal : Nat := (selectionVin c).sumBy fun _ v => v.value.toNat

/-- The amounts of a condensing transaction stay in the monetary range. -/
structure InRange : Prop where
  vins : (vinTotal c : Int) ≤ maxMoney
  transfers : (transferTotal c.transfers : Int) ≤ maxMoney

variable {c}

theorem spentValue_le_sum (a : Address) :
    spentValue c a ≤ vinTotal c := by
  unfold spentValue
  cases found : (selectionVin c).find? a with
  | none => exact Nat.zero_le _
  | some v =>
    have member := ((selectionVin c).mem_entries_iff a v).2 found
    have part : v.value.toNat ≤ vinTotal c :=
      single_le_sum (fun _ _ => Nat.zero_le _) _
        (mem_map_of_mem (f := fun entry : Address × Vin => entry.2.value.toNat) member)
    simp only [Option.elim_some]
    split
    · exact part
    · exact Nat.zero_le _

theorem newBalance_exact (solvent : SolventAt c a)
    (fits : spentValue c a + transferTotal c.transfers < 2 ^ 256) :
    (newBalance c a).toNat + sentNat c.transfers a =
      spentValue c a + receivedNat c.transfers a := by
  have plus := receivedNat_le_total c.transfers a
  have minus := sentNat_le_total c.transfers a
  have plusWord : (received c.transfers a).toNat = receivedNat c.transfers a := by
    rw [received_toNat, Nat.mod_eq_of_lt (by omega)]
  have minusWord : (sent c.transfers a).toNat = sentNat c.transfers a := by
    rw [sent_toNat, Nat.mod_eq_of_lt (by omega)]
  have covered : (startValue c (selectionVin c) a + received c.transfers a).toNat =
      spentValue c a + receivedNat c.transfers a := by
    rw [BitVec.toNat_add, startValue_toNat, plusWord, Nat.mod_eq_of_lt (by omega)]
  have enough : sentNat c.transfers a ≤ spentValue c a + receivedNat c.transfers a := by
    have le := BitVec.le_def.1 solvent
    rwa [covered, minusWord] at le
  rw [newBalance, BitVec.toNat_sub_of_le solvent, covered, minusWord]
  omega

theorem solventAt_of_exact (fits : spentValue c a + transferTotal c.transfers < 2 ^ 256)
    (enough : sentNat c.transfers a ≤ spentValue c a + receivedNat c.transfers a) :
    SolventAt c a := by
  have plus := receivedNat_le_total c.transfers a
  have minus := sentNat_le_total c.transfers a
  rw [SolventAt, BitVec.le_def, BitVec.toNat_add, startValue_toNat, received_toNat, sent_toNat,
    Nat.mod_eq_of_lt (by omega : receivedNat c.transfers a < 2 ^ 256),
    Nat.mod_eq_of_lt (by omega : sentNat c.transfers a < 2 ^ 256), Nat.mod_eq_of_lt (by omega)]
  exact enough

theorem newBalance_toNat (range : InRange c) (solvent : SolventAt c a) :
    (newBalance c a).toNat + sentNat c.transfers a =
        spentValue c a + receivedNat c.transfers a ∧
      (newBalance c a).toNat < 2 ^ 63 := by
  have money : maxMoney = 2100000025000000 := by decide
  have vins := range.vins
  have transfers := range.transfers
  rw [money] at vins transfers
  have start := spentValue_le_sum (c := c) a
  have plus := receivedNat_le_total c.transfers a
  have exact := newBalance_exact solvent (by omega)
  omega

theorem sum_newBalance (exact : ∀ a ∈ parties c.transfers,
      (newBalance c a).toNat + sentNat c.transfers a =
        spentValue c a + receivedNat c.transfers a) :
    ∑ a ∈ parties c.transfers, (newBalance c a).toNat =
      ∑ a ∈ parties c.transfers, spentValue c a := by
  have flows : ∑ a ∈ parties c.transfers, receivedNat c.transfers a =
      ∑ a ∈ parties c.transfers, sentNat c.transfers a := by
    rw [sum_receivedNat (Finset.Subset.refl _), sum_sentNat (Finset.Subset.refl _)]
  have sums := Finset.sum_congr rfl exact
  rw [Finset.sum_add_distrib, Finset.sum_add_distrib, flows] at sums
  exact Nat.add_right_cancel sums

theorem sum_map_filter {α : Type} (items : List α) (test : α → Bool) (f : α → Int) :
    ((items.filter test).map f).sum = (items.map fun item => if test item then f item else 0).sum := by
  induction items with
  | nil => rfl
  | cons item rest ih =>
    cases passes : test item <;> simp [passes, ih]

theorem sum_spentVins (c : CondensingInput) :
    ((spentVins c).map fun entry => (entry.2.value.toNat : Int)).sum =
      ∑ a ∈ parties c.transfers, (spentValue c a : Int) := by
  rw [spentVins, sum_map_filter]
  change (newBalances c).2.1.sumBy (fun a v => if spends c a v then (v.value.toNat : Int) else 0) = _
  rw [sumBy_eq_sum _ _ (parties c.transfers) fun a found => newBalances_vin_isSome c found]
  refine Finset.sum_congr rfl fun a _ => ?_
  have elim (found : Option Vin) :
      found.elim (0 : Int) (fun v => if spends c a v then (v.value.toNat : Int) else 0) =
        if spends c a (found.getD {}) then ((found.getD {}).value.toNat : Int) else 0 := by
    cases found with
    | none => simp
    | some v => rfl
  have spent : (spentValue c a : Int) = ((selectionVin c).find? a).elim (0 : Int)
      (fun v => if spends c a v then (v.value.toNat : Int) else 0) := by
    unfold spentValue
    cases (selectionVin c).find? a with
    | none => rfl
    | some v =>
      simp only [Option.elim_some]
      split <;> simp
  rw [spent, elim, elim, newBalances_vin_getD c a]

section

variable (range : InRange c) (solvent : Solvent c)
include range solvent

theorem sum_payments :
    (((payees (newBalances c).2.2.entries).map (payment c)).map CTxOut.nValue).sum =
      ∑ a ∈ parties c.transfers, ((newBalance c a).toNat : Int) := by
  have found (a : Address) (party : a ∈ parties c.transfers) :
      (newBalances c).2.2.find? a = some (newBalance c a) :=
    (newBalances_find? c a _).2 ⟨(solvent.reached_iff a).2 party, rfl⟩
  have amounts : ((payees (newBalances c).2.2.entries).map (payment c)).map CTxOut.nValue =
      (payees (newBalances c).2.2.entries).map fun e => (e.2.toNat : Int) := by
    rw [map_map]
    refine map_congr_left fun e paid => ?_
    obtain ⟨⟨reached, value⟩, _⟩ := (mem_payees c e.1 e.2).1 paid
    refine c.amounts.direct_exact e.2 ?_
    rw [value]
    exact (newBalance_toNat range (solvent e.1 reached.1)).2
  rw [amounts, payees, sum_map_filter]
  have zero : (fun e : Address × U256 => if decide (0#256 < e.2) then (e.2.toNat : Int) else 0) =
      fun e => (e.2.toNat : Int) := by
    funext e
    by_cases positive : 0#256 < e.2
    · simp [positive]
    · have : e.2 = 0#256 := by simpa [BitVec.pos_iff_ne_zero] using positive
      simp [this]
  rw [zero]
  change (newBalances c).2.2.sumBy (fun _ b => (b.toNat : Int)) = _
  rw [sumBy_eq_sum _ _ (parties c.transfers)]
  · exact Finset.sum_congr rfl fun a party => by rw [found a party]; rfl
  · intro a present
    obtain ⟨b, lookup⟩ := Option.isSome_iff_exists.1 present
    exact ((newBalances_find? c a b).1 lookup).1.1

theorem payments_eq_spent :
    (((payees (newBalances c).2.2.entries).map (payment c)).map CTxOut.nValue).sum =
      ((spentVins c).map fun entry => (entry.2.value.toNat : Int)).sum := by
  have sums := sum_newBalance fun a party => (newBalance_toNat range (solvent a party)).1
  rw [sum_payments range solvent, sum_spentVins]
  exact_mod_cast sums

/-- Within the range the empty transaction is only returned when there is nothing to spend and
nothing to pay. -/
theorem createCondensingTX_lists (fits : (createCondensingTX c).1.voutOverflow = false) :
    (createCondensingTX c).2.vin = (spentVins c).map spendInput ∧
      (createCondensingTX c).2.vout = (payees (newBalances c).2.2.entries).map (payment c) := by
  obtain ⟨_, tx, _⟩ := createCondensingTX_of_solvent c solvent fits
  have total := payments_eq_spent range solvent
  have positiveSpent : ∀ x ∈ (spentVins c).map fun entry => (entry.2.value.toNat : Int), 0 < x := by
    intro x member
    obtain ⟨⟨a, v⟩, spent, rfl⟩ := mem_map.1 member
    have test := ((mem_spentVins_iff c a v).1 spent).2
    simp only [spends, Bool.and_eq_true, decide_eq_true_eq] at test
    have := BitVec.lt_def.1 test.1
    exact_mod_cast this
  have positivePaid : ∀ x ∈ ((payees (newBalances c).2.2.entries).map (payment c)).map
      CTxOut.nValue, 0 < x := by
    intro x member
    obtain ⟨out, isPayment, rfl⟩ := mem_map.1 member
    obtain ⟨e, paid, rfl⟩ := mem_map.1 isPayment
    obtain ⟨⟨reached, value⟩, positive⟩ := (mem_payees c e.1 e.2).1 paid
    have fitsAmount := (newBalance_toNat range (solvent e.1 reached.1)).2
    change 0 < c.amounts.direct e.2
    rw [c.amounts.direct_exact e.2 (value ▸ fitsAmount)]
    have := BitVec.lt_def.1 positive
    exact_mod_cast this
  have both : (spentVins c = [] ↔ payees (newBalances c).2.2.entries = []) := by
    constructor
    · intro none
      by_contra some
      have := sum_pos _ positivePaid (by simpa using some)
      rw [total, none] at this
      simp at this
    · intro none
      by_contra some
      have := sum_pos _ positiveSpent (by simpa using some)
      rw [← total, none] at this
      simp at this
  rw [tx]
  by_cases none : spentVins c = []
  · have nobody := both.1 none
    simp [none, nobody]
  · have somebody : payees (newBalances c).2.2.entries ≠ [] := fun empty => none (both.2 empty)
    simp [none, somebody]

end

def paysTo (a : Address) (out : CTxOut) : Bool :=
  out.scriptPubKey == noExecCall a || out.scriptPubKey == payToPubkeyHash a

def paidTo (tx : CTransaction) (a : Address) : CAmount :=
  ((tx.vout.filter (paysTo a)).map CTxOut.nValue).sum

theorem paysTo_payment (c : CondensingInput) (a : Address) (entry : Address × U256) :
    paysTo a (payment c entry) = decide (entry.1 = a) := by
  by_cases same : entry.1 = a
  · subst same
    simp only [paysTo, payment, payScript]
    split <;> simp
  · have contract : noExecCall entry.1 ≠ noExecCall a :=
      fun equal => same (noExecCall_injective equal)
    have hash : payToPubkeyHash entry.1 ≠ payToPubkeyHash a :=
      fun equal => same (payToPubkeyHash_injective equal)
    have mixed := noExecCall_ne_payToPubkeyHash entry.1 a
    have mixed' := noExecCall_ne_payToPubkeyHash a entry.1
    simp only [paysTo, payment, payScript, same, decide_false]
    split
    · simp [contract, mixed]
    · simp [hash, Ne.symm mixed']

theorem paid_of_nodup (c : CondensingInput) (a : Address) (entries : List (Address × U256))
    (nodup : (entries.map Prod.fst).Nodup) :
    (((entries.map (payment c)).filter (paysTo a)).map CTxOut.nValue).sum =
      (findEntries a entries).elim 0 c.amounts.direct := by
  induction entries with
  | nil => rfl
  | cons entry rest ih =>
    obtain ⟨key, b⟩ := entry
    simp only [map_cons, nodup_cons] at nodup
    rw [map_cons, filter_cons, paysTo_payment]
    by_cases same : key = a
    · subst same
      have others : findEntries key rest = none := by
        cases found : findEntries key rest with
        | none => rfl
        | some v =>
          have member := (findEntries_eq_some_iff nodup.2 key v).1 found
          exact absurd (mem_map_of_mem member) nodup.1
      simp [ih nodup.2, others, findEntries, payment]
    · simp [ih nodup.2, findEntries, same, Ne.symm same]

theorem paidTo_party (range : InRange c) (solvent : Solvent c)
    (fits : (createCondensingTX c).1.voutOverflow = false) (party : a ∈ parties c.transfers) :
    paidTo (createCondensingTX c).2 a = (newBalance c a).toNat := by
  have nodup : ((payees (newBalances c).2.2.entries).map Prod.fst).Nodup :=
    (newBalances c).2.2.keys_nodup.sublist (filter_sublist.map Prod.fst)
  rw [paidTo, (createCondensingTX_lists range solvent fits).2, paid_of_nodup c a _ nodup]
  by_cases positive : 0#256 < newBalance c a
  · have paid := (mem_payees c a _).2 ⟨⟨(solvent.reached_iff a).2 party, rfl⟩, positive⟩
    rw [(findEntries_eq_some_iff nodup _ _).2 paid]
    exact c.amounts.direct_exact _ (newBalance_toNat range (solvent a party)).2
  · have zero : newBalance c a = 0#256 := by simpa [BitVec.pos_iff_ne_zero] using positive
    have unpaid : findEntries a (payees (newBalances c).2.2.entries) = none := by
      cases found : findEntries a (payees (newBalances c).2.2.entries) with
      | none => rfl
      | some b =>
        have paid := (findEntries_eq_some_iff nodup _ _).1 found
        obtain ⟨⟨_, rfl⟩, paid⟩ := (mem_payees c a b).1 paid
        exact absurd paid positive
    rw [unpaid, zero]
    rfl

def DistinctVins (c : CondensingInput) : Prop :=
  ∀ a b v w, (selectionVin c).find? a = some v → (selectionVin c).find? b = some w →
    v.hash = w.hash → v.nVout = w.nVout → a = b

theorem spentVins_nodup (distinct : DistinctVins c) :
    (((spentVins c).map spendInput).map CTxIn.prevout).Nodup := by
  have keys : ((spentVins c).map Prod.fst).Nodup :=
    (newBalances c).2.1.keys_nodup.sublist (filter_sublist.map Prod.fst)
  rw [map_map]
  have entries : (spentVins c).Nodup := List.Nodup.of_map Prod.fst keys
  refine List.Nodup.map_on ?_ entries
  rintro ⟨a, v⟩ left ⟨b, w⟩ right same
  have leftSelected := ((mem_spentVins_iff c a v).1 left).1
  have rightSelected := ((mem_spentVins_iff c b w).1 right).1
  simp only [Function.comp_apply, spendInput, COutPoint.mk.injEq] at same
  have owner := distinct a b v w leftSelected rightSelected same.1 same.2
  subst owner
  rw [leftSelected, Option.some.injEq] at rightSelected
  rw [rightSelected]

/-- A condensing transaction in range, without overdrawn accounts and within the limit of outputs
spends exactly the selected outputs that pass the test of `createVins`, pays out their value, and
pays every party its spent output plus what it received less what it sent; none is spent twice when
distinct parties hold distinct outputs. -/
theorem createCondensingTX_conserves_value (c : CondensingInput) (range : InRange c)
    (solvent : (newBalances c).1 = true)
    (fits : (createCondensingTX c).1.voutOverflow = false) :
    (createCondensingTX c).2.vin = (spentVins c).map spendInput ∧
    (createCondensingTX c).2.valueOut =
      ((spentVins c).map fun entry => (entry.2.value.toNat : Int)).sum ∧
    (DistinctVins c → ((createCondensingTX c).2.vin.map CTxIn.prevout).Nodup) ∧
    ∀ a ∈ parties c.transfers, paidTo (createCondensingTX c).2 a =
      spentValue c a + receivedNat c.transfers a - sentNat c.transfers a := by
  have covered := (newBalances_ok_iff c).1 solvent
  obtain ⟨vin, vout⟩ := createCondensingTX_lists range covered fits
  refine ⟨vin, ?_, ?_, ?_⟩
  · rw [CTransaction.valueOut, vout, payments_eq_spent range covered]
  · intro distinct
    rw [vin]
    exact spentVins_nodup distinct
  · intro a party
    rw [paidTo_party range covered fits party]
    exact eq_sub_iff_add_eq.2 (by exact_mod_cast (newBalance_toNat range (covered a party)).1)

/-- Contract 1 sends one coin to contract 2 in a call without value, with the outputs of the two
contracts left open. -/
def oneTransfer (vin : Address → Option Vin) : CondensingInput where
  vin := vin
  live := fun _ => true
  transfers := [⟨1, 2, 1#256⟩]
  deleteAddresses := [9]
  transaction := { isCreation := false, value := 0#256, gasPrice := 1#256, gas := 1#256,
                   receiveAddress := 1, data := [], sender := 9 }
  amounts := .byValue

def separateVins : Address → Option Vin := fun a =>
  if a = 1 then some ⟨7, 0, 5#256, true⟩ else if a = 2 then some ⟨7, 1, 3#256, true⟩ else none

def sharedVins : Address → Option Vin := fun a =>
  if a = 1 then some ⟨7, 0, 5#256, true⟩ else if a = 2 then some ⟨7, 0, 5#256, true⟩ else none

theorem oneTransfer_distinct : DistinctVins (oneTransfer separateVins) := by
  have entries : (selectionVin (oneTransfer separateVins)).entries =
      [(1, ⟨7, 0, 5#256, true⟩), (2, ⟨7, 1, 3#256, true⟩)] := by decide
  intro a b v w left right _ index
  rw [← mem_entries_iff, entries] at left right
  simp only [mem_cons, Prod.mk.injEq, not_mem_nil, or_false] at left right
  rcases left with ⟨rfl, rfl⟩ | ⟨rfl, rfl⟩ <;> rcases right with ⟨rfl, rfl⟩ | ⟨rfl, rfl⟩ <;>
    first | rfl | exact absurd index (by decide)

/-- The example with separate outputs pays out eight coins, four of them to contract 2, and spends no
output twice. -/
theorem oneTransfer_conserves_value :
    (createCondensingTX (oneTransfer separateVins)).2.valueOut = 8 ∧
      paidTo (createCondensingTX (oneTransfer separateVins)).2 2 = 4 ∧
      ((createCondensingTX (oneTransfer separateVins)).2.vin.map CTxIn.prevout).Nodup := by
  obtain ⟨_, total, once, paid⟩ := createCondensingTX_conserves_value (oneTransfer separateVins)
    ⟨by decide, by decide⟩ (by decide) (by decide)
  exact ⟨total.trans (by decide), (paid 2 (by decide)).trans (by decide), once oneTransfer_distinct⟩

/-- Two contracts whose recorded outputs coincide: one output is spent twice, although every amount
is in range and nobody is overdrawn. -/
theorem shared_output_spent_twice :
    InRange (oneTransfer sharedVins) ∧ (newBalances (oneTransfer sharedVins)).1 = true ∧
      (createCondensingTX (oneTransfer sharedVins)).1.voutOverflow = false ∧
      ¬ ((createCondensingTX (oneTransfer sharedVins)).2.vin.map CTxIn.prevout).Nodup :=
  ⟨⟨by decide, by decide⟩, by decide, by decide, by decide⟩

end CondensingTX
end Artax
