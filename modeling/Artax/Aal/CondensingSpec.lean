import Artax.Aal.CondensingTX
import Mathlib.Tactic.Ring

/-!
# What a condensing transaction computes

Closed forms for the member functions of `CondensingTX`: totals received and sent per address,
balances reached before the first overdrawn account, and outputs with their indices.
-/

namespace Artax

open Util (OrderedMap)
open Util.OrderedMap Prod
open Option hiding or_assoc all_eq_true
open List hiding contains

def received (transfers : List TransferInfo) (a : Address) : U256 :=
  (transfers.map fun ti => if ti.target = a then ti.value else 0#256).sum

def sent (transfers : List TransferInfo) (a : Address) : U256 :=
  (transfers.map fun ti => if ti.source = a then ti.value else 0#256).sum

def parties (transfers : List TransferInfo) : Finset Address :=
  (transfers.flatMap fun ti => [ti.source, ti.target]).toFinset

@[simp] theorem parties_nil : parties [] = ∅ := rfl

variable (ti : TransferInfo)

@[simp] theorem mem_parties_cons (transfers : List TransferInfo) (a : Address) :
    a ∈ parties (ti :: transfers) ↔
      (a = ti.source ∨ a = ti.target) ∨ a ∈ parties transfers := by
  simp [parties, or_assoc]

theorem received_cons (rest : List TransferInfo) (a : Address) :
    received (ti :: rest) a = (if ti.target = a then ti.value else 0#256) + received rest a := rfl

theorem sent_cons (rest : List TransferInfo) (a : Address) :
    sent (ti :: rest) a = (if ti.source = a then ti.value else 0#256) + sent rest a := rfl

namespace CondensingTX

variable (c : CondensingInput)

def totals (info : OrderedMap Address (U256 × U256)) (a : Address) : U256 × U256 :=
  (info.find? a).getD (0#256, 0#256)

section

variable (info : OrderedMap Address (U256 × U256))
include info

theorem addMinus_find? (key a : Address) (value : U256) : (addMinus info key value).find? a =
      if a = key then some ((totals info key).1, (totals info key).2 + value)
      else info.find? a := by
  unfold addMinus totals
  cases info.find? key <;> simp

theorem addPlus_find? (key a : Address) (value : U256) : (addPlus info key value).find? a =
      if a = key then some ((totals info key).1 + value, (totals info key).2)
      else info.find? a := by
  unfold addPlus totals
  cases info.find? key <;> simp

theorem totals_addTransfer (a : Address) :
    totals (addTransfer info ti) a =
      ((totals info a).1 + (if ti.target = a then ti.value else 0#256),
        (totals info a).2 + (if ti.source = a then ti.value else 0#256)) := by
  have minus : totals (addMinus info ti.source ti.value) a =
      ((totals info a).1, (totals info a).2 + (if ti.source = a then ti.value else 0#256)) := by
    rw [totals, addMinus_find?]
    by_cases isSource : a = ti.source
    · subst isSource
      simp
    · simp [isSource, Ne.symm isSource, totals]
  rw [addTransfer, totals, addPlus_find?]
  by_cases isTarget : a = ti.target
  · subst isTarget
    simp [minus]
  · rw [if_neg isTarget, if_neg (Ne.symm isTarget)]
    simpa [totals] using minus

theorem addTransfer_isSome (a : Address) :
    ((addTransfer info ti).find? a).isSome ↔
      (info.find? a).isSome ∨ a = ti.source ∨ a = ti.target := by
  rw [addTransfer, addPlus_find?, addMinus_find?]
  by_cases isTarget : a = ti.target
  · simp [isTarget]
  · by_cases isSource : a = ti.source
    · rw [if_neg isTarget, if_pos isSource]
      simp [isSource]
    · simp [isTarget, isSource]

end

section

variable (transfers : List TransferInfo) (info : OrderedMap Address (U256 × U256)) (a : Address)

theorem totals_foldl :
    totals (transfers.foldl addTransfer info) a =
      ((totals info a).1 + received transfers a, (totals info a).2 + sent transfers a) := by
  induction transfers generalizing info with
  | nil => simp [received, sent]
  | cons ti rest ih =>
    rw [foldl_cons, ih, totals_addTransfer, received_cons, sent_cons, add_assoc, add_assoc]

theorem foldl_addTransfer_isSome :
    ((transfers.foldl addTransfer info).find? a).isSome ↔
      (info.find? a).isSome ∨ a ∈ parties transfers := by
  induction transfers generalizing info with
  | nil => simp
  | cons ti rest ih =>
    rw [foldl_cons, ih, addTransfer_isSome, mem_parties_cons, or_assoc]

end

theorem calculatePlusAndMinus_find? (a : Address) :
    (calculatePlusAndMinus c).find? a =
      if a ∈ parties c.transfers then some (received c.transfers a, sent c.transfers a)
      else none := by
  have total := totals_foldl c.transfers .empty a
  have present := foldl_addTransfer_isSome c.transfers .empty a
  rw [← calculatePlusAndMinus] at total present
  split
  · rename_i party
    obtain ⟨entry, found⟩ := isSome_iff_exists.1 (present.2 (Or.inr party))
    simp only [totals, found, getD_some, find?_empty, getD_none,
      BitVec.zero_add] at total
    rw [found, total]
  · rename_i outside
    refine not_isSome_iff_eq_none.1 (fun found => outside ?_)
    exact (present.1 found).resolve_left (by simp)

variable {a key : Address} {vins : OrderedMap Address Vin}

section

variable (other : a ≠ key) (vins : OrderedMap Address Vin)
include other

theorem loadVin_find?_of_ne : (loadVin c key vins).find? a = vins.find? a := by
  unfold loadVin
  split <;> simp [other]

theorem selectSource_find?_of_ne : (selectSource c vins key).find? a = vins.find? a := by
  unfold selectSource
  split
  · rfl
  · split <;> simp [other, loadVin_find?_of_ne c other]

theorem selectTarget_find?_of_ne : (selectTarget c vins key).find? a = vins.find? a := by
  unfold selectTarget
  split
  · rfl
  · exact loadVin_find?_of_ne c other vins

end

theorem selectVin_keeps {v : Vin} (found : vins.find? a = some v) (ti : TransferInfo) :
    (selectVin c vins ti).find? a = some v := by
  have present {m : OrderedMap Address Vin} (h : m.find? a = some v) : m.contains a := by
    simp [contains, h]
  have source : (selectSource c vins ti.source).find? a = some v := by
    by_cases same : a = ti.source
    · rw [selectSource, ← same, if_pos (present found)]
      exact found
    · rw [selectSource_find?_of_ne c same, found]
  by_cases same : a = ti.target
  · rw [selectVin, selectTarget, ← same, if_pos (present source)]
    exact source
  · rw [selectVin, selectTarget_find?_of_ne c same, source]

theorem selectVin_isSome {ti : TransferInfo} (found : ((selectVin c vins ti).find? a).isSome) :
    (vins.find? a).isSome ∨ a = ti.source ∨ a = ti.target := by
  by_cases isTarget : a = ti.target
  · exact Or.inr (Or.inr isTarget)
  · by_cases isSource : a = ti.source
    · exact Or.inr (Or.inl isSource)
    · rw [selectVin, selectTarget_find?_of_ne c isTarget,
        selectSource_find?_of_ne c isSource] at found
      exact Or.inl found

theorem selectionVin_isSome (found : ((selectionVin c).find? a).isSome) :
    a ∈ parties c.transfers := by
  suffices general : ∀ (transfers : List TransferInfo) (vins : OrderedMap Address Vin),
      ((transfers.foldl (selectVin c) vins).find? a).isSome →
      (vins.find? a).isSome ∨ a ∈ parties transfers by
    simpa using general c.transfers .empty found
  intro transfers
  induction transfers with
  | nil => intro vins present; exact Or.inl present
  | cons ti rest ih =>
    intro vins present
    rw [mem_parties_cons]
    rcases ih (selectVin c vins ti) present with here | later
    · exact (selectVin_isSome c here).imp id Or.inl
    · exact Or.inr (Or.inr later)

theorem loadVin_find?_self (fresh : vins.find? a = none ∨ vins.find? a = c.vin a) :
    (loadVin c a vins).find? a = c.vin a := by
  unfold loadVin
  cases found : c.vin a with
  | some v => simp
  | none => simpa [found] using fresh

theorem selectTarget_find?_self (fresh : vins.find? a = none ∨ vins.find? a = c.vin a) :
    (selectTarget c vins a).find? a = c.vin a := by
  unfold selectTarget
  split
  · rename_i present
    exact fresh.resolve_left fun absent => by simp [contains, absent] at present
  · exact loadVin_find?_self c fresh

section

variable (other : ¬(a = c.transaction.sender ∧ 0#256 < c.transaction.value))
include other

theorem selectSource_find?_self (fresh : vins.find? a = none ∨ vins.find? a = c.vin a) :
    (selectSource c vins a).find? a = c.vin a := by
  unfold selectSource
  rw [if_neg other]
  exact selectTarget_find?_self c fresh

theorem selectVin_find? (fresh : vins.find? a = none ∨ vins.find? a = c.vin a) (ti : TransferInfo) :
    (selectVin c vins ti).find? a =
      if a = ti.source ∨ a = ti.target then c.vin a else vins.find? a := by
  have source : (selectSource c vins ti.source).find? a =
      if a = ti.source then c.vin a else vins.find? a := by
    split
    · rename_i same
      rw [← same, selectSource_find?_self c other fresh]
    · rename_i notSource
      exact selectSource_find?_of_ne c notSource vins
  by_cases isTarget : a = ti.target
  · have fresh' : (selectSource c vins ti.source).find? a = none ∨
        (selectSource c vins ti.source).find? a = c.vin a := by
      rw [source]
      split
      · exact Or.inr rfl
      · exact fresh
    rw [selectVin, ← isTarget, selectTarget_find?_self c fresh', if_pos (Or.inr rfl)]
  · rw [selectVin, selectTarget_find?_of_ne c isTarget, source]
    simp only [isTarget, or_false]

theorem selectionVin_find? (party : a ∈ parties c.transfers) :
    (selectionVin c).find? a = c.vin a := by
  suffices general : ∀ (transfers : List TransferInfo) (vins : OrderedMap Address Vin),
      (vins.find? a = none ∨ vins.find? a = c.vin a) →
      (transfers.foldl (selectVin c) vins).find? a =
        if a ∈ parties transfers then c.vin a else vins.find? a by
    have all := general c.transfers .empty (Or.inl rfl)
    rwa [if_pos party] at all
  intro transfers
  induction transfers with
  | nil => intro vins _; simp
  | cons ti rest ih =>
    intro vins fresh
    have step := selectVin_find? c other fresh ti
    rw [foldl_cons, ih]
    · rw [step]
      by_cases here : a = ti.source ∨ a = ti.target
      · simp [here]
      · simp [here]
    · rw [step]
      split
      · exact Or.inr rfl
      · exact fresh

end

theorem selectionVin_sender {first : TransferInfo} {rest : List TransferInfo}
    (head : c.transfers = first :: rest) (pays : first.source = c.transaction.sender)
    (positive : 0#256 < c.transaction.value) :
    (selectionVin c).find? c.transaction.sender = some (ownVin c) := by
  have source : (selectSource c .empty first.source).find? c.transaction.sender =
      some (ownVin c) := by
    rw [pays, selectSource]
    simp [contains, positive]
  have start : (selectVin c .empty first).find? c.transaction.sender = some (ownVin c) := by
    rw [selectVin, selectTarget]
    by_cases isTarget : first.target = c.transaction.sender
    · simp [isTarget, contains, source]
    · split
      · exact source
      · rw [loadVin_find?_of_ne c (Ne.symm isTarget), source]
  suffices general : ∀ (transfers : List TransferInfo) (vins : OrderedMap Address Vin),
      vins.find? c.transaction.sender = some (ownVin c) →
      (transfers.foldl (selectVin c) vins).find? c.transaction.sender = some (ownVin c) by
    rw [selectionVin, head]
    exact general rest _ start
  intro transfers
  induction transfers with
  | nil => exact fun _ found => found
  | cons ti rest ih => exact fun vins found => ih _ (selectVin_keeps c found ti)

/-- The value an account's balance starts from: its selected output, unless that output is dead
and the address is to be deleted. -/
def startValue (vins : OrderedMap Address Vin) (a : Address) : U256 :=
  let v := (vins.find? a).getD {}
  if v.alive || !checkDeleteAddress c a then v.value else 0#256

def entrySolvent (vins : OrderedMap Address Vin) (entry : Address × U256 × U256) : Bool :=
  !decide (startValue c vins entry.1 + entry.2.1 < entry.2.2)

def entryBalance (vins : OrderedMap Address Vin) (entry : Address × U256 × U256) : U256 :=
  startValue c vins entry.1 + entry.2.1 - entry.2.2

theorem startValue_congr {left right : OrderedMap Address Vin}
    (same : ∀ a, (left.find? a).getD {} = (right.find? a).getD {}) :
    startValue c left = startValue c right := by
  funext a
  simp only [startValue, same a]

theorem startValue_eq (vins : OrderedMap Address Vin) (a : Address) :
    (if (vins.contains a && ((vins.find? a).getD {}).alive) ||
        (!((vins.find? a).getD {}).alive && !checkDeleteAddress c a)
      then ((vins.find? a).getD {}).value else 0#256) = startValue c vins a := by
  cases found : vins.find? a with
  | none =>
    have absent : vins.contains a = false := by simp [contains, found]
    simp [startValue, absent, found]
  | some v =>
    have present : vins.contains a := by simp [contains, found]
    cases alive : v.alive <;> simp [startValue, present, found, alive]

/-- `createNewBalances` processes the accounts up to the first overdrawn one and changes the
selection only by default entries. -/
theorem createNewBalances_eq (entries : List (Address × U256 × U256))
    (vins : OrderedMap Address Vin) (balances : OrderedMap Address U256) :
    (createNewBalances c entries vins balances).1 = entries.all (entrySolvent c vins) ∧
    (createNewBalances c entries vins balances).2.2 =
      (entries.takeWhile (entrySolvent c vins)).foldl
        (fun m entry => m.insert entry.1 (entryBalance c vins entry)) balances ∧
    (∀ k, ((createNewBalances c entries vins balances).2.1.find? k).getD {} =
      (vins.find? k).getD {}) ∧
    (∀ k, ((createNewBalances c entries vins balances).2.1.find? k).isSome →
      (vins.find? k).isSome ∨ k ∈ entries.map fst) := by
  induction entries generalizing vins balances with
  | nil => exact ⟨rfl, rfl, fun _ => rfl, fun _ present => Or.inl present⟩
  | cons entry rest ih =>
    obtain ⟨a, plus, minus⟩ := entry
    let filled := if vins.contains a then vins else vins.insert a {}
    have default (k : Address) : (filled.find? k).getD {} = (vins.find? k).getD {} := by
      by_cases found : vins.contains a = true
      · simp only [filled, if_pos found]
      · have absent : vins.find? a = none := by
          simpa [contains] using found
        simp only [filled, if_neg found, find?_insert]
        by_cases same : k = a
        · simp [same, absent]
        · simp [same]
    have present (k : Address) (found : (filled.find? k).isSome) :
        (vins.find? k).isSome ∨ k = a := by
      by_cases here : vins.contains a = true
      · simp only [filled, if_pos here] at found
        exact Or.inl found
      · simp only [filled, if_neg here, find?_insert] at found
        by_cases same : k = a
        · exact Or.inr same
        · exact Or.inl (by simpa [same] using found)
    have start := startValue_congr c default
    have solvent : entrySolvent c filled = entrySolvent c vins := by
      funext entry
      simp only [entrySolvent, start]
    have balance : entryBalance c filled = entryBalance c vins := by
      funext entry
      simp only [entryBalance, start]
    by_cases overdrawn : startValue c vins a + plus < minus
    · have stops : createNewBalances c ((a, plus, minus) :: rest) vins balances =
          (false, filled, balances) := by
        simp only [createNewBalances, startValue_eq, if_pos overdrawn, filled]
      have bad : entrySolvent c vins (a, plus, minus) = false := by
        simp [entrySolvent, overdrawn]
      rw [stops]
      refine ⟨by simp [bad], by simp [bad], default, ?_⟩
      intro k found
      exact (present k found).imp id (fun same => by simp [same])
    · have continues : createNewBalances c ((a, plus, minus) :: rest) vins balances =
          createNewBalances c rest filled
            (balances.insert a (entryBalance c vins (a, plus, minus))) := by
        simp only [createNewBalances, startValue_eq, if_neg overdrawn, filled, entryBalance]
      have good : entrySolvent c vins (a, plus, minus) := by
        simp [entrySolvent, overdrawn]
      obtain ⟨ok, found, values, keys⟩ :=
        ih filled (balances.insert a (entryBalance c vins (a, plus, minus)))
      rw [solvent] at ok found
      rw [balance] at found
      rw [continues]
      refine ⟨by simp [ok, good], by simp [found, good], fun k => (values k).trans (default k), ?_⟩
      intro k isKey
      rcases keys k isKey with here | later
      · exact (present k here).imp id (fun same => by simp [same])
      · exact Or.inr (by simp only [map_cons]; exact mem_cons_of_mem _ later)

def payees (balances : List (Address × U256)) : List (Address × U256) :=
  balances.filter fun entry => decide (0#256 < entry.2)

def payment (entry : Address × U256) : CTxOut := ⟨c.amounts.direct entry.2, payScript c entry.1⟩

/-- Without overflow `createVout` pays every positive balance, in order, and records for each the
index of its output. -/
theorem createVout_eq (entries : List (Address × U256)) (count : Nat) (outs : List CTxOut)
    (nVouts : OrderedMap Address UInt32) (nodup : (entries.map fst).Nodup)
    (fits : (createVout c entries count outs nVouts).2.2 = false) :
    (createVout c entries count outs nVouts).1 = outs ++ (payees entries).map (payment c) ∧
    (∀ i entry, (payees entries)[i]? = some entry →
      (createVout c entries count outs nVouts).2.1.find? entry.1 =
        some (UInt32.ofNat (count + i)) ∧ count + i < maxContractVouts) ∧
    (∀ k, k ∉ (payees entries).map fst →
      (createVout c entries count outs nVouts).2.1.find? k = nVouts.find? k) := by
  induction entries generalizing count outs nVouts with
  | nil => simp [createVout, payees]
  | cons entry rest ih =>
    obtain ⟨a, b⟩ := entry
    simp only [map_cons, nodup_cons] at nodup
    obtain ⟨fresh, restNodup⟩ := nodup
    by_cases positive : 0#256 < b
    · have paid : payees ((a, b) :: rest) = (a, b) :: payees rest := by simp [payees, positive]
      by_cases full : maxContractVouts < count + 1
      · simp [createVout, positive, full] at fits
      · have step : createVout c ((a, b) :: rest) count outs nVouts =
            createVout c rest (count + 1) (outs ++ [payment c (a, b)])
              (nVouts.insert a (UInt32.ofNat count)) := by
          simp [createVout, positive, full, payment]
        rw [step] at fits ⊢
        obtain ⟨outputs, indices, others⟩ := ih _ _ _ restNodup fits
        have absent : a ∉ (payees rest).map fst := fun member =>
          fresh (map_subset _ (filter_subset_self rest) member)
        refine ⟨by simp [outputs, paid], ?_, ?_⟩
        · intro i found here
          rw [paid] at here
          cases i with
          | zero =>
            simp only [length_cons, Nat.zero_lt_succ, getElem?_pos, getElem_cons_zero,
              some.injEq] at here
            subst here
            rw [others a absent]
            simp only [find?_insert, if_true, Nat.add_zero, true_and]
            omega
          | succ i =>
            obtain ⟨index, bound⟩ := indices i found (by simpa using here)
            rw [index, Nat.add_right_comm, Nat.add_assoc]
            exact ⟨rfl, by omega⟩
        · intro k outside
          rw [paid] at outside
          simp only [map_cons, mem_cons, not_or] at outside
          rw [others k outside.2, find?_insert, if_neg outside.1]
    · have paid : payees ((a, b) :: rest) = payees rest := by simp [payees, positive]
      by_cases full : maxContractVouts < count
      · simp [createVout, positive, full] at fits
      · have step : createVout c ((a, b) :: rest) count outs nVouts =
            createVout c rest count outs nVouts := by
          simp [createVout, positive, full]
        rw [step] at fits ⊢
        rw [paid]
        exact ih _ _ _ restNodup fits

def newBalance (a : Address) : U256 :=
  startValue c (selectionVin c) a + received c.transfers a - sent c.transfers a

/-- A party can cover what it sent from its output and what it received. -/
def SolventAt (a : Address) : Prop :=
  sent c.transfers a ≤ startValue c (selectionVin c) a + received c.transfers a

def Solvent : Prop := ∀ a ∈ parties c.transfers, SolventAt c a

/-- `createNewBalances` gets to an address: no party up to it in address order is overdrawn. -/
def Reached (a : Address) : Prop :=
  a ∈ parties c.transfers ∧ ∀ other ∈ parties c.transfers, other ≤ a → SolventAt c other

def newBalances : Bool × OrderedMap Address Vin × OrderedMap Address U256 :=
  createNewBalances c (calculatePlusAndMinus c).entries (selectionVin c) .empty

theorem mem_plusMinus_iff (entry : Address × U256 × U256) :
    entry ∈ (calculatePlusAndMinus c).entries ↔ entry.1 ∈ parties c.transfers ∧
      entry.2 = (received c.transfers entry.1, sent c.transfers entry.1) := by
  obtain ⟨a, flows⟩ := entry
  rw [mem_entries_iff, calculatePlusAndMinus_find?]
  by_cases party : a ∈ parties c.transfers
  · simp [party, eq_comm]
  · simp [party]

theorem entrySolvent_iff {entry : Address × U256 × U256}
    (member : entry ∈ (calculatePlusAndMinus c).entries) :
    entrySolvent c (selectionVin c) entry ↔ SolventAt c entry.1 := by
  obtain ⟨_, flows⟩ := (mem_plusMinus_iff c entry).1 member
  simp only [entrySolvent, flows, SolventAt, Bool.not_eq_true', decide_eq_false_iff_not]
  exact BitVec.not_lt

theorem newBalances_ok_iff : (newBalances c).1 ↔ Solvent c := by
  rw [newBalances, (createNewBalances_eq c _ _ _).1, all_eq_true]
  constructor
  · intro all a party
    have member := (mem_plusMinus_iff c (a, received c.transfers a, sent c.transfers a)).2
      ⟨party, rfl⟩
    exact (entrySolvent_iff c member).1 (all _ member)
  · intro solvent entry member
    exact (entrySolvent_iff c member).2 (solvent _ ((mem_plusMinus_iff c entry).1 member).1)

theorem mem_processed_iff (entry : Address × U256 × U256) :
    entry ∈ (calculatePlusAndMinus c).entries.takeWhile (entrySolvent c (selectionVin c)) ↔
      Reached c entry.1 ∧ entry.2 = (received c.transfers entry.1, sent c.transfers entry.1) := by
  rw [mem_takeWhile_iff]
  constructor
  · rintro ⟨member, below⟩
    obtain ⟨party, flows⟩ := (mem_plusMinus_iff c entry).1 member
    refine ⟨⟨party, ?_⟩, flows⟩
    intro other otherParty ordered
    have otherMember := (mem_plusMinus_iff c
      (other, received c.transfers other, sent c.transfers other)).2 ⟨otherParty, rfl⟩
    exact (entrySolvent_iff c otherMember).1 (below _ otherMember ordered)
  · rintro ⟨⟨party, below⟩, flows⟩
    refine ⟨(mem_plusMinus_iff c entry).2 ⟨party, flows⟩, ?_⟩
    intro other member ordered
    obtain ⟨otherParty, _⟩ := (mem_plusMinus_iff c other).1 member
    exact (entrySolvent_iff c member).2 (below other.1 otherParty ordered)

theorem newBalances_find? (a : Address) (b : U256) :
    (newBalances c).2.2.find? a = some b ↔ Reached c a ∧ b = newBalance c a := by
  rw [newBalances, (createNewBalances_eq c _ _ _).2.1]
  have nodup : (((calculatePlusAndMinus c).entries.takeWhile
      (entrySolvent c (selectionVin c))).map fst).Nodup :=
    (calculatePlusAndMinus c).keys_nodup.sublist
      ((takeWhile_sublist _).map fst)
  by_cases reached : Reached c a
  · have member := (mem_processed_iff c (a, received c.transfers a, sent c.transfers a)).2
      ⟨reached, rfl⟩
    rw [find?_foldl_insert_of_mem fst (entryBalance c (selectionVin c)) _ nodup
      .empty member]
    simp [reached, entryBalance, newBalance, eq_comm]
  · have outside : a ∉ ((calculatePlusAndMinus c).entries.takeWhile
        (entrySolvent c (selectionVin c))).map fst := by
      intro member
      obtain ⟨entry, processed, rfl⟩ := mem_map.1 member
      exact reached ((mem_processed_iff c entry).1 processed).1
    rw [find?_foldl_insert_of_not_mem fst (entryBalance c (selectionVin c)) _
      .empty a outside]
    simp [reached]

theorem mem_newBalances (a : Address) (b : U256) :
    (a, b) ∈ (newBalances c).2.2.entries ↔ Reached c a ∧ b = newBalance c a := by
  rw [OrderedMap.mem_entries_iff, newBalances_find?]

theorem mem_payees (a : Address) (b : U256) : (a, b) ∈ payees (newBalances c).2.2.entries ↔
    (Reached c a ∧ b = newBalance c a) ∧ 0#256 < b := by
  rw [payees, mem_filter, mem_newBalances, decide_eq_true_eq]

theorem Solvent.reached_iff {c : CondensingInput} (solvent : Solvent c) (a : Address) :
    Reached c a ↔ a ∈ parties c.transfers :=
  ⟨And.left, fun party => ⟨party, fun other member _ => solvent other member⟩⟩

theorem newBalances_vin_getD (a : Address) :
    ((newBalances c).2.1.find? a).getD {} = ((selectionVin c).find? a).getD {} :=
  (createNewBalances_eq c (calculatePlusAndMinus c).entries (selectionVin c) .empty).2.2.1 a

theorem newBalances_vin_isSome (found : ((newBalances c).2.1.find? a).isSome) :
    a ∈ parties c.transfers := by
  rcases (createNewBalances_eq c (calculatePlusAndMinus c).entries (selectionVin c) .empty).2.2.2
    a found with selected | key
  · exact selectionVin_isSome c selected
  · obtain ⟨entry, member, rfl⟩ := mem_map.1 key
    exact ((mem_plusMinus_iff c entry).1 member).1

def spentVins : List (Address × Vin) :=
  (newBalances c).2.1.entries.filter fun entry => spends c entry.1 entry.2

theorem mem_spentVins_iff (a : Address) (v : Vin) :
    (a, v) ∈ spentVins c ↔ (selectionVin c).find? a = some v ∧ spends c a v := by
  have same := newBalances_vin_getD c a
  rw [spentVins, mem_filter, mem_entries_iff]
  constructor
  · rintro ⟨found, spent⟩
    rw [found, getD_some] at same
    cases selected : (selectionVin c).find? a with
    | none =>
      rw [selected, getD_none] at same
      rw [same] at spent
      simp [spends] at spent
    | some w =>
      rw [selected, getD_some] at same
      exact ⟨by rw [same], spent⟩
  · rintro ⟨selected, spent⟩
    rw [selected, getD_some] at same
    cases found : (newBalances c).2.1.find? a with
    | none =>
      rw [found, getD_none] at same
      rw [← same] at spent
      simp [spends] at spent
    | some w =>
      rw [found, getD_some] at same
      exact ⟨by rw [same], spent⟩

theorem createCondensingTX_of_not_solvent (overdrawn : ¬ Solvent c) :
    (createCondensingTX c).2 = {} ∧ (createCondensingTX c).1.balances = (newBalances c).2.2 ∧
      (createCondensingTX c).1.nVouts = .empty ∧ (createCondensingTX c).1.voutOverflow = false := by
  have failed : (newBalances c).1 = false := by
    simpa using (not_congr (newBalances_ok_iff c)).2 overdrawn
  have unfolded : createCondensingTX c =
      ({ plusMinusInfo := calculatePlusAndMinus c, balances := (newBalances c).2.2,
         vins := (newBalances c).2.1 }, {}) := by
    rw [createCondensingTX, ← newBalances]
    simp [failed]
  rw [unfolded]
  exact ⟨rfl, rfl, rfl, rfl⟩

def spendInput (entry : Address × Vin) : CTxIn :=
  { prevout := ⟨entry.2.hash, entry.2.nVout⟩, scriptSig := CScript.opSpend }

theorem createCondensingTX_of_solvent (solvent : Solvent c)
    (fits : (createCondensingTX c).1.voutOverflow = false) :
    let balances := (newBalances c).2.2
    (createCondensingTX c).1.balances = balances ∧
    (createCondensingTX c).2 =
      (if (spentVins c).isEmpty || (payees balances.entries).isEmpty then {}
        else { vin := (spentVins c).map spendInput,
               vout := (payees balances.entries).map (payment c) }) ∧
    ∀ i entry, (payees balances.entries)[i]? = some entry →
      (createCondensingTX c).1.nVouts.find? entry.1 = some (UInt32.ofNat i) ∧
        i < maxContractVouts := by
  have ok : (newBalances c).1 := (newBalances_ok_iff c).2 solvent
  intro balances
  let made := createVout c balances.entries 0 [] .empty
  have unfolded : createCondensingTX c =
      ({ plusMinusInfo := calculatePlusAndMinus c, balances, nVouts := made.2.1,
         vins := (newBalances c).2.1, voutOverflow := made.2.2 },
        if ((spentVins c).map spendInput).isEmpty || made.1.isEmpty then {}
        else { vin := (spentVins c).map spendInput, vout := made.1 }) := by
    rw [createCondensingTX, ← newBalances]
    simp only [ok, Bool.not_true, Bool.false_eq_true, if_false]
    rfl
  rw [unfolded] at fits ⊢
  obtain ⟨outputs, indices, _⟩ := createVout_eq c balances.entries 0 [] .empty
    balances.keys_nodup fits
  refine ⟨rfl, ?_, ?_⟩
  · change (if ((spentVins c).map spendInput).isEmpty || made.1.isEmpty then _ else _) = _
    simp only [made, outputs, nil_append, isEmpty_map]
  · intro i entry found
    simpa [made] using indices i entry found

end CondensingTX
end Artax
