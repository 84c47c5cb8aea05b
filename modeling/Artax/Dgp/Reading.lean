import Artax.Dgp.ArtaxDGP

/-!
# What is read against what is published

A template publishes a number of 256 bits, or 39 numbers. The readers cut activation heights to 32
bits and numbers to 64 or 32 bits before they look at limits. The gas schedule is read from five
slots of eight lanes or from the words of a getter.
-/

namespace Artax

open EVMSchedule List UInt32 Function
open Option hiding map_map all_eq_true

inductive Scalar where
  | blockSize | minGasPrice | blockGasLimit
  deriving DecidableEq, Repr

namespace Scalar

def contract : Scalar → DgpContract
  | blockSize => .blockSize
  | minGasPrice => .gasPrice
  | blockGasLimit => .blockGasLimit

def width : Scalar → Nat
  | blockSize => 32
  | minGasPrice => 64
  | blockGasLimit => 64

def least : Scalar → Nat
  | blockSize => minBlockSizeDGP.toNat
  | minGasPrice => minMinGasPriceDGP.toNat
  | blockGasLimit => minBlockGasLimitDGP.toNat

def greatest : Scalar → Nat
  | blockSize => maxBlockSizeDGP.toNat
  | minGasPrice => maxMinGasPriceDGP.toNat
  | blockGasLimit => maxBlockGasLimitDGP.toNat

def fallback : Scalar → Nat
  | blockSize => defaultBlockSizeDGP.toNat
  | minGasPrice => defaultMinGasPriceDGP.toNat
  | blockGasLimit => defaultBlockGasLimitDGP.toNat

variable (scalar : Scalar)

def within (value : Nat) : Nat :=
  if scalar.least ≤ value ∧ value ≤ scalar.greatest then value else scalar.fallback

/-- The value is within the limits or below, or its low bits stand for the default. -/
def Kept (value : Nat) : Prop :=
  value ≤ scalar.greatest ∨ scalar.within (value % 2 ^ scalar.width) = scalar.fallback

theorem greatest_lt : scalar.greatest < 2 ^ scalar.width := by
  cases scalar <;> decide

theorem within_zero : scalar.within 0 = scalar.fallback := by
  cases scalar <;> decide

theorem within_mod_iff (value : Nat) :
    scalar.within (value % 2 ^ scalar.width) = scalar.within value ↔ scalar.Kept value := by
  unfold Kept
  by_cases small : value ≤ scalar.greatest
  · rw [Nat.mod_eq_of_lt (small.trans_lt scalar.greatest_lt)]
    simp [small]
  · have outside : scalar.within value = scalar.fallback := if_neg fun inside => small inside.2
    simp [small, outside]

end Scalar

namespace ArtaxDGP

variable (dgp : ArtaxDGP)

def getScalar : Scalar → Nat → Option Nat
  | .blockSize, blockHeight => (dgp.getBlockSize blockHeight).map UInt32.toNat
  | .minGasPrice, blockHeight => (dgp.getMinGasPrice blockHeight).map UInt64.toNat
  | .blockGasLimit, blockHeight => (dgp.getBlockGasLimit blockHeight).map UInt64.toNat

def listedFrom (addr : Address) : Nat → U256 → List (U256 × U256)
  | 0, _ => []
  | size + 1, slot =>
    (dgp.state.storage addr slot, dgp.state.storage addr (slot + 1#256)) ::
      listedFrom addr size (slot + 2#256)

def listed (scalar : Scalar) : List (U256 × U256) :=
  dgp.listedFrom scalar.contract.address
    (dgp.state.storage scalar.contract.address 0#256).toNat dgp.paramsInstanceSlot

def publishedValue (scalar : Scalar) (template : Address) : Option Nat :=
  if dgp.dgpevm then
    ((dgp.callContract template scalar.contract.selector).filter (·.length == 32)).map ofBigEndian
  else (dgp.storageEntry template 0#256).map BitVec.toNat

def lastActive (active : U256 → Bool) (scalar : Scalar) : Option Address :=
  ((dgp.listed scalar).reverse.find? fun i => active i.1).map fun i => right160 i.2

def inForce (scalar : Scalar) (blockHeight : Nat) : Option Address :=
  dgp.lastActive (fun height => height.toNat ≤ blockHeight) scalar

/-- What should be read at a height: the value published by the template in force if it is within
the limits, and the default in every other case. -/
def honoured (scalar : Scalar) (blockHeight : Nat) : Nat :=
  ((dgp.inForce scalar blockHeight).bind (dgp.publishedValue scalar)).elim scalar.fallback scalar.within

/-- The template that is consulted at a height: heights are cut to 32 bits, and the zero address is
taken for no template. -/
def consulted (scalar : Scalar) (blockHeight : Nat) : Option Address :=
  (dgp.lastActive (fun height => height.toNat % 2 ^ 32 ≤ blockHeight) scalar).filter (· ≠ 0)

/-- The number the consulted template gives: its value is cut as well. -/
def consultedValue (scalar : Scalar) (blockHeight : Nat) : Nat :=
  ((dgp.consulted scalar blockHeight).bind (dgp.publishedValue scalar)).elim scalar.fallback
    fun value => scalar.within (value % 2 ^ scalar.width)

/-- Every slot of the list is there, and it is not longer than a `size_t` says. -/
def Complete (scalar : Scalar) : Prop :=
  (dgp.state.storage scalar.contract.address 0#256).toNat < 2 ^ 64 ∧
    ∀ i ∈ dgp.listed scalar, i.1 ≠ 0#256 ∧ i.2 ≠ 0#256

def Answers (scalar : Scalar) (blockHeight : Nat) : Prop :=
  ∀ template ∈ dgp.consulted scalar blockHeight, dgp.dgpevm = true →
    (dgp.callContract template scalar.contract.selector).isSome = true

variable {addr template : Address} {instances : List (UInt32 × Address)} {scalar : Scalar}
  {values : List UInt32}

theorem storageEntry_eq_some {slot value : U256} :
    dgp.storageEntry addr slot = some value ↔
      dgp.state.storage addr slot = value ∧ value ≠ 0#256 := by
  unfold storageEntry
  split
  · next zero => exact ⟨fun h => absurd h (by simp), fun h => absurd (h.1.symm.trans zero) h.2⟩
  · next stored =>
    simp only [some.injEq]
    exact ⟨fun same => ⟨same, same ▸ stored⟩, And.left⟩

theorem readInstances_eq_some {size : Nat} {slot : U256} :
    dgp.readInstances addr size slot = some instances ↔
      (∀ i ∈ dgp.listedFrom addr size slot, i.1 ≠ 0#256 ∧ i.2 ≠ 0#256) ∧
      instances = (dgp.listedFrom addr size slot).map fun i =>
        (ofNat i.1.toNat, right160 i.2) := by
  induction size generalizing slot instances with
  | zero =>
    simp only [readInstances, listedFrom, not_mem_nil, false_implies, implies_true, true_and,
      map_nil, some.injEq]
    exact eq_comm
  | succ size ih =>
    simp only [listedFrom, forall_mem_cons, map_cons]
    constructor
    · intro returned
      rw [readInstances] at returned
      split at returned
      · next first second rest found found' read =>
        obtain ⟨rfl, height⟩ := dgp.storageEntry_eq_some.1 found
        obtain ⟨rfl, address⟩ := dgp.storageEntry_eq_some.1 found'
        obtain ⟨others, rfl⟩ := ih.1 read
        exact ⟨⟨⟨height, address⟩, others⟩, (some.inj returned).symm⟩
      · cases returned
    · rintro ⟨⟨⟨height, address⟩, others⟩, rfl⟩
      rw [readInstances, dgp.storageEntry_eq_some.2 ⟨rfl, height⟩,
        dgp.storageEntry_eq_some.2 ⟨rfl, address⟩, ih.2 ⟨others, rfl⟩]

theorem createParamsInstance_eq_some :
    dgp.createParamsInstance scalar.contract.address = some instances ↔
      dgp.Complete scalar ∧
      instances = (dgp.listed scalar).map fun i => (ofNat i.1.toNat, right160 i.2) := by
  unfold createParamsInstance Complete listed storageEntry
  by_cases zero : dgp.state.storage scalar.contract.address 0#256 = 0#256
  · rw [if_pos zero, zero]
    simp only [BitVec.toNat_ofNat, listedFrom, Nat.zero_mod, not_mem_nil, false_implies,
      implies_true, and_true, map_nil, some.injEq, Nat.two_pow_pos, true_and]
    exact eq_comm
  · rw [if_neg zero]
    dsimp only
    split
    · next small =>
      rw [readInstances_eq_some]
      exact ⟨fun h => ⟨⟨small, h.1⟩, h.2⟩, fun h => ⟨h.1.2, h.2⟩⟩
    · next large => exact ⟨fun h => absurd h (by simp), fun h => absurd h.1.1 large⟩

theorem getAddressForBlock_listed (scalar : Scalar) (blockHeight : Nat) :
    getAddressForBlock ((dgp.listed scalar).map fun i => (ofNat i.1.toNat, right160 i.2))
      blockHeight = (dgp.consulted scalar blockHeight).getD 0 := by
  rw [getAddressForBlock, instanceForBlock, consulted, lastActive, ← map_reverse, find?_map]
  simp only [comp_def, toNat_ofNat']
  cases (dgp.listed scalar).reverse.find? fun i => decide (i.1.toNat % 2 ^ 32 ≤ blockHeight) with
  | none => rfl
  | some i =>
    by_cases zero : right160 i.2 = 0
    · simp [Option.filter, zero]
    · simp [Option.filter, zero]

theorem getScalar_eq (scalar : Scalar) (blockHeight : Nat) :
    dgp.getScalar scalar blockHeight = (dgp.getUint64FromDGP scalar.contract blockHeight).map
      fun value => scalar.within (value.toNat % 2 ^ scalar.width) := by
  have wide (value : UInt64) : value.toNat % 2 ^ 64 = value.toNat := Nat.mod_eq_of_lt value.toNat_lt
  cases scalar <;>
    simp only [getScalar, getBlockSize, getMinGasPrice, getBlockGasLimit, Option.map_map,
      Scalar.contract, Scalar.width, Scalar.within, Scalar.least, Scalar.greatest, Scalar.fallback, wide]
  · congr 1
    funext value
    simp only [comp_apply, admitBlockSize, le_iff_toNat_le, UInt64.toNat_toUInt32,
      and_comm, apply_ite toNat]
    rfl
  · congr 1
    funext value
    simp only [comp_apply, admitMinGasPrice, UInt64.le_iff_toNat_le, and_comm,
      apply_ite UInt64.toNat]
  · congr 1
    funext value
    simp only [comp_apply, admitBlockGasLimit, UInt64.le_iff_toNat_le, and_comm,
      apply_ite UInt64.toNat]

theorem uint64FromTemplate_eq (isTemplate : template ≠ 0) (returns : dgp.dgpevm →
      (dgp.callContract template scalar.contract.selector).isSome) :
    (dgp.uint64FromTemplate scalar.contract template).map UInt64.toNat =
      some (((dgp.publishedValue scalar template).getD 0) % 2 ^ 64) := by
  rw [uint64FromTemplate, if_neg isTemplate, publishedValue]
  cases mode : dgp.dgpevm with
  | true =>
    obtain ⟨output, returned⟩ := Option.isSome_iff_exists.1 (returns mode)
    rw [returned, if_pos rfl, if_pos rfl]
    by_cases word : output.length = 32
    · simp [parseDataOneUint64, Option.filter, word]
    · simp [parseDataOneUint64, Option.filter, word]
  | false =>
    simp only [Bool.false_eq_true, if_false, parseStorageOneUint64, Option.map_some]
    cases dgp.storageEntry template 0#256 with
    | none => rfl
    | some value => simp

theorem consulted_ne_zero {blockHeight : Nat}
    (chosen : dgp.consulted scalar blockHeight = some template) : template ≠ 0 := by
  simpa using (filter_eq_some_iff.1 chosen).2

/-- A reader returns when the list is complete and the getter answers, and then it returns what the
consulted template gives. -/
theorem getScalar_eq_some {blockHeight result : Nat} :
    dgp.getScalar scalar blockHeight = some result ↔
      dgp.Complete scalar ∧ dgp.Answers scalar blockHeight ∧
        dgp.consultedValue scalar blockHeight = result := by
  rw [getScalar_eq, getUint64FromDGP, templateForBlock]
  by_cases complete : dgp.Complete scalar
  · rw [dgp.createParamsInstance_eq_some.2 ⟨complete, rfl⟩, map_some, bind_some,
      getAddressForBlock_listed, consultedValue, Answers]
    simp only [complete, true_and]
    cases chosen : dgp.consulted scalar blockHeight with
    | none => simp [uint64FromTemplate, Scalar.within_zero]
    | some template =>
      have isTemplate := dgp.consulted_ne_zero chosen
      simp only [getD_some, mem_some_iff, forall_eq', bind_some]
      by_cases returns : dgp.dgpevm →
          (dgp.callContract template scalar.contract.selector).isSome = true
      · obtain ⟨value, read, same⟩ :=
          map_eq_some_iff.1 (dgp.uint64FromTemplate_eq isTemplate returns)
        have narrower : 2 ^ scalar.width ∣ 2 ^ 64 := by cases scalar <;> decide
        rw [read, map_some, some.injEq, same, Nat.mod_mod_of_dvd _ narrower,
          and_iff_right returns]
        cases dgp.publishedValue scalar template with
        | none => simp [Scalar.within_zero]
        | some value => simp
      · obtain ⟨mode, silent⟩ := Classical.not_imp.1 returns
        have hangs : dgp.callContract template scalar.contract.selector = none := by simpa using silent
        simp [uint64FromTemplate, isTemplate, mode, hangs]
  · have undefined : dgp.createParamsInstance scalar.contract.address = none :=
      eq_none_iff_forall_ne_some.2 fun _ stored =>
        complete (dgp.createParamsInstance_eq_some.1 stored).1
    simp [undefined, complete]

/-- A scalar is honoured at a height exactly when its list is stored completely, a getter that is
called answers, and the cuts do no harm: the template in force is consulted and its value kept, or
another one gives the same number. -/
theorem scalar_honoured_iff (scalar : Scalar) (blockHeight : Nat) :
    dgp.getScalar scalar blockHeight = some (dgp.honoured scalar blockHeight) ↔
      dgp.Complete scalar ∧ dgp.Answers scalar blockHeight ∧
      if dgp.consulted scalar blockHeight = dgp.inForce scalar blockHeight then
        ∀ value ∈ (dgp.inForce scalar blockHeight).bind (dgp.publishedValue scalar), scalar.Kept value
      else dgp.consultedValue scalar blockHeight = dgp.honoured scalar blockHeight := by
  rw [getScalar_eq_some, and_congr_right_iff]
  refine fun _ => and_congr_right fun _ => ?_
  split
  · next same =>
    rw [consultedValue, honoured, same]
    cases (dgp.inForce scalar blockHeight).bind (dgp.publishedValue scalar) with
    | none => simp
    | some value => simpa using scalar.within_mod_iff value
  · exact Iff.rfl

/-- Accounts in which a contract lists one instance: a template at address 7 that takes effect at
height 2 and has the given storage. -/
def oneInstance (contract : DgpContract) (storage : U256 → U256) : ArtaxState where
  trie := fun a =>
    if a = contract.address then
      some { nonce := 0#256, balance := 0#256, code := [1],
             storage := fun slot =>
              if slot = 0#256 then 1#256 else if slot = 1000#256 then 2#256
              else if slot = 1001#256 then 7#256 else 0#256 }
    else if a = 7 then some { nonce := 0#256, balance := 0#256, code := [1], storage }
    else none

def hugeBlockSize : ArtaxDGP where
  dgpevm := false
  paramsInstanceSlot := 1000#256
  callContract := fun _ _ => none
  state := oneInstance .blockSize fun slot => if slot = 0#256 then 4295967296#256 else 0#256

/-- The block size in force is far above its limit, and its low bits are taken instead of the
default. -/
theorem hugeBlockSize_cut :
    hugeBlockSize.getBlockSize 2 = some 1000000 ∧ hugeBlockSize.honoured .blockSize 2 = 2000000 := by
  constructor <;> decide +kernel

/-! ## The gas schedule -/

/-- Each value lies between a hundredth of its default, at least 1, and its default times a
thousand, 1000 if the default is 0. -/
def WithinLimits (values : List UInt32) : Prop :=
  ∀ entry ∈ eip158.values.zip values,
    max 1 (entry.1.toNat / 100) ≤ entry.2.toNat ∧
      entry.2.toNat ≤ if entry.1 = 0 then 1000 else entry.1.toNat * 1000

instance (values : List UInt32) : Decidable (WithinLimits values) :=
  List.decidableBAll _ _

def scheduleFor (values : List UInt32) : EVMSchedule :=
  if WithinLimits values then .ofValues values else .eip158

def packSlot (lanes : List UInt32) : U256 :=
  BitVec.ofNat 256 (lanes.foldr (fun lane rest => lane.toNat + 2 ^ 32 * rest) 0)

/-- A template holds 39 values, eight to a slot, and its getter returns them as words. -/
structure HoldsSchedule (template : Address) (values : List UInt32) : Prop where
  length : values.length = 39
  packed : ∀ i < 5, dgp.state.storage template (BitVec.ofNat 256 i) =
    packSlot ((values.drop (8 * i)).take 8)
  returned : dgp.callContract template DgpContract.gasSchedule.selector =
    some (values.flatMap fun value => bigEndian 32 value.toNat)

theorem limits_exact {d : UInt32} (listed : d ∈ eip158.values) :
    (if d * 1000 > 0 then d * 1000 else 1 * 1000).toNat =
      (if d = 0 then 1000 else d.toNat * 1000) ∧
    (if d / 100 > 0 then d / 100 else 1).toNat = max 1 (d.toNat / 100) := by
  -- the list is gone through, not all words
  have all : (eip158.values.all fun d => decide (
      (if d * 1000 > 0 then d * 1000 else 1 * 1000).toNat =
        (if d = 0 then 1000 else d.toNat * 1000) ∧
      (if d / 100 > 0 then d / 100 else 1).toNat = max 1 (d.toNat / 100))) = true := by
    decide +kernel
  exact of_decide_eq_true (all_eq_true.1 all d listed)

theorem checkLimitSchedule_iff (length : values.length = 39) :
    checkLimitSchedule eip158.values values ↔ WithinLimits values := by
  rw [checkLimitSchedule, if_pos ⟨rfl, length⟩, all_eq_true]
  refine forall₂_congr fun entry listed => ?_
  obtain ⟨most, least⟩ := limits_exact (of_mem_zip listed).1
  rw [Bool.not_eq_true', Bool.or_eq_false_iff, decide_eq_false_iff_not, decide_eq_false_iff_not,
    gt_iff_lt, lt_iff_toNat_lt, lt_iff_toNat_lt, most, least, Nat.not_lt, Nat.not_lt,
    and_comm]

theorem createEVMSchedule_storage (template : Address) :
    createEVMSchedule (dgp.parseStorageScheduleContract template) = .eip158 := by
  have eights (slots : List (Nat × U256)) :
      (slots.flatMap fun d => unpackSlot d.2).length = 8 * slots.length := by
    induction slots with
    | nil => rfl
    | cons slot slots ih =>
      rw [flatMap_cons, length_append, ih, length_cons]
      simp only [unpackSlot, length_map, length_range]
      omega
  have other : ¬(eip158.values.length = 39 ∧
      (dgp.parseStorageScheduleContract template).length = 39) := by
    rw [parseStorageScheduleContract, eights]
    omega
  rw [createEVMSchedule, checkLimitSchedule, if_neg other]
  rfl

theorem parseDataScheduleContract_words (values : List UInt32) :
    parseDataScheduleContract (values.flatMap fun value => bigEndian 32 value.toNat) = values := by
  induction values with
  | nil => rfl
  | cons value values ih =>
    have fits : value.toNat < 256 ^ 32 := value.toNat_lt.trans (by decide)
    have word : ofBigEndian (bigEndian 32 value.toNat) = value.toNat := ofBigEndian_bigEndian 32 _ fits
    have words (rest : Bytes) : (bigEndian 32 value.toNat ++ rest).length / 32 = rest.length / 32 + 1 := by
      rw [length_append, bigEndian_length]
      omega
    have later (rest : Bytes) (i : Nat) :
        (bigEndian 32 value.toNat ++ rest).drop ((i + 1) * 32) = rest.drop (i * 32) := by
      rw [Nat.succ_mul, Nat.add_comm, ← drop_drop, drop_left' (bigEndian_length 32 _)]
    rw [flatMap_cons, parseDataScheduleContract, words, range_succ_eq_map, map_cons,
      map_map, Nat.zero_mul, drop_zero, take_left' (bigEndian_length 32 _), word]
    simp only [comp_def, Nat.succ_eq_add_one, later]
    rw [UInt32.ofNat_toNat]
    exact congrArg (value :: ·) ih

theorem createEVMSchedule_words (length : values.length = 39) :
    createEVMSchedule values = scheduleFor values := by
  rw [createEVMSchedule, scheduleFor]
  by_cases within : WithinLimits values
  · have enough : 39 ≤ values.length := by omega
    rw [(checkLimitSchedule_iff length).2 within, if_pos within]
    exact (if_neg (by decide)).trans (if_pos enough)
  · rw [Bool.eq_false_iff.2 (mt (checkLimitSchedule_iff length).1 within), if_neg within]
    rfl

theorem ofValues_ne_default (within : WithinLimits values) (length : values.length = 39) :
    ofValues values ≠ .eip158 := by
  intro same
  obtain ⟨first, rest, rfl⟩ := exists_cons_of_length_eq_add_one length
  have least := (within (0, first) (mem_cons_self ..)).1
  have tiers : first :: rest.take 7 = [0, 2, 3, 5, 8, 10, 20, 0] := congrArg tierStepGas same
  have zero : first = 0 := (cons.inj tiers).1
  rw [zero] at least
  exact absurd least (by decide)

section Modes

variable {blockHeight : Nat} {template : Address} {values : List UInt32}

theorem getGasSchedule_modes
    (found : dgp.templateForBlock .gasSchedule blockHeight = some template)
    (isTemplate : template ≠ 0) (holds : dgp.HoldsSchedule template values) :
    { dgp with dgpevm := false }.getGasSchedule blockHeight = some .eip158 ∧
      { dgp with dgpevm := true }.getGasSchedule blockHeight = some (scheduleFor values) := by
  have inForce (mode : Bool) :
      { dgp with dgpevm := mode }.templateForBlock .gasSchedule blockHeight = some template := by
    have same : { dgp with dgpevm := mode }.createParamsInstance _ = dgp.createParamsInstance
        DgpContract.gasSchedule.address := createParamsInstance_congr (by rfl) (by rfl) _
    rw [← found]
    exact congrArg (Option.map _) same
  constructor
  · rw [getGasSchedule, inForce, Option.bind_some, if_neg isTemplate, scheduleValues]
    exact congrArg some (createEVMSchedule_storage _ template)
  · rw [getGasSchedule, inForce, Option.bind_some, if_neg isTemplate, scheduleValues, if_pos rfl,
      holds.returned, Option.map_some, Option.map_some, parseDataScheduleContract_words,
      createEVMSchedule_words holds.length]

/-- Both modes read the schedule that a template holds exactly when that is the default because a
value is out of its limits. -/
theorem schedule_modes_agree_iff
    (found : dgp.templateForBlock .gasSchedule blockHeight = some template)
    (isTemplate : template ≠ 0) (holds : dgp.HoldsSchedule template values) :
    ({ dgp with dgpevm := false }.getGasSchedule blockHeight = some (scheduleFor values) ∧
      { dgp with dgpevm := true }.getGasSchedule blockHeight = some (scheduleFor values)) ↔
        ¬WithinLimits values := by
  obtain ⟨stored, called⟩ := dgp.getGasSchedule_modes found isTemplate holds
  rw [stored, called, scheduleFor]
  split
  · next within => simp [within, (ofValues_ne_default within holds.length).symm]
  · next outside => simp [outside]

end Modes

def scheduled (values : List UInt32) : ArtaxDGP where
  dgpevm := true
  paramsInstanceSlot := 1000#256
  callContract := fun _ _ => some (values.flatMap fun value => bigEndian 32 value.toNat)
  state := oneInstance .gasSchedule fun slot => packSlot ((values.drop (8 * slot.toNat)).take 8)

theorem holdsSchedule_scheduled (length : values.length = 39) :
    (scheduled values).HoldsSchedule 7 values where
  length := length
  packed := fun i small => by
    have same : (BitVec.ofNat 256 i).toNat = i := Nat.mod_eq_of_lt (by omega)
    change packSlot ((values.drop (8 * (BitVec.ofNat 256 i).toNat)).take 8) = _
    rw [same]
  returned := rfl

def excessive : List UInt32 := eip158.values.map fun value => 2000 * max 1 value

/-- Values that are stored and too large: both modes read the default. -/
theorem schedule_modes_agree_excessive :
    (scheduled excessive).HoldsSchedule 7 excessive ∧
    { scheduled excessive with dgpevm := false }.getGasSchedule 2 = some (scheduleFor excessive) ∧
      { scheduled excessive with dgpevm := true }.getGasSchedule 2 = some (scheduleFor excessive) :=
  ⟨holdsSchedule_scheduled rfl, (schedule_modes_agree_iff (scheduled excessive) (by decide +kernel)
    (by decide) (holdsSchedule_scheduled rfl)).2 (by decide +kernel)⟩

/-- The default values with 1 for 0 are within the limits, but from storage the default is read. -/
theorem storage_schedule_ignored :
    WithinLimits (eip158.values.map (max 1)) ∧
      (scheduled (eip158.values.map (max 1))).HoldsSchedule 7
        (eip158.values.map (max 1)) ∧
      { scheduled (eip158.values.map (max 1)) with dgpevm := false }.getGasSchedule 2 ≠
        { scheduled (eip158.values.map (max 1)) with dgpevm := true }.getGasSchedule 2 := by
  have within : WithinLimits (eip158.values.map (max 1)) := by decide +kernel
  refine ⟨within, holdsSchedule_scheduled rfl, ?_⟩
  have found : (scheduled (eip158.values.map (max 1))).templateForBlock .gasSchedule 2 =
      some 7 := by decide +kernel
  obtain ⟨stored, called⟩ :=
    ArtaxDGP.getGasSchedule_modes _ found (by decide) (holdsSchedule_scheduled rfl)
  rw [stored, called, scheduleFor, if_pos within]
  exact fun same => ofValues_ne_default within rfl (some.inj same).symm

end ArtaxDGP
end Artax
