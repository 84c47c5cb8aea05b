import Artax.Validation.Rejected

/-!
# The versions of the contract outputs of a transaction

The loop of `ConnectBlock` refuses a version zero only behind another version. With the rule for
transactions of version zero and the check of `performByteCode`, no order of the outputs lets a
version other than `EVMDefault` through; which check rejects them depends on the order.
-/

namespace Artax

theorem VersionVM.fromRaw_toRaw (v : VersionVM) : fromRaw v.toRaw = v := by
  obtain ⟨format, rootVM, vmVersion, flagOptions⟩ := v
  simp only [fromRaw, toRaw, VersionVM.mk.injEq]
  refine ⟨?_, ?_, ?_, ?_⟩ <;> ext i hi <;> simp <;> grind

namespace ConnectEnv

open VersionVM ByteCodeExec
open Util (bind_eq_ok require)

def versionReasons : List String :=
  ["bad-tx-version-format", "bad-tx-mixed-zero-versions", "bad-tx-version-rootvm",
    "bad-tx-version-vmversion", "bad-tx-version-flags", "bad-tx-improper-version-0"]

def screen (minGasPrice blockGasLimit : UInt64) (nTxFee : CAmount) (txs : List ArtaxTransaction) :
    Except Rejection Unit := do
  let nonZeroVersion ← checkVersionsAndGas minGasPrice blockGasLimit nTxFee txs 0#256 0#256 false
  require nonZeroVersion ⟨100, "bad-tx-improper-version-0"⟩

def AllDefault (txs : List ArtaxTransaction) : Prop :=
  ∀ qtx ∈ txs, qtx.version.toRaw = evmDefault.toRaw

/-- `performByteCode` fails before it executes anything. -/
def Refuses (ctx : ExecutionContext) (info : EnvInfo) (s : ArtaxState) (txs : List ArtaxTransaction) :
    Prop :=
  performByteCode ctx info .committed txs s [] = some (false, s, [])

/-- A result of the checks that does not reject the versions. -/
def Harmless {α : Type} (good : α → Prop) : Except Rejection α → Prop
  | .error rejection => rejection.reason ∉ versionReasons
  | .ok result => good result

theorem Harmless.require_bind {α : Type} {good : α → Prop} {condition : Bool} {rejection : Rejection}
    {next : Unit → Except Rejection α}
    (other : condition = false → rejection.reason ∉ versionReasons)
    (rest : condition = true → Harmless good (next ())) :
    Harmless good (require condition rejection >>= next) := by
  cases condition
  · exact other rfl
  · exact rest rfl

variable {minGasPrice blockGasLimit : UInt64} {nTxFee : CAmount} {txs : List ArtaxTransaction}
  {ctx : ExecutionContext} {info : EnvInfo} {s : ArtaxState}

theorem refuses_of_not_allDefault (versions : VersionsChecked txs) (other : ¬AllDefault txs) :
    Refuses ctx info s txs := by
  obtain all | ⟨tx, rest, rfl, differs⟩ := versions
  · exact absurd all other
  · rw [Refuses, performByteCode, if_pos differs]

/-- The loop finds nothing wrong with versions that are all `EVMDefault`. -/
theorem harmless_checkVersionsAndGas {sumGas gasAllTxs : U256} {nonZero : Bool}
    (all : AllDefault txs) : Harmless (· = (nonZero || !txs.isEmpty))
      (checkVersionsAndGas minGasPrice blockGasLimit nTxFee txs sumGas gasAllTxs nonZero) := by
  induction txs generalizing sumGas gasAllTxs nonZero with
  | nil => simp [checkVersionsAndGas, Harmless]
  | cons qtx rest ih =>
    obtain ⟨first, others⟩ := List.forall_mem_cons.1 all
    have version : qtx.version = evmDefault := by
      rw [← fromRaw_toRaw qtx.version, first, fromRaw_toRaw]
    simp only [checkVersionsAndGas, version]
    refine .require_bind (fun _ => by decide) fun _ => ?_
    refine .require_bind (fun _ => by decide) fun _ => ?_
    refine .require_bind (by decide) fun _ => ?_
    refine .require_bind (by cases nonZero <;> decide) fun _ => ?_
    refine .require_bind (by decide) fun _ => ?_
    refine .require_bind (by decide) fun _ => ?_
    refine .require_bind (by decide) fun _ => ?_
    refine .require_bind (fun _ => by decide) fun _ => ?_
    refine .require_bind (fun _ => by decide) fun _ => ?_
    refine .require_bind (fun _ => by decide) fun _ => ?_
    refine .require_bind (fun _ => by decide) fun _ => ?_
    have later := @ih (sumGas + qtx.gas * qtx.gasPrice) (gasAllTxs + qtx.gas)
      (nonZero || evmDefault.rootVM != 0) others
    simpa [evmDefault] using later

/-- The outputs are rejected by a check of their versions, before they are executed or at the start of
that. -/
def RejectedForVersions (minGasPrice blockGasLimit : UInt64) (nTxFee : CAmount)
    (ctx : ExecutionContext) (info : EnvInfo) (s : ArtaxState) (txs : List ArtaxTransaction) : Prop :=
  ¬Harmless (fun _ => ¬Refuses ctx info s txs) (screen minGasPrice blockGasLimit nTxFee txs)

theorem not_rejectedForVersions (all : AllDefault txs) (some : txs ≠ []) :
    ¬RejectedForVersions minGasPrice blockGasLimit nTxFee ctx info s txs := by
  rw [RejectedForVersions, not_not, screen]
  have harmless := @harmless_checkVersionsAndGas minGasPrice blockGasLimit nTxFee txs 0#256 0#256
    false all
  cases checked : checkVersionsAndGas minGasPrice blockGasLimit nTxFee txs 0#256 0#256 false with
  | error rejection =>
    rw [checked] at harmless
    exact harmless
  | ok nonZeroVersion =>
    rw [checked] at harmless
    obtain rfl : nonZeroVersion = true := harmless.trans (by simpa using some)
    intro refuses
    exact absurd (performByteCode_default all refuses).1 (by decide)

/-- Outputs are executed only if all their versions are `EVMDefault`: where the loop lets another
version pass, `performByteCode` fails first. In whatever order they stand, they are not rejected for
their versions where all are. -/
theorem versions_screened (env : ConnectEnv) (minGasPrice blockGasLimit : UInt64)
    (ctx : ExecutionContext) (info : EnvInfo) (s : ArtaxState) (txs : List ArtaxTransaction) :
    (∀ view block tx, env.checkContract minGasPrice blockGasLimit view block tx = .ok txs →
      ¬Refuses ctx info s txs → AllDefault txs) ∧
    (∀ nTxFee nonZeroVersion,
      checkVersionsAndGas minGasPrice blockGasLimit nTxFee txs 0#256 0#256 false = .ok nonZeroVersion →
      ¬AllDefault txs → Refuses ctx info s txs) ∧
    ∀ nTxFee (txs' : List ArtaxTransaction), txs.Perm txs' →
      (¬AllDefault txs → screen minGasPrice blockGasLimit nTxFee txs' = .ok () →
        Refuses ctx info s txs') ∧
      (AllDefault txs → txs ≠ [] →
        ¬RejectedForVersions minGasPrice blockGasLimit nTxFee ctx info s txs') := by
  refine ⟨fun view block tx checked executes => ?_, fun nTxFee result passed => ?_,
    fun nTxFee txs' permuted => ?_⟩
  · by_contra other
    exact executes (refuses_of_not_allDefault (versionsChecked_of_checkContract checked) other)
  · exact refuses_of_not_allDefault (versionsChecked_of_checkVersionsAndGas passed).1
  · have same : AllDefault txs ↔ AllDefault txs' := by simp only [AllDefault, permuted.mem_iff]
    refine ⟨fun other passed => ?_, fun all some => ?_⟩
    · obtain ⟨_, checked, _⟩ := bind_eq_ok.1 passed
      exact refuses_of_not_allDefault (versionsChecked_of_checkVersionsAndGas checked).1
        (same.not.1 other)
    · refine not_rejectedForVersions (same.1 all) fun empty => some ?_
      rw [empty] at permuted
      exact permuted.eq_nil

/-- A call whose version has a format that is not known. -/
def unknownFormat : ArtaxTransaction :=
  { version := ⟨1, 1, 0, 0⟩, isCreation := false, value := 0#256, gasPrice := 40#256,
    gas := 10000#256, receiveAddress := 7, data := [], sender := 1 }

/-- A call with less gas than a call needs. -/
def littleGas : ArtaxTransaction := { unknownFormat with version := evmDefault, gas := 1#256 }

/-- Behind a call with too little gas, the wrong version is not what the two are rejected for. -/
theorem rejection_depends_on_order :
    RejectedForVersions 40 40000000 1000000 (.sample (.stop [])) ArtaxState.sampleEnv {}
        [unknownFormat, littleGas] ∧
      ¬RejectedForVersions 40 40000000 1000000 (.sample (.stop [])) ArtaxState.sampleEnv {}
        [littleGas, unknownFormat] := by
  have first : screen 40 40000000 1000000 [unknownFormat, littleGas] =
      .error ⟨100, "bad-tx-version-format"⟩ := by decide +kernel
  have second : screen 40 40000000 1000000 [littleGas, unknownFormat] =
      .error ⟨100, "bad-tx-too-little-gas"⟩ := by decide +kernel
  rw [RejectedForVersions, RejectedForVersions, first, second]
  exact ⟨fun harmless => harmless (by decide), not_not.2 (by decide : _ ∉ versionReasons)⟩

end ConnectEnv
end Artax
